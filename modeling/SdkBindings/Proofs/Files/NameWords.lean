import Mathlib.Data.List.TakeWhile
import SdkBindings.Proofs.Files.SafeNames

/-!
# What a sanitized name keeps of a name

With underscores for what is not safe, all that is left of a name are its words: the longest pieces
without an underscore or an unsafe character.  They are written one after the other with single
underscores between them (`toList_sanitize`), so names with the same words are sanitized to the same
name and names with different words to different ones (`sanitize_eq_iff`).

Each of the three steps keeps the words of a text.  All of this follows from how words are cut at a
break (`words_append_break`), with what stands in front of the break as a variable, so that the
inductions can move other characters there.
-/

namespace SdkBindings.FileName

variable {p : Char → Bool} {c d : Char} {text rest : List Char}

/-- The words of a text: its longest pieces without a break. -/
def words (isBreak : Char → Bool) (text : List Char) : List (List Char) :=
  (text.splitOnP isBreak).filter (· ≠ [])

/-! ## Cutting words -/

/-- Words end at a break. -/
theorem words_append_break (before : List Char) (h : p d = true) :
    words p (before ++ d :: rest) = words p before ++ words p rest := by
  rw [words, List.splitOnP_append_cons before rest h, List.filter_append, words, words]

/-- A text without breaks is one word, unless it is empty. -/
theorem words_of_no_break (h : ∀ d ∈ text, p d = false) :
    words p text = [text].filter (· ≠ []) := by
  rw [words, List.splitOnP_eq_singleton h]

theorem words_nil : words p [] = [] :=
  words_of_no_break fun _ hd => absurd hd List.not_mem_nil

/-- A break in front does not matter. -/
theorem words_cons_break (h : p d = true) : words p (d :: rest) = words p rest := by
  have hcut : words p ([] ++ d :: rest) = words p [] ++ words p rest := words_append_break [] h
  rwa [words_nil] at hcut

/-- Neither do several. -/
theorem words_dropWhile (text : List Char) : words p (text.dropWhile p) = words p text := by
  induction text with
  | nil => rfl
  | cons d rest ih =>
    cases hd : p d with
    | true => rw [List.dropWhile_cons_of_pos hd, ih, words_cons_break hd]
    | false => rw [List.dropWhile_cons_of_neg (by rw [hd]; exact Bool.false_ne_true)]

/-- Breaks alone have no words. -/
theorem words_of_breaks (h : ∀ d ∈ text, p d = true) : words p text = [] := by
  have hnone : text.dropWhile p = [] := by
    rw [List.dropWhile_eq_nil_iff]
    exact h
  rw [← words_dropWhile, hnone, words_nil]

/-- Breaks at the end do not matter. -/
theorem words_append_breaks (before : List Char) (h : ∀ d ∈ rest, p d = true) :
    words p (before ++ rest) = words p before := by
  cases rest with
  | nil => rw [List.append_nil]
  | cons d rest =>
    rw [words_append_break before (h d List.mem_cons_self),
      words_of_breaks fun e he => h e (List.mem_cons_of_mem d he), List.append_nil]

/-- A text has the words that are left when breaks are stripped off its ends. -/
theorem words_strip (text : List Char) : words p (Text.strip p text) = words p text := by
  have hback := List.takeWhile_append_dropWhile (p := p) (l := (text.dropWhile p).reverse)
  have hcut : text.dropWhile p =
      Text.strip p text ++ ((text.dropWhile p).reverse.takeWhile p).reverse := by
    rw [Text.strip, ← List.reverse_append, hback, List.reverse_reverse]
  have hbreaks : ∀ d ∈ ((text.dropWhile p).reverse.takeWhile p).reverse, p d = true :=
    fun d hd => List.mem_takeWhile_imp (List.mem_reverse.mp hd)
  rw [← words_dropWhile text, hcut, words_append_breaks _ hbreaks]

/-! ## The steps keep the words -/

/-- A text has the words that are left when runs of a break collapse. -/
theorem words_append_collapseRuns (before text : List Char) :
    words (· = c) (before ++ collapseRuns c text) = words (· = c) (before ++ text) := by
  induction hn : text.length using Nat.strongRecOn generalizing before text with
  | ind n ih =>
  cases text with
  | nil => rw [collapseRuns, collapse]
  | cons d rest =>
    by_cases hd : d = c
    · subst hd
      have hshorter := (List.dropWhile_suffix (· = d) (l := rest)).length_le
      have hrest := ih (rest.dropWhile (· = d)).length (by rw [← hn, List.length_cons]; omega) []
        (rest.dropWhile (· = d)) rfl
      have hbreak : decide (d = d) = true := decide_eq_true rfl
      rw [List.nil_append, List.nil_append, words_dropWhile] at hrest
      rw [collapseRuns_cons_self, words_append_break before hbreak,
        words_append_break before hbreak, hrest]
    · have hrest := ih rest.length (by rw [← hn, List.length_cons]; omega) (before ++ [d]) rest rfl
      rw [collapseRuns, collapse_cons_of_ne _ hd]
      rwa [List.append_assoc, List.append_assoc] at hrest

/-- What ends a word of a name: an underscore, or a character that is replaced with one. -/
def isBreak (d : Char) : Bool :=
  !isSafe d || d = '_'

/-- The words of a name are those that are left when what is not safe has been replaced. -/
theorem words_append_replaceUnsafe (before text : List Char) (h : ∀ d ∈ before, isBreak d = false) :
    words (· = '_') (before ++ replaceUnsafe ['_'] text) = words isBreak (before ++ text) := by
  have hletters : ∀ d, isBreak d = false → isSafe d = true ∧ decide (d = '_') = false := by
    intro d hd
    rwa [isBreak, Bool.or_eq_false_iff, Bool.not_eq_false'] at hd
  have hbefore : ∀ d ∈ before, decide (d = '_') = false := fun d hd => (hletters d (h d hd)).2
  rw [replaceUnsafe_eq_map]
  induction text generalizing before with
  | nil =>
    rw [List.map_nil, List.append_nil, words_of_no_break hbefore, words_of_no_break h]
  | cons d rest ih =>
    rw [List.map_cons]
    cases hd : isBreak d with
    | true =>
      have hrest := ih [] (fun _ hd => absurd hd List.not_mem_nil)
        (fun _ hd => absurd hd List.not_mem_nil)
      have hunderscore : (if isSafe d then d else '_') = '_' := by
        split
        · next hsafe =>
          rw [isBreak, hsafe, Bool.not_true, Bool.false_or, decide_eq_true_eq] at hd
          exact hd
        · rfl
      rw [hunderscore, words_append_break before (decide_eq_true rfl), words_append_break before hd,
        words_of_no_break hbefore, words_of_no_break h]
      exact congrArg _ hrest
    | false =>
      have hrest := ih (before ++ [d])
        (fun e he => (List.mem_append.mp he).elim (h e) fun he => List.mem_singleton.mp he ▸ hd)
        (fun e he => (List.mem_append.mp he).elim (hbefore e) fun he =>
          List.mem_singleton.mp he ▸ (hletters d hd).2)
      rw [if_pos (hletters d hd).1]
      rwa [List.append_assoc, List.append_assoc] at hrest

/-! ## A safe name is its words -/

/-- A text without the break is one word. -/
theorem words_of_not_mem (hc : c ∉ text) (hne : text ≠ []) : words (· = c) text = [text] := by
  have hbreaks : ∀ d ∈ text, decide (d = c) = false :=
    fun d hd => decide_eq_false fun he => hc (he ▸ hd)
  rw [words_of_no_break hbreaks]
  exact List.filter_cons_of_pos (by simpa using hne)

/-- A text that neither starts nor ends with a break, and in which no two stand in a row, is its words
with single breaks between them. -/
theorem intercalate_words (before text : List Char) (hbefore : c ∉ before)
    (hfirst : (before ++ text).head? ≠ some c) (hlast : text.getLast? ≠ some c)
    (hsingle : ¬ [c, c] <:+: text) :
    [c].intercalate (words (· = c) (before ++ text)) = before ++ text := by
  induction text generalizing before with
  | nil =>
    rw [List.append_nil]
    by_cases hempty : before = []
    · subst hempty
      rw [words_nil]
      rfl
    · rw [words_of_not_mem hbefore hempty, List.intercalate_singleton]
  | cons d rest ih =>
    have hrestLast : rest.getLast? ≠ some c := fun h => hlast (by rw [List.getLast?_cons, h]; rfl)
    have hrestSingle : ¬ [c, c] <:+: rest := fun h => hsingle (double_cons_iff.mpr (.inr h))
    by_cases hd : d = c
    · subst hd
      have hbeforeNe : before ≠ [] := by
        rintro rfl
        exact hfirst rfl
      have hrestFirst : rest.head? ≠ some d := fun h => hsingle (double_cons_iff.mpr (.inl ⟨rfl, h⟩))
      have hrest := ih [] List.not_mem_nil hrestFirst hrestLast hrestSingle
      rw [List.nil_append] at hrest
      have hmore : words (· = d) rest ≠ [] := by
        intro hnone
        rw [hnone] at hrest
        have hempty : rest = [] := hrest.symm
        rw [hempty] at hlast
        exact hlast rfl
      rw [words_append_break before (decide_eq_true rfl), words_of_not_mem hbefore hbeforeNe,
        List.singleton_append, List.intercalate_cons_of_ne_nil hmore, hrest]
      simp
    · have hword : c ∉ before ++ [d] := by
        rw [List.mem_append, List.mem_singleton, not_or]
        exact ⟨hbefore, Ne.symm hd⟩
      have hwhole : before ++ d :: rest = (before ++ [d]) ++ rest := by rw [List.append_assoc]; rfl
      rw [hwhole] at hfirst ⊢
      exact ih (before ++ [d]) hword hfirst hrestLast hrestSingle

/-! ## Sanitized names -/

/-- The words of a name, or the name of what has none. -/
def nameWords (name : String) : List (List Char) :=
  if words isBreak name.toList = [] then [unnamed.toList] else words isBreak name.toList

/-- What the three steps leave has the words of the name. -/
theorem words_steps (name : String) :
    words (· = '_') (Text.strip ['_'].contains (collapseRuns '_' (replaceUnsafe ['_'] name.toList))) =
      words isBreak name.toList := by
  have hcontains : ['_'].contains = fun d => decide (d = '_') := by
    funext d
    simp
  have hcollapse := words_append_collapseRuns (c := '_') [] (replaceUnsafe ['_'] name.toList)
  have hreplace := words_append_replaceUnsafe [] name.toList fun _ hd => absurd hd List.not_mem_nil
  rw [List.nil_append, List.nil_append] at hcollapse hreplace
  rw [hcontains, words_strip, hcollapse, hreplace]

/-- A safe name is its words with single underscores between them. -/
theorem IsSafeName.intercalate_words (h : IsSafeName '_' text) :
    ['_'].intercalate (words (· = '_') text) = text :=
  FileName.intercalate_words [] text List.not_mem_nil h.first h.last h.single

/-- A safe name has a word. -/
theorem IsSafeName.words_ne_nil (h : IsSafeName '_' text) : words (· = '_') text ≠ [] := by
  intro hnone
  have htext := h.intercalate_words
  rw [hnone] at htext
  exact h.ne_nil htext.symm

/-- A sanitized name has the words of the name. -/
theorem words_sanitize (name : String) :
    words (· = '_') (sanitize name).toList = nameWords name := by
  have hsafe : IsSafeName '_' (sanitize name).toList := isSafeName_sanitizeBy (by decide) name
  rw [nameWords, ← words_steps]
  rw [sanitize, sanitizeBy_eq, orUnnamed] at hsafe ⊢
  split at hsafe
  · next hnone =>
    rw [hnone, if_pos rfl, words_nil, if_pos rfl]
    exact words_of_not_mem (by decide) (by decide)
  · next hsome =>
    rw [String.toList_ofList] at hsafe
    rw [if_neg hsome, if_neg hsafe.words_ne_nil, String.toList_ofList]

/-- A sanitized name is the words of the name with single underscores between them. -/
theorem toList_sanitize (name : String) :
    (sanitize name).toList = ['_'].intercalate (nameWords name) := by
  have hsafe : IsSafeName '_' (sanitize name).toList := isSafeName_sanitizeBy (by decide) name
  rw [← words_sanitize, hsafe.intercalate_words]

/-- Names are sanitized to the same name if they have the same words. -/
theorem sanitize_eq_iff {a b : String} : sanitize a = sanitize b ↔ nameWords a = nameWords b := by
  constructor
  · intro h
    rw [← words_sanitize, h, words_sanitize]
  · intro h
    rw [← String.toList_inj, toList_sanitize, toList_sanitize, h]

end SdkBindings.FileName
