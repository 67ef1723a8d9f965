import Mathlib.Data.List.Infix
import SdkBindings.Files.Name

/-!
# Safe names

A name is made safe in three steps: unsafe characters are replaced, runs of the replacement collapse
into one, and the replacement is taken off both ends.  Each step establishes one part of what a safe
name is (`IsSafeName`) and leaves a text alone that has this part already, so that a safe name is
sanitized to itself (`sanitizeBy_of_isSafeName`) and no other name is (`sanitizeBy_eq_self_iff`).

A replacement is read as a text with escapes where there is something to collapse.  A backslash cannot
be read, and any other character stands for itself.  `sanitizeWith_safe_stable` says what follows for
every name and every such character.
-/

namespace SdkBindings.FileName

variable {c d : Char} {text rest : List Char}

/-! ## Safe names -/

/-- The text is a safe name, where `c` is what unsafe characters are replaced with. -/
structure IsSafeName (c : Char) (text : List Char) : Prop where
  /-- It has a character. -/
  ne_nil : text ≠ []
  /-- Its characters are safe, or the replacement. -/
  safe : ∀ d ∈ text, isSafe d = true ∨ d = c
  /-- It does not start with the replacement. -/
  first : text.head? ≠ some c
  /-- It does not end with the replacement. -/
  last : text.getLast? ≠ some c
  /-- The replacement does not stand twice in a row. -/
  single : ¬ [c, c] <:+: text

instance : Decidable (IsSafeName c text) :=
  decidable_of_iff (text ≠ [] ∧ text.all (fun d => isSafe d || d = c) = true ∧
      text.head? ≠ some c ∧ text.getLast? ≠ some c ∧ ¬ [c, c] <:+: text)
    ⟨fun ⟨h₁, h₂, h₃, h₄, h₅⟩ => ⟨h₁, by simpa using h₂, h₃, h₄, h₅⟩,
      fun h => ⟨h.1, by simpa using h.2, h.3, h.4, h.5⟩⟩

example : IsSafeName '-' "a-b_c".toList ∧ ¬ IsSafeName '-' "a--b".toList := by decide

/-- What a nameless file is called has letters only. -/
theorem letters_unnamed : ∀ d ∈ unnamed.toList, isSafe d = true ∧ d.isAlpha = true := by
  have hall : unnamed.toList.all (fun d => isSafe d && d.isAlpha) = true := by decide
  exact fun d hd => Bool.and_eq_true_iff.mp (List.all_eq_true.mp hall d hd)

/-- What a nameless file is called is safe, unless the replacement is a letter. -/
theorem isSafeName_unnamed (hc : c.isAlpha = false) : IsSafeName c unnamed.toList := by
  have hmem : c ∉ unnamed.toList := by
    intro h
    rw [(letters_unnamed c h).2] at hc
    cases hc
  refine ⟨by decide, fun d hd => .inl (letters_unnamed d hd).1, fun h => ?_, fun h => ?_, fun h => ?_⟩
  · exact hmem (List.mem_of_head? h)
  · exact hmem (List.mem_of_getLast? h)
  · exact hmem (h.subset List.mem_cons_self)

/-! ## Replacing -/

/-- Each unsafe character becomes the replacement. -/
theorem replaceUnsafe_eq_map :
    replaceUnsafe [c] text = text.map fun d => if isSafe d then d else c := by
  rw [replaceUnsafe, List.map_eq_flatMap]
  congr 1
  funext d
  split <;> rfl

/-- What has been replaced is safe, or the replacement. -/
theorem safe_of_mem_replaceUnsafe (h : d ∈ replaceUnsafe [c] text) : isSafe d = true ∨ d = c := by
  rw [replaceUnsafe_eq_map] at h
  obtain ⟨e, -, rfl⟩ := List.mem_map.mp h
  split
  · exact .inl ‹_›
  · exact .inr rfl

/-- A text without other characters stays as it is. -/
theorem replaceUnsafe_of_safe (h : ∀ d ∈ text, isSafe d = true ∨ d = c) :
    replaceUnsafe [c] text = text := by
  rw [replaceUnsafe_eq_map, List.map_congr_left, List.map_id']
  intro d hd
  rcases h d hd with hsafe | rfl
  · exact if_pos hsafe
  · split <;> rfl

/-- The replacement stands in a text that had it, or an unsafe character. -/
theorem mem_replaceUnsafe_iff :
    c ∈ replaceUnsafe [c] text ↔ c ∈ text ∨ ∃ d ∈ text, isSafe d = false := by
  rw [replaceUnsafe_eq_map, List.mem_map]
  constructor
  · rintro ⟨d, hd, heq⟩
    split at heq
    · exact .inl (heq ▸ hd)
    · exact .inr ⟨d, hd, Bool.eq_false_iff.mpr ‹_›⟩
  · rintro (hc | ⟨d, hd, hreplaced⟩)
    · exact ⟨c, hc, by split <;> rfl⟩
    · exact ⟨d, hd, if_neg (by rw [hreplaced]; exact Bool.false_ne_true)⟩

/-! ## Collapsing -/

/-- Runs of the replacement become single ones. -/
abbrev collapseRuns (c : Char) : List Char → List Char :=
  collapse [c] fun _ => [c]

/-- Any other character stays. -/
theorem collapse_cons_of_ne (become : List Char → List Char) (h : d ≠ c) :
    collapse [c] become (d :: rest) = d :: collapse [c] become rest := by
  have hprefix : ¬ [c].isPrefixOf (d :: rest) = true := by
    simpa [List.isPrefixOf] using Ne.symm h
  rw [collapse]
  exact if_neg hprefix

/-- A run becomes a single one. -/
theorem collapseRuns_cons_self :
    collapseRuns c (c :: rest) = c :: collapseRuns c (rest.dropWhile (· = c)) := by
  have hprefix : [c].isPrefixOf (c :: rest) = true := by simp [List.isPrefixOf]
  have hdrop : rest.drop (rest.takeWhile (· = c)).length = rest.dropWhile (· = c) := by
    have hlength := congrArg (List.drop (rest.takeWhile (· = c)).length)
      (List.takeWhile_append_dropWhile (p := (· = c)) (l := rest))
    rw [← hlength, List.drop_left]
  rw [collapseRuns, collapse]
  simp only [List.getLast?_singleton, if_pos hprefix, List.length_singleton, Nat.sub_self,
    List.drop_zero, hdrop, List.singleton_append]

/-- Where there is no run, nothing changes, whatever runs become. -/
theorem collapse_of_not_mem (become : List Char → List Char) (h : c ∉ text) :
    collapse [c] become text = text := by
  induction text with
  | nil => rw [collapse]
  | cons d rest ih =>
    obtain ⟨hd, hrest⟩ := not_or.mp (mt List.mem_cons.mpr h)
    rw [collapse_cons_of_ne become (Ne.symm hd), ih hrest]

/-- Collapsing keeps the first character. -/
theorem head?_collapseRuns : (collapseRuns c text).head? = text.head? := by
  cases text with
  | nil => rw [collapseRuns, collapse]
  | cons d rest =>
    by_cases hd : d = c
    · subst hd
      rw [collapseRuns_cons_self]
      rfl
    · rw [collapseRuns, collapse_cons_of_ne _ hd]
      rfl

/-- Behind a run comes another character. -/
theorem head?_dropWhile_ne : (text.dropWhile (· = c)).head? ≠ some c := by
  intro h
  have hnot := List.head?_dropWhile_not (· = c) text
  rw [h] at hnot
  simp at hnot

/-- Two in a row start a text, or stand behind its first character. -/
theorem double_cons_iff : [c, c] <:+: d :: rest ↔ d = c ∧ rest.head? = some c ∨ [c, c] <:+: rest := by
  rw [List.infix_cons_iff]
  refine or_congr_left ?_
  cases rest with
  | nil => simp
  | cons e rest =>
    simp only [List.cons_prefix_cons, List.nil_prefix, and_true, List.head?_cons, Option.some.injEq]
    exact and_congr eq_comm eq_comm

/-- No two stand in a row in a collapsed text. -/
theorem single_collapseRuns (c : Char) (text : List Char) : ¬ [c, c] <:+: collapseRuns c text := by
  induction hn : text.length using Nat.strongRecOn generalizing text with
  | ind n ih =>
  cases text with
  | nil =>
    rw [collapseRuns, collapse]
    simp
  | cons d rest =>
    by_cases hd : d = c
    · subst hd
      rw [collapseRuns_cons_self, double_cons_iff, head?_collapseRuns]
      refine not_or.mpr ⟨fun h => head?_dropWhile_ne h.2, ih _ ?_ _ rfl⟩
      have hshorter := (List.dropWhile_suffix (· = d) (l := rest)).length_le
      rw [← hn, List.length_cons]
      omega
    · rw [collapseRuns, collapse_cons_of_ne _ hd, double_cons_iff]
      refine not_or.mpr ⟨fun h => hd h.1, ih rest.length ?_ rest rfl⟩
      rw [← hn, List.length_cons]
      omega

/-- A text in which no two stand in a row stays as it is. -/
theorem collapseRuns_of_single (h : ¬ [c, c] <:+: text) : collapseRuns c text = text := by
  induction text with
  | nil => rw [collapseRuns, collapse]
  | cons d rest ih =>
    obtain ⟨hfirst, hrest⟩ := not_or.mp (mt double_cons_iff.mpr h)
    by_cases hd : d = c
    · subst hd
      have hnone : rest.dropWhile (· = d) = rest := by
        cases rest with
        | nil => rfl
        | cons e rest =>
          have he : e ≠ d := fun he => hfirst ⟨rfl, congrArg some he⟩
          exact List.dropWhile_cons_of_neg (by simpa using he)
      rw [collapseRuns_cons_self, hnone, ih hrest]
    · rw [collapseRuns, collapse_cons_of_ne _ hd]
      exact congrArg _ (ih hrest)

/-- Collapsing brings in no character. -/
theorem subset_collapseRuns : collapseRuns c text ⊆ text := by
  induction hn : text.length using Nat.strongRecOn generalizing text with
  | ind n ih =>
  cases text with
  | nil =>
    rw [collapseRuns, collapse]
    exact List.Subset.refl []
  | cons d rest =>
    by_cases hd : d = c
    · subst hd
      have hsuffix := List.dropWhile_suffix (· = d) (l := rest)
      have hshorter := hsuffix.length_le
      rw [collapseRuns_cons_self]
      refine List.cons_subset_cons d (List.Subset.trans (ih _ ?_ rfl) hsuffix.subset)
      rw [← hn, List.length_cons]
      omega
    · rw [collapseRuns, collapse_cons_of_ne _ hd]
      refine List.cons_subset_cons d (ih rest.length ?_ rfl)
      rw [← hn, List.length_cons]
      omega

/-! ## Stripping -/

section Strip

variable {p : Char → Bool}

/-- What is left is a part of the text. -/
theorem strip_isInfix : Text.strip p text <:+: text := by
  have hfront := (List.dropWhile_suffix p (l := text)).isInfix
  have hback := (List.dropWhile_suffix p (l := (text.dropWhile p).reverse)).isInfix
  rw [Text.strip, ← List.reverse_infix, List.reverse_reverse]
  exact hback.trans (List.reverse_infix.mpr hfront)

/-- The first character that is left is not of the class. -/
theorem of_mem_head?_dropWhile (h : d ∈ (text.dropWhile p).head?) : p d = false := by
  have hnot := List.head?_dropWhile_not p text
  rw [Option.mem_def.mp h] at hnot
  exact hnot

/-- What is dropped at the front leaves the last character, if it leaves any. -/
theorem getLast?_of_mem_getLast?_dropWhile (h : d ∈ (text.dropWhile p).getLast?) :
    d ∈ text.getLast? := by
  rw [← List.takeWhile_append_dropWhile (p := p) (l := text), List.getLast?_append,
    Option.mem_def.mp h]
  rfl

/-- A stripped text does not start with a character of the class. -/
theorem of_mem_head?_strip (h : d ∈ (Text.strip p text).head?) : p d = false := by
  rw [Text.strip, List.head?_reverse] at h
  have hfirst := getLast?_of_mem_getLast?_dropWhile h
  rw [List.getLast?_reverse] at hfirst
  exact of_mem_head?_dropWhile hfirst

/-- A stripped text does not end with a character of the class. -/
theorem of_mem_getLast?_strip (h : d ∈ (Text.strip p text).getLast?) : p d = false := by
  rw [Text.strip, List.getLast?_reverse] at h
  exact of_mem_head?_dropWhile h

/-- Nothing is dropped from a text that starts with another character. -/
theorem dropWhile_of_head? (h : ∀ d ∈ text.head?, p d = false) : text.dropWhile p = text := by
  cases text with
  | nil => rfl
  | cons d rest =>
    have hd := h d rfl
    exact List.dropWhile_cons_of_neg (by rw [hd]; exact Bool.false_ne_true)

/-- A text without the class at its ends stays as it is. -/
theorem strip_of_ends (hfirst : ∀ d ∈ text.head?, p d = false)
    (hlast : ∀ d ∈ text.getLast?, p d = false) : Text.strip p text = text := by
  rw [Text.strip, dropWhile_of_head? hfirst,
    dropWhile_of_head? (by rw [List.head?_reverse]; exact hlast), List.reverse_reverse]

end Strip

/-! ## The three steps together -/

/-- The steps, also for the name without characters. -/
theorem sanitizeBy_eq (become : List Char → List Char) (name : String) :
    sanitizeBy [c] become name =
      orUnnamed (Text.strip [c].contains (collapse [c] become (replaceUnsafe [c] name.toList))) := by
  rw [sanitizeBy]
  split
  · subst name
    have hnone : collapse [c] become (replaceUnsafe [c] "".toList) = [] := by
      rw [String.toList_empty, replaceUnsafe, List.flatMap_nil, collapse]
    rw [hnone]
    rfl
  · rfl

/-- The replacement is what is taken off the ends. -/
theorem contains_eq_false_iff : [c].contains d = false ↔ d ≠ c := by
  simp

/-- A sanitized name is safe. -/
theorem isSafeName_sanitizeBy (hc : c.isAlpha = false) (name : String) :
    IsSafeName c (sanitizeBy [c] (fun _ => [c]) name).toList := by
  let collapsed := collapseRuns c (replaceUnsafe [c] name.toList)
  have hpart : Text.strip [c].contains collapsed <:+: collapsed := strip_isInfix
  rw [sanitizeBy_eq, orUnnamed]
  split
  · exact isSafeName_unnamed hc
  · next hne =>
    rw [String.toList_ofList]
    refine ⟨hne, fun d hd => ?_, fun hfirst => ?_, fun hlast => ?_, fun hdouble => ?_⟩
    · exact safe_of_mem_replaceUnsafe (subset_collapseRuns (hpart.subset hd))
    · exact contains_eq_false_iff.mp (of_mem_head?_strip hfirst) rfl
    · exact contains_eq_false_iff.mp (of_mem_getLast?_strip hlast) rfl
    · exact single_collapseRuns c _ (hdouble.trans hpart)

/-- A safe name is sanitized to itself. -/
theorem sanitizeBy_of_isSafeName {name : String} (h : IsSafeName c name.toList) :
    sanitizeBy [c] (fun _ => [c]) name = name := by
  have hfirst : ∀ d ∈ name.toList.head?, [c].contains d = false := by
    intro d hd
    exact contains_eq_false_iff.mpr fun he => h.first (he ▸ hd)
  have hlast : ∀ d ∈ name.toList.getLast?, [c].contains d = false := by
    intro d hd
    exact contains_eq_false_iff.mpr fun he => h.last (he ▸ hd)
  have hcollapse : collapse [c] (fun _ => [c]) name.toList = name.toList :=
    collapseRuns_of_single h.single
  rw [sanitizeBy_eq, replaceUnsafe_of_safe h.safe, hcollapse, strip_of_ends hfirst hlast, orUnnamed,
    if_neg h.ne_nil, String.ofList_toList]

/-- Safe names are the names that are sanitized to themselves. -/
theorem sanitizeBy_eq_self_iff (hc : c.isAlpha = false) {name : String} :
    sanitizeBy [c] (fun _ => [c]) name = name ↔ IsSafeName c name.toList := by
  constructor
  · intro h
    have hsafe := isSafeName_sanitizeBy hc name
    rwa [h] at hsafe
  · exact sanitizeBy_of_isSafeName

/-- Sanitizing brings in no character but the replacement, and the name of what has no name. -/
theorem mem_sanitizeBy {name : String} (h : d ∈ (sanitizeBy [c] (fun _ => [c]) name).toList) :
    d ∈ replaceUnsafe [c] name.toList ∨ d ∈ unnamed.toList := by
  rw [sanitizeBy_eq, orUnnamed] at h
  split at h
  · exact .inr h
  · rw [String.toList_ofList] at h
    exact .inl (subset_collapseRuns (strip_isInfix.subset h))

/-! ## A replacement that is read -/

/-- A character occurs in a text if it is one of its characters. -/
theorem occursIn_singleton_iff : Text.occursIn [c] text = true ↔ c ∈ text := by
  rw [Text.occursIn_iff]
  constructor
  · exact fun h => h.subset List.mem_cons_self
  · intro h
    obtain ⟨before, after, rfl⟩ := List.append_of_mem h
    exact ⟨before, after, by simp⟩

/-- Where nothing collapses, the replacement is not read. -/
theorem sanitizeWith_of_not_mem {name : String} (h : c ∉ replaceUnsafe [c] name.toList) :
    sanitizeWith (String.singleton c) name = .ok (sanitizeBy [c] (fun _ => [c]) name) := by
  have hoccurs : Text.occursIn [c] (replaceUnsafe [c] name.toList) = false :=
    Bool.eq_false_iff.mpr (mt occursIn_singleton_iff.mp h)
  rw [sanitizeWith, String.toList_singleton, if_pos (.inr (by rw [hoccurs]; rfl)), sanitizeBy_eq,
    sanitizeBy_eq, collapse_of_not_mem _ h, collapse_of_not_mem _ h]

/-- Where something collapses, it becomes what the replacement is read as. -/
theorem sanitizeWith_of_mem {name : String} (h : c ∈ replaceUnsafe [c] name.toList) :
    sanitizeWith (String.singleton c) name =
      (Replacement.read (String.singleton c)).map
        fun pieces => sanitizeBy [c] (Replacement.expand pieces) name := by
  have hname : name ≠ "" := by
    rintro rfl
    exact List.not_mem_nil h
  have hoccurs : Text.occursIn [c] (replaceUnsafe [c] name.toList) = true :=
    occursIn_singleton_iff.mpr h
  rw [sanitizeWith, String.toList_singleton, hoccurs, if_neg (by simp [hname]),
    if_neg (List.cons_ne_nil c [])]
  rfl

/-- A character stands for itself, unless it is a backslash. -/
theorem read_singleton (hc : c ≠ '\\') : Replacement.read (String.singleton c) = .ok [.char c] := by
  have hlexemes : Replacement.lexemes (String.singleton c).toList = [.char c] := by
    rw [String.toList_singleton, Replacement.lexemes, Replacement.lexemes]
    all_goals simp [hc]
  rw [Replacement.read, hlexemes]
  rfl

/-- The replacement is a backslash that would have to be read: the name has something to replace. -/
def IsUnreadable (c : Char) (name : String) : Prop :=
  c = '\\' ∧ ∃ d ∈ name.toList, isSafe d = false

instance (c : Char) (name : String) : Decidable (IsUnreadable c name) :=
  decidable_of_iff (c = '\\' ∧ name.toList.any (fun d => !isSafe d) = true) <| by
    rw [IsUnreadable, List.any_eq_true]
    simp only [Bool.not_eq_true']

/-- A backslash at the end of a replacement is an error. -/
theorem sanitizeWith_of_unreadable {name : String} (h : IsUnreadable c name) :
    sanitizeWith (String.singleton c) name = .error (.malformed .danglingEscape 0 "\\") := by
  obtain ⟨rfl, hreplaced⟩ := h
  rw [sanitizeWith_of_mem (mem_replaceUnsafe_iff.mpr (.inr hreplaced))]
  rfl

/-- Otherwise runs of the replacement collapse into one. -/
theorem sanitizeWith_of_readable {name : String} (h : ¬ IsUnreadable c name) :
    sanitizeWith (String.singleton c) name = .ok (sanitizeBy [c] (fun _ => [c]) name) := by
  by_cases hmem : c ∈ replaceUnsafe [c] name.toList
  · have hc : c ≠ '\\' := by
      rintro rfl
      rcases mem_replaceUnsafe_iff.mp hmem with hin | hreplaced
      · exact h ⟨rfl, _, hin, by decide⟩
      · exact h ⟨rfl, hreplaced⟩
    rw [sanitizeWith_of_mem hmem, read_singleton hc]
    rfl
  · exact sanitizeWith_of_not_mem hmem

/-- What has been sanitized can be sanitized again. -/
theorem not_isUnreadable_sanitizeBy {name : String} (h : ¬ IsUnreadable c name) :
    ¬ IsUnreadable c (sanitizeBy [c] (fun _ => [c]) name) := by
  rintro ⟨rfl, d, hd, hreplaced⟩
  rcases mem_sanitizeBy hd with hmem | hmem
  · have hsafe : ∀ e ∈ name.toList, isSafe e = true :=
      fun e he => eq_true_of_ne_false fun hreplaced => h ⟨rfl, e, he, hreplaced⟩
    rw [replaceUnsafe_of_safe fun e he => .inl (hsafe e he)] at hmem
    rw [hsafe d hmem] at hreplaced
    cases hreplaced
  · rw [(letters_unnamed d hmem).1] at hreplaced
    cases hreplaced

/-- Sanitizing with a character that is no letter gives a safe name, which is sanitized to itself,
unless the character is a backslash that would have to be read: then it is an error. -/
theorem sanitizeWith_safe_stable (hc : c.isAlpha = false) (name : String) :
    (IsUnreadable c name →
      sanitizeWith (String.singleton c) name = .error (.malformed .danglingEscape 0 "\\")) ∧
    (¬ IsUnreadable c name →
      ∃ text, sanitizeWith (String.singleton c) name = .ok text ∧ IsSafeName c text.toList ∧
        sanitizeWith (String.singleton c) text = .ok text) := by
  refine ⟨sanitizeWith_of_unreadable, fun h => ?_⟩
  have hsafe := isSafeName_sanitizeBy hc name
  refine ⟨_, sanitizeWith_of_readable h, hsafe, ?_⟩
  rw [sanitizeWith_of_readable (not_isUnreadable_sanitizeBy h), sanitizeBy_of_isSafeName hsafe]

/-- With a dash for what is not safe. -/
theorem sanitizeWith_safe_stable_dash :
    '-'.isAlpha = false ∧ ¬ IsUnreadable '-' "a::b<c>" ∧
      ∃ text, sanitizeWith (String.singleton '-') "a::b<c>" = .ok text ∧
        IsSafeName '-' text.toList ∧ sanitizeWith (String.singleton '-') text = .ok text :=
  ⟨by decide, by decide +kernel,
    (sanitizeWith_safe_stable (by decide) "a::b<c>").2 (by decide +kernel)⟩

/-- With a backslash for it, a name with a blank cannot be sanitized at all. -/
theorem sanitizeWith_backslash :
    '\\'.isAlpha = false ∧ ¬ ∃ text, sanitizeWith (String.singleton '\\') "a b" = .ok text := by
  refine ⟨by decide, fun ⟨text, htext⟩ => ?_⟩
  rw [sanitizeWith_of_unreadable (by decide +kernel)] at htext
  cases htext

example : (sanitizeWith "-" "a::b<c>").toOption = some "a-b-c" := by decide +kernel

end SdkBindings.FileName
