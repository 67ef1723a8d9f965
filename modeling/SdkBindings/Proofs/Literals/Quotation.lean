import Mathlib.Algebra.Ring.Parity
import Mathlib.Data.List.DropRight
import Mathlib.Data.List.Induction
import SdkBindings.Constant.Escape

/-!
# Literals around a text that is not escaped

The generated language has literals between quotation marks, one at each end or three.  Where such a
literal ends is found by going over its characters: a character behind a backslash is passed over, and
the literal ends when as many marks have come in a row as it started with (`behind?`).  What it denotes
is read off the characters between the marks (`codes?`).

A text may be written into a literal as it is.  With one mark at each end the result denotes the text
exactly if the text has no mark and no line end and each of its backslashes stands before a character
that starts no escape (`denoted?_eq_iff`).  With three marks it ends where it is closed exactly if the
text has no three marks in a row of which the first is not escaped (`keepsOpen_iff`).
-/

namespace SdkBindings.Module

open Constant (octalValue? digitsNumber)
open Text (hexValue? isHexDigit)

/-! ## Where a literal ends -/

/-- What is known in the middle of a literal. -/
inductive Reading where
  /-- The next character stands behind a backslash. -/
  | escaped
  /-- Some number of marks have just come in a row. -/
  | marks (n : Nat)
  deriving DecidableEq, Repr

/-- What is known one character later. -/
def Reading.next : Reading → Char → Reading
  | .escaped, _ => .marks 0
  | .marks n, c => if c = '"' then .marks (n + 1) else if c = '\\' then .escaped else .marks 0

/-- Whether a character cannot stand in a literal with some number of marks.  No module has a null
character, and a literal with one mark at each end has to stand on one line. -/
def isBarred (size : Nat) (c : Char) : Bool :=
  c = '\x00' || size = 1 && (c = '\n' || c = '\r')

/-- What is left of a text behind a literal that ends with some number of marks. -/
def behind? (size : Nat) : Reading → List Char → Option (List Char)
  | _, [] => none
  | r, c :: rest =>
    if isBarred size c then none
    else if r.next c = .marks size then some rest
    else behind? size (r.next c) rest

/-- What stands between the marks of a literal, and what is left behind it; the text starts inside. -/
def cut (size : Nat) (inside : List Char) : Option (List Char × List Char) :=
  (behind? size (.marks 0) inside).map fun rest =>
    (inside.take (inside.length - rest.length - size), rest)

/-- The literal at the start of a text: what stands between its marks, and what is left behind it. -/
def literal? : List Char → Option (List Char × List Char)
  | '"' :: '"' :: '"' :: inside => cut 3 inside
  | '"' :: inside => cut 1 inside
  | _ => none

/-! ## What a literal denotes -/

/-- The letters behind a backslash, with the code points that they stand for. -/
def letterCodes : List (Char × Nat) :=
  [('\\', 0x5C), ('\'', 0x27), ('"', 0x22), ('a', 0x07), ('b', 0x08), ('f', 0x0C), ('n', 0x0A),
    ('r', 0x0D), ('t', 0x09), ('v', 0x0B)]

/-- The letters before a code point in hexadecimal digits, with the number of digits. -/
def hexWidths : List (Char × Nat) :=
  [('x', 2), ('u', 4), ('U', 8)]

/-- Whether a character behind a backslash starts an escape. -/
def startsEscape (c : Char) : Bool :=
  c = '\n' || c = 'N' || (octalValue? c).isSome || (letterCodes.lookup c).isSome ||
    (hexWidths.lookup c).isSome

/-- The code point in hexadecimal digits behind a letter. -/
def hexEscape? (width : Nat) (rest : List Char) : Option Nat :=
  let digits := rest.take width
  let n := digitsNumber 16 hexValue? digits
  if digits.length = width ∧ digits.all isHexDigit ∧ n < 0x110000 then some n else none

section

variable (named : List Char → Option Nat)

/-- The code point with a name in braces, and the number of characters that are read. -/
def namedEscape? : List Char → Option (Nat × Nat)
  | '\x7b' :: rest =>
    let name := rest.takeWhile (· ≠ '\x7d')
    if name = [] ∨ name.length = rest.length then none
    else (named name).map fun n => (n, name.length + 2)
  | _ => none

/-- The code points for what follows a backslash, and the number of characters that are read there.
A line end stands for nothing, one to three octal digits for a number, and a character that starts no
escape leaves the backslash as it is. -/
def escape? : List Char → Option (List Nat × Nat)
  | [] => none
  | c :: rest =>
    if c = '\n' then some ([], 1)
    else if c = 'N' then (namedEscape? named rest).map fun (n, length) => ([n], 1 + length)
    else if (octalValue? c).isSome then
      let digits := c :: (rest.take 2).takeWhile fun d => (octalValue? d).isSome
      some ([digitsNumber 8 octalValue? digits], digits.length)
    else
      match letterCodes.lookup c, hexWidths.lookup c with
      | some n, _ => some ([n], 1)
      | none, some width => (hexEscape? width rest).map fun n => ([n], 1 + width)
      | none, none => some ([0x5C, c.toNat], 1)

/-- The code points for the characters between the marks, of which some number are already read. -/
def codes? : Nat → List Char → Option (List Nat)
  | _, [] => some []
  | skip + 1, _ :: rest => codes? skip rest
  | 0, c :: rest =>
    if c = '\\' then
      (escape? named rest).bind fun (ns, length) => (codes? length rest).map (ns ++ ·)
    else (codes? 0 rest).map (c.toNat :: ·)

/-- The code points that the literal at the start of a text denotes, and what is left behind it. -/
def denoted? (text : List Char) : Option (List Nat × List Char) :=
  (literal? text).bind fun (body, rest) => (codes? named 0 body).map (·, rest)

end

/-! ## Texts that are written as they are -/

/-- The characters that end a literal on one line too early. -/
def unquotable : List Char := ['"', '\n', '\r', '\x00']

/-- A text on one line that has no mark and in which no backslash starts an escape; a mark follows. -/
def IsVerbatim (text : List Char) : Prop :=
  (∀ c ∈ text, c ∉ unquotable) ∧
    ∀ c, ['\\', c] <:+: text ++ ['"'] → startsEscape c = false

/-- A text in which three marks in a row stand only where the first of them is escaped: an odd number of
backslashes comes before it. -/
def KeepsOpen (text : List Char) : Prop :=
  '\x00' ∉ text ∧ ∀ front back, text = front ++ ['"', '"', '"'] ++ back →
    Odd (front.rtakeWhile (· = '\\')).length

/-! ## Reading on -/

/-- A literal that is read does not end within a text. -/
def StaysOpen (size : Nat) : Reading → List Char → Prop
  | _, [] => True
  | r, c :: rest =>
    isBarred size c = false ∧ r.next c ≠ .marks size ∧ StaysOpen size (r.next c) rest

instance decidableStaysOpen (size : Nat) : ∀ r text, Decidable (StaysOpen size r text)
  | _, [] => .isTrue trivial
  | r, c :: rest =>
    have := decidableStaysOpen size (r.next c) rest
    inferInstanceAs (Decidable (_ ∧ _ ∧ _))

/-- What is known after a text. -/
def Reading.after (r : Reading) (text : List Char) : Reading :=
  text.foldl Reading.next r

section

variable {size : Nat} {r : Reading} {text more rest : List Char}

theorem staysOpen_append : StaysOpen size r (text ++ more) ↔
    StaysOpen size r text ∧ StaysOpen size (r.after text) more := by
  induction text generalizing r with
  | nil => simp [StaysOpen, Reading.after]
  | cons c text ih => simp [StaysOpen, Reading.after, ih, and_assoc]

theorem behind?_append (h : StaysOpen size r text) :
    behind? size r (text ++ more) = behind? size (r.after text) more := by
  induction text generalizing r with
  | nil => rfl
  | cons c text ih =>
    obtain ⟨hbarred, hopen, hrest⟩ := h
    simp only [List.cons_append, behind?, hbarred, Bool.false_eq_true, if_false, if_neg hopen]
    exact ih hrest

/-- A literal that ends further behind goes on after its first character. -/
theorem behind?_cons_iff {c : Char} (hlength : rest.length < text.length) :
    behind? size r (c :: text) = some rest ↔
      isBarred size c = false ∧ r.next c ≠ .marks size ∧ behind? size (r.next c) text = some rest := by
  rw [behind?]
  split_ifs with hbarred hcloses
  · simp [hbarred]
  · have hne : text ≠ rest := by
      rintro rfl
      exact lt_irrefl _ hlength
    simp [hcloses, hne]
  · simp [hbarred, hcloses]

/-- A literal that ends behind a text stays open in it. -/
theorem staysOpen_of_behind? (h : behind? size r (text ++ more) = some rest)
    (hlength : rest.length < more.length) : StaysOpen size r text := by
  induction text generalizing r with
  | nil => trivial
  | cons c text ih =>
    have hlong : rest.length < (text ++ more).length := by
      rw [List.length_append]
      omega
    obtain ⟨hbarred, hopen, hrest⟩ := (behind?_cons_iff hlong).mp h
    exact ⟨hbarred, hopen, ih hrest⟩

end

/-! ## Three marks in a row -/

/-- A character that is no mark and no backslash leaves nothing to remember. -/
theorem Reading.next_plain (r : Reading) {c : Char} (hmark : c ≠ '"') (hback : c ≠ '\\') :
    r.next c = .marks 0 := by
  cases r <;> simp [next, hmark, hback]

/-- Only a backslash escapes what comes next. -/
theorem Reading.next_ne_escaped (r : Reading) {c : Char} (hback : c ≠ '\\') : r.next c ≠ .escaped := by
  cases r with
  | escaped => simp [next]
  | marks n => by_cases hmark : c = '"' <;> simp [next, hmark, hback]

@[simp]
theorem Reading.after_nil (r : Reading) : r.after [] = r := rfl

theorem Reading.after_append (r : Reading) (text more : List Char) :
    r.after (text ++ more) = (r.after text).after more :=
  List.foldl_append ..

theorem Reading.after_concat (r : Reading) (text : List Char) (c : Char) :
    r.after (text ++ [c]) = (r.after text).next c :=
  r.after_append text [c]

/-- The next character is escaped behind an odd number of backslashes. -/
theorem after_eq_escaped_iff (text : List Char) :
    (Reading.marks 0).after text = .escaped ↔ Odd (text.rtakeWhile (· = '\\')).length := by
  induction text using List.reverseRecOn with
  | nil => simp
  | append_singleton text c ih =>
    rw [Reading.after_concat, List.rtakeWhile_concat]
    by_cases hc : c = '\\'
    · have hodd : Odd ((text.rtakeWhile (· = '\\')).length + 1) ↔
          ¬ (Reading.marks 0).after text = .escaped := by
        rw [ih, Nat.odd_add_one]
      subst hc
      cases h : (Reading.marks 0).after text <;> simp [hodd, h, Reading.next]
    · simp [hc, Reading.next_ne_escaped]

/-- Marks that have come in a row stand at the end, the first of them not escaped. -/
theorem exists_of_after_eq_marks {text : List Char} {n : Nat}
    (h : (Reading.marks 0).after text = .marks n) :
    ∃ front, text = front ++ List.replicate n '"' ∧ (Reading.marks 0).after front = .marks 0 := by
  induction n generalizing text with
  | zero => exact ⟨text, by simp, h⟩
  | succ n ih =>
    rcases List.eq_nil_or_concat text with rfl | ⟨before, c, rfl⟩
    · cases h
    rw [List.concat_eq_append, Reading.after_concat] at h
    have hc : c = '"' ∧ (Reading.marks 0).after before = .marks n := by
      cases hbefore : (Reading.marks 0).after before with
      | escaped => simp [hbefore, Reading.next] at h
      | marks m =>
        by_cases hmark : c = '"'
        · simpa [hbefore, Reading.next, hmark] using h
        · by_cases hback : c = '\\' <;> simp [hbefore, Reading.next, hmark, hback] at h
    obtain ⟨rfl, hbefore⟩ := hc
    obtain ⟨front, rfl, hfront⟩ := ih hbefore
    refine ⟨front, ?_, hfront⟩
    rw [List.concat_eq_append, List.append_assoc, List.replicate_succ']

/-- A literal stays open in a text if no part at the start of it ends with all marks. -/
theorem staysOpen_iff {size : Nat} {r : Reading} {text : List Char} : StaysOpen size r text ↔
    (∀ c ∈ text, isBarred size c = false) ∧
      ∀ front c back, text = front ++ c :: back → r.after (front ++ [c]) ≠ .marks size := by
  induction text generalizing r with
  | nil => simp [StaysOpen]
  | cons c text ih =>
    rw [StaysOpen, ih]
    constructor
    · rintro ⟨hbarred, hopen, hrest, hfronts⟩
      refine ⟨List.forall_mem_cons.mpr ⟨hbarred, hrest⟩, ?_⟩
      rintro front d back heq
      cases front with
      | nil =>
        obtain ⟨rfl, -⟩ := List.cons.inj heq
        exact hopen
      | cons e front =>
        obtain ⟨rfl, hback⟩ := List.cons.inj heq
        exact hfronts front d back hback
    · rintro ⟨hbarred, hfronts⟩
      rw [List.forall_mem_cons] at hbarred
      refine ⟨hbarred.1, hfronts [] c text rfl, hbarred.2, ?_⟩
      rintro front d back rfl
      exact hfronts (c :: front) d back rfl

/-- A literal with three marks stays open in a text exactly if each three marks in a row begin with an
escaped one. -/
theorem keepsOpen_iff (text : List Char) : KeepsOpen text ↔ StaysOpen 3 (.marks 0) text := by
  rw [staysOpen_iff, KeepsOpen]
  have hnull : (∀ c ∈ text, isBarred 3 c = false) ↔ '\x00' ∉ text := by
    simpa [isBarred] using List.forall_mem_ne'
  rw [hnull]
  refine and_congr_right fun _ => ?_
  constructor
  · rintro h front c back rfl hmarks
    obtain ⟨before, hbefore, hopen⟩ := exists_of_after_eq_marks hmarks
    have hodd := h before back (by rw [← List.singleton_append, ← List.append_assoc, hbefore]; rfl)
    rw [← after_eq_escaped_iff, hopen] at hodd
    cases hodd
  · rintro h front back rfl
    rw [← after_eq_escaped_iff]
    cases hfront : (Reading.marks 0).after front with
    | escaped => rfl
    | marks n =>
      -- the marks at the end of the front and the first of the three close the literal
      obtain ⟨before, rfl, hbefore⟩ := exists_of_after_eq_marks hfront
      have hmarks : List.replicate n '"' ++ ['"', '"', '"'] =
          ['"', '"', '"'] ++ List.replicate n '"' := by
        change List.replicate n '"' ++ List.replicate 3 '"' = List.replicate 3 '"' ++ _
        rw [List.replicate_append_replicate, List.replicate_append_replicate, Nat.add_comm]
      have hcloses : (Reading.marks 0).after (before ++ ['"', '"'] ++ ['"']) = .marks 3 := by
        rw [List.append_assoc, Reading.after_append, hbefore]
        rfl
      refine absurd hcloses (h (before ++ ['"', '"']) '"' (List.replicate n '"' ++ back) ?_)
      rw [List.append_assoc before, hmarks]
      simp

instance (text : List Char) : Decidable (KeepsOpen text) :=
  decidable_of_iff _ (keepsOpen_iff text).symm

/-! ## Words between texts -/

/-- A character that means nothing of its own in a literal with three marks. -/
def isPlain (c : Char) : Bool :=
  c ∉ ['"', '\\', '\x00']

section

variable {r : Reading} {c : Char} {text more : List Char}

theorem isPlain_iff : isPlain c = true ↔ isBarred 3 c = false ∧ c ≠ '"' ∧ c ≠ '\\' := by
  simp [isPlain, isBarred, and_comm, and_left_comm]

theorem Reading.after_concat_of_isPlain (h : isPlain c = true) : r.after (text ++ [c]) = .marks 0 := by
  obtain ⟨-, hmark, hback⟩ := isPlain_iff.mp h
  rw [after_concat, next_plain _ hmark hback]

theorem staysOpen_of_isPlain (h : text.all isPlain = true) : StaysOpen 3 r text := by
  rw [List.all_eq_true] at h
  refine staysOpen_iff.mpr ⟨fun c hc => (isPlain_iff.mp (h c hc)).1, ?_⟩
  rintro front c back rfl
  rw [Reading.after_concat_of_isPlain (h c (by simp))]
  simp

/-- Words without a meaning of their own change nothing about what follows them. -/
theorem staysOpen_plain_append (hne : text ≠ []) (h : text.all isPlain = true) :
    StaysOpen 3 r (text ++ more) ↔ StaysOpen 3 (.marks 0) more := by
  rw [staysOpen_append, and_iff_right (staysOpen_of_isPlain h)]
  rcases List.eq_nil_or_concat text with rfl | ⟨front, c, rfl⟩
  · exact absurd rfl hne
  · rw [List.concat_eq_append, List.all_append, Bool.and_eq_true] at h
    rw [List.concat_eq_append, Reading.after_concat_of_isPlain (by simpa using h.2)]

/-- Texts with commas between them are read one by one. -/
theorem staysOpen_intercalate (texts : List (List Char)) :
    StaysOpen 3 (.marks 0) ([',', ' '].intercalate texts) ↔
      ∀ text ∈ texts, StaysOpen 3 (.marks 0) text := by
  induction texts with
  | nil => simp [StaysOpen]
  | cons text texts ih =>
    cases texts with
    | nil => simp
    | cons text' texts =>
      rw [List.intercalate_cons_cons, List.append_assoc, staysOpen_append,
        staysOpen_plain_append (by simp) (by decide), ih, ← List.forall_mem_cons]

end

/-! ## Reading escapes -/

section

variable {named : List Char → Option Nat} {c : Char} {text rest : List Char} {ns : List Nat}
  {length : Nat}

/-- A backslash and a mark start escapes. -/
theorem ne_of_not_startsEscape (h : startsEscape c = false) : c ≠ '\\' ∧ c ≠ '"' := by
  constructor <;> rintro rfl <;> cases h

/-- A character that starts no escape leaves the backslash as it is. -/
theorem escape?_of_not_startsEscape (h : startsEscape c = false) :
    escape? named (c :: rest) = some ([0x5C, c.toNat], 1) := by
  simp only [startsEscape, Bool.or_eq_false_iff, decide_eq_false_iff_not, Option.isSome_eq_false_iff,
    Option.isNone_iff_eq_none] at h
  obtain ⟨⟨⟨⟨hline, hname⟩, hoctal⟩, hletter⟩, hwidth⟩ := h
  simp [escape?, hline, hname, hletter, hwidth, hoctal]

/-- What is read behind a backslash is an escape, which stands for at most one code point, or a character
that starts none. -/
theorem escape?_cases (h : escape? named (c :: rest) = some (ns, length)) :
    1 ≤ length ∧ (ns.length ≤ 1 ∨ startsEscape c = false ∧ ns.length = 2) := by
  rw [escape?] at h
  split_ifs at h with hline hname hoctal
  · cases h
    simp
  · obtain ⟨⟨n, taken⟩, -, heq⟩ := Option.map_eq_some_iff.mp h
    cases heq
    simp
  · cases h
    simp
  split at h
  · cases h
    simp
  · obtain ⟨n, -, heq⟩ := Option.map_eq_some_iff.mp h
    cases heq
    simp
  · rename_i hletter hwidth
    cases h
    simp [startsEscape, hline, hname, hletter, hwidth, hoctal]

/-- A literal denotes no more code points than it has characters. -/
theorem length_le_of_codes? {skip : Nat} (h : codes? named skip text = some ns) :
    ns.length ≤ text.length - skip := by
  induction text generalizing skip ns with
  | nil =>
    cases h
    simp
  | cons c text ih =>
    cases skip with
    | succ skip =>
      have hrest := ih h
      simpa using hrest
    | zero =>
      rw [codes?] at h
      split_ifs at h with hback
      · obtain ⟨⟨first, length⟩, hescape, hmap⟩ := Option.bind_eq_some_iff.mp h
        obtain ⟨more, hmore, rfl⟩ := Option.map_eq_some_iff.mp hmap
        have hrest := ih hmore
        cases text with
        | nil => cases hescape
        | cons d text =>
          have hcases := escape?_cases hescape
          simp only [List.length_append, List.length_cons] at hrest ⊢
          omega
      · obtain ⟨more, hmore, rfl⟩ := Option.map_eq_some_iff.mp h
        have hrest := ih hmore
        simpa using hrest

/-- An escape makes a literal denote fewer code points than it has characters. -/
theorem codes?_ne_of_startsEscape (h : startsEscape c = true) :
    codes? named 0 ('\\' :: c :: rest) ≠ some (('\\' :: c :: rest).map Char.toNat) := by
  intro hcodes
  rw [codes?, if_pos rfl] at hcodes
  obtain ⟨⟨first, length⟩, hescape, hmap⟩ := Option.bind_eq_some_iff.mp hcodes
  obtain ⟨more, hmore, heq⟩ := Option.map_eq_some_iff.mp hmap
  have hlength := congrArg List.length heq
  have hrest := length_le_of_codes? hmore
  have hcases := escape?_cases hescape
  rw [h] at hcases
  simp only [List.length_append, List.length_map, List.length_cons, Bool.true_eq_false, false_and,
    or_false] at hlength hrest hcases
  omega

end

/-! ## Verbatim texts -/

section

variable {named : List Char → Option Nat} {c d : Char} {text rest : List Char}

theorem isVerbatim_nil : IsVerbatim [] := by
  refine ⟨by simp, fun c h => ?_⟩
  have hlength := h.length_le
  simp at hlength

/-- A text is verbatim if its first character may stand in it, starts no escape with the next one and the
others are verbatim. -/
theorem isVerbatim_cons : IsVerbatim (c :: text) ↔ c ∉ unquotable ∧
    (c = '\\' → ∀ d, (text ++ ['"']).head? = some d → startsEscape d = false) ∧ IsVerbatim text := by
  have hinfix (d : Char) : ['\\', d] <:+: c :: text ++ ['"'] ↔
      (c = '\\' ∧ (text ++ ['"']).head? = some d) ∨ ['\\', d] <:+: text ++ ['"'] := by
    rw [List.cons_append, List.infix_cons_iff, List.cons_prefix_cons]
    cases text ++ ['"'] with
    | nil => simp
    | cons e tail => simp [List.cons_prefix_cons, eq_comm]
  simp only [IsVerbatim, hinfix, List.forall_mem_cons]
  constructor
  · rintro ⟨⟨hc, htext⟩, hescapes⟩
    exact ⟨hc, fun hback d hd => hescapes d (.inl ⟨hback, hd⟩), htext,
      fun d hd => hescapes d (.inr hd)⟩
  · rintro ⟨hc, hfirst, htext, hescapes⟩
    refine ⟨⟨hc, htext⟩, ?_⟩
    rintro d (⟨hback, hd⟩ | hd)
    · exact hfirst hback d hd
    · exact hescapes d hd

theorem isVerbatim_cons_of_ne (hback : c ≠ '\\') :
    IsVerbatim (c :: text) ↔ c ∉ unquotable ∧ IsVerbatim text := by
  rw [isVerbatim_cons, and_iff_right fun h => absurd h hback]

theorem isVerbatim_backslash : IsVerbatim ('\\' :: c :: text) ↔
    c ∉ unquotable ∧ startsEscape c = false ∧ IsVerbatim text := by
  have hstands : '\\' ∉ unquotable := by decide
  have hfirst : ('\\' = '\\' → ∀ d, (c :: text ++ ['"']).head? = some d → startsEscape d = false) ↔
      startsEscape c = false := by
    simp
  rw [isVerbatim_cons, and_iff_right hstands, hfirst, and_left_comm]
  exact and_congr_right fun hescape => isVerbatim_cons_of_ne (ne_of_not_startsEscape hescape).1

/-- The mark that should end the literal would be escaped. -/
theorem not_isVerbatim_backslash : ¬ IsVerbatim ['\\'] := by
  rw [isVerbatim_cons]
  rintro ⟨-, hfirst, -⟩
  exact absurd (hfirst rfl '"' rfl) (by decide)

/-- The text is read as it is in a literal that ends with one mark behind it. -/
def IsReadVerbatim (named : List Char → Option Nat) (text rest : List Char) : Prop :=
  behind? 1 (.marks 0) (text ++ '"' :: rest) = some rest ∧
    codes? named 0 text = some (text.map Char.toNat)

/-- Nothing is read for itself that is a mark or barred. -/
theorem not_mem_unquotable_iff : c ∉ unquotable ↔ isBarred 1 c = false ∧ c ≠ '"' := by
  simp [unquotable, isBarred, and_comm, and_assoc, and_left_comm]

/-- A character that is no backslash is read for itself if it may stand in a literal. -/
theorem isReadVerbatim_cons (hback : c ≠ '\\') : IsReadVerbatim named (c :: text) rest ↔
    c ∉ unquotable ∧ IsReadVerbatim named text rest := by
  have hcodes : codes? named 0 (c :: text) = some ((c :: text).map Char.toNat) ↔
      codes? named 0 text = some (text.map Char.toNat) := by
    rw [codes?, if_neg hback]
    cases codes? named 0 text <;> simp
  have hlong : rest.length < (text ++ '"' :: rest).length := by
    simp only [List.length_append, List.length_cons]
    omega
  rw [IsReadVerbatim, IsReadVerbatim, hcodes, ← and_assoc, List.cons_append, behind?_cons_iff hlong,
    not_mem_unquotable_iff]
  refine and_congr_left fun _ => ?_
  by_cases hmark : c = '"'
  · simp [hmark, Reading.next]
  · simp [hmark, hback, Reading.next]

/-- A backslash is read for itself before a character that starts no escape. -/
theorem isReadVerbatim_backslash : IsReadVerbatim named ('\\' :: c :: text) rest ↔
    c ∉ unquotable ∧ startsEscape c = false ∧ IsReadVerbatim named text rest := by
  cases hescape : startsEscape c with
  | true =>
    have hne : ¬ IsReadVerbatim named ('\\' :: c :: text) rest := fun h =>
      codes?_ne_of_startsEscape hescape h.2
    simp [hne]
  | false =>
    have hmark := (ne_of_not_startsEscape hescape).2
    have hcodes : codes? named 0 ('\\' :: c :: text) = some (('\\' :: c :: text).map Char.toNat) ↔
        codes? named 0 text = some (text.map Char.toNat) := by
      rw [codes?, if_pos rfl, escape?_of_not_startsEscape hescape]
      simp [codes?]
    have hlong : rest.length < (text ++ '"' :: rest).length := by
      simp only [List.length_append, List.length_cons]
      omega
    have hlonger : rest.length < (c :: (text ++ '"' :: rest)).length :=
      hlong.trans (Nat.lt_succ_self _)
    have hbarred : isBarred 1 '\\' = false := rfl
    rw [IsReadVerbatim, IsReadVerbatim, hcodes, ← and_assoc, List.cons_append, List.cons_append,
      behind?_cons_iff hlonger, behind?_cons_iff hlong, not_mem_unquotable_iff]
    simp [Reading.next, hbarred, hmark, and_assoc]

theorem isReadVerbatim_nil : IsReadVerbatim named [] rest := ⟨rfl, rfl⟩

/-- Nothing is denoted by a backslash at the end. -/
theorem not_isReadVerbatim_backslash : ¬ IsReadVerbatim named ['\\'] rest := by
  rintro ⟨-, hcodes⟩
  cases hcodes

/-- A text is read as it is exactly if it is verbatim. -/
theorem isReadVerbatim_iff : IsReadVerbatim named text rest ↔ IsVerbatim text := by
  induction text using List.twoStepInduction with
  | nil => simp only [isReadVerbatim_nil, isVerbatim_nil]
  | singleton c =>
    by_cases hback : c = '\\'
    · subst hback
      simp only [not_isReadVerbatim_backslash, not_isVerbatim_backslash]
    · rw [isReadVerbatim_cons hback, isVerbatim_cons_of_ne hback]
      simp only [isReadVerbatim_nil, isVerbatim_nil]
  | cons_cons c d text ih ih' =>
    by_cases hback : c = '\\'
    · subst hback
      rw [isReadVerbatim_backslash, isVerbatim_backslash, ih]
    · rw [isReadVerbatim_cons hback, isVerbatim_cons_of_ne hback, ih' d]

instance : Decidable (IsReadVerbatim named text rest) :=
  inferInstanceAs (Decidable (_ ∧ _))

/-- Names of characters have no part in whether a text is verbatim. -/
instance (text : List Char) : Decidable (IsVerbatim text) :=
  decidable_of_iff (IsReadVerbatim (fun _ => none) text []) isReadVerbatim_iff

end

example : IsVerbatim "C:\\Windows\\d3d11.dll".toList ∧ ¬ IsVerbatim "C:\\new.dll".toList := by
  decide

/-! ## Texts between marks -/

section

variable {inside text body rest : List Char}

/-- What is cut out lies before the closing marks. -/
theorem of_cut {size : Nat} (h : cut size inside = some (body, rest)) :
    behind? size (.marks 0) inside = some rest ∧
      body = inside.take (inside.length - rest.length - size) := by
  obtain ⟨behind, hbehind, heq⟩ := Option.map_eq_some_iff.mp h
  obtain ⟨rfl, rfl⟩ := Prod.mk.inj heq
  exact ⟨hbehind, rfl⟩

/-- A text is cut out exactly if the literal ends behind the marks that follow it. -/
theorem cut_eq_some_iff (marks : List Char) :
    cut marks.length (text ++ marks ++ rest) = some (body, rest) ↔
      behind? marks.length (.marks 0) (text ++ marks ++ rest) = some rest ∧ body = text := by
  have hlength : (text ++ marks ++ rest).length - rest.length - marks.length = text.length := by
    simp only [List.length_append]
    omega
  have htake : (text ++ marks ++ rest).take ((text ++ marks ++ rest).length - rest.length -
      marks.length) = text := by
    rw [hlength, List.append_assoc, List.take_left]
  constructor
  · intro h
    obtain ⟨hbehind, hbody⟩ := of_cut h
    exact ⟨hbehind, hbody.trans htake⟩
  · rintro ⟨hbehind, rfl⟩
    rw [cut, hbehind, Option.map_some, htake]

/-- **Three marks.**  A text between three marks at each end is read to the closing ones exactly if they
are not reached before. -/
theorem literal?_three_iff (h : (Reading.marks 0).after text = .marks 0) :
    literal? ('"' :: '"' :: '"' :: (text ++ ['"', '"', '"'] ++ rest)) = some (text, rest) ↔
      StaysOpen 3 (.marks 0) text := by
  have hcut : literal? ('"' :: '"' :: '"' :: (text ++ ['"', '"', '"'] ++ rest)) = some (text, rest) ↔
      behind? 3 (.marks 0) (text ++ ['"', '"', '"'] ++ rest) = some rest ∧ text = text :=
    cut_eq_some_iff ['"', '"', '"']
  rw [hcut, and_iff_left rfl, List.append_assoc]
  constructor
  · intro hbehind
    refine staysOpen_of_behind? hbehind ?_
    simp only [List.length_append, List.length_cons]
    omega
  · intro hopen
    rw [behind?_append hopen, h]
    rfl

/-- A text is read between marks on a line exactly if the literal ends behind them, unless there are two
more marks. -/
theorem literal?_one_iff {after : List Char} (h : ¬ ['"', '"'] <+: text ++ '"' :: '\n' :: after) :
    literal? ('"' :: (text ++ '"' :: '\n' :: after)) = some (body, '\n' :: after) ↔
      behind? 1 (.marks 0) (text ++ '"' :: '\n' :: after) = some ('\n' :: after) ∧ body = text := by
  have hcut : cut 1 (text ++ ['"'] ++ '\n' :: after) = some (body, '\n' :: after) ↔
      behind? 1 (.marks 0) (text ++ ['"'] ++ '\n' :: after) = some ('\n' :: after) ∧ body = text :=
    cut_eq_some_iff ['"']
  rw [List.append_assoc, List.singleton_append] at hcut
  rw [← hcut, literal?]
  rintro inside heq
  exact h ⟨inside, heq.symm⟩

/-- Three marks leave no room for a text as long as the one that is given. -/
theorem not_prefix_of_literal? {after : List Char} (hlength : text.length ≤ body.length)
    (h : literal? ('"' :: (text ++ '"' :: '\n' :: after)) = some (body, '\n' :: after)) :
    ¬ ['"', '"'] <+: text ++ '"' :: '\n' :: after := by
  rintro ⟨inside, hinside⟩
  rw [← hinside] at h
  have hcut : cut 3 inside = some (body, '\n' :: after) := h
  obtain ⟨-, hbody⟩ := of_cut hcut
  have htaken := congrArg List.length hbody
  have htotal := congrArg List.length hinside
  simp only [List.length_append, List.length_cons, List.length_nil, List.length_take] at htotal htaken
  have htext : text = [] := List.length_eq_zero_iff.mp (by omega)
  subst htext
  cases hinside

/-- **One mark.**  A text between marks on a line denotes itself exactly if it is verbatim. -/
theorem denoted?_eq_iff (named : List Char → Option Nat) (text after : List Char) :
    denoted? named ('"' :: (text ++ '"' :: '\n' :: after)) =
      some (text.map Char.toNat, '\n' :: after) ↔ IsVerbatim text := by
  constructor
  · intro h
    obtain ⟨⟨body, rest⟩, hliteral, hmap⟩ := Option.bind_eq_some_iff.mp h
    obtain ⟨ns, hcodes, heq⟩ := Option.map_eq_some_iff.mp hmap
    obtain ⟨rfl, rfl⟩ := Prod.mk.inj heq
    have hlength := length_le_of_codes? hcodes
    rw [List.length_map, Nat.sub_zero] at hlength
    have hone := not_prefix_of_literal? hlength hliteral
    obtain ⟨hbehind, rfl⟩ := (literal?_one_iff hone).mp hliteral
    exact isReadVerbatim_iff.mp ⟨hbehind, hcodes⟩
  · intro h
    have hone : ¬ ['"', '"'] <+: text ++ '"' :: '\n' :: after := by
      cases text with
      | nil => simp
      | cons c text =>
        have hc := (isVerbatim_cons.mp h).1
        rintro ⟨more, hmore⟩
        obtain ⟨rfl, -⟩ := List.cons.inj hmore
        exact hc (by decide)
    obtain ⟨hbehind, hcodes⟩ : IsReadVerbatim named text ('\n' :: after) := isReadVerbatim_iff.mpr h
    rw [denoted?, (literal?_one_iff hone).mpr ⟨hbehind, rfl⟩, Option.bind_some]
    dsimp only
    rw [hcodes, Option.map_some]

end

end SdkBindings.Module
