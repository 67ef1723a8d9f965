import SdkBindings.Numeral.Integer

/-!
# Digits are numerals

The tolerant reader of integers accepts every non-empty run of decimal digits, of whatever script,
and gives it its positional value (`readInteger?_digits`).  Each digit is first replaced by its ASCII
counterpart, which has the same value; none of them is a blank, a sign or an underscore, so nothing
else of the reader comes into play.
-/

namespace SdkBindings.Numeral

open Text

/-! ## Single digits -/

/-- The number that decimal digits denote, continuing a number read so far. -/
def digitsNumber (n : Nat) (digits : List Char) : Nat :=
  digits.foldl (fun n c => 10 * n + (digitValue? c).getD 0) n

/-- A character with a value is a decimal digit. -/
theorem isDecimalDigit_of_digitValue? {c : Char} {d : Nat} (h : digitValue? c = some d) :
    isDecimalDigit c = true := by
  rw [isDecimalDigit, h]
  rfl

/-- White space is no digit. -/
theorem isBlank_eq_false {c : Char} (h : isDecimalDigit c = true) : isBlank c = false := by
  have hall : ∀ n ∈ blankPoints, (digitZeros.find? fun z => z ≤ n && n < z + 10) = none := by
    decide +kernel
  cases hb : isBlank c with
  | false => rfl
  | true =>
    rw [isBlank, List.contains_iff_mem] at hb
    rw [isDecimalDigit, digitValue?, hall c.toNat hb] at h
    cases h

/-- The only decimal digits of ASCII are the ten from zero to nine. -/
theorem digitValue?_ascii {c : Char} {d : Nat} (h : digitValue? c = some d) (hc : c.toNat < 128) :
    c.toNat = 48 + d := by
  have hall : ∀ n < 128, ∀ z ∈ digitZeros.find? (fun z => z ≤ n && n < z + 10), z = 48 := by
    decide +kernel
  rw [digitValue?, Option.map_eq_some_iff] at h
  obtain ⟨z, hz, rfl⟩ := h
  have hle := List.find?_some hz
  simp only [Bool.and_eq_true, decide_eq_true_eq] at hle
  have := hall c.toNat hc z hz
  omega

/-- A decimal digit reads as the ASCII digit of its value. -/
theorem asciiImage?_digit {c : Char} {d : Nat} (h : digitValue? c = some d) :
    asciiImage? c = some (Char.ofNat (48 + d)) := by
  unfold asciiImage?
  by_cases hc : c.toNat < 128
  · rw [if_pos hc, ← digitValue?_ascii h hc, Char.ofNat_toNat]
  · rw [if_neg hc, isBlank_eq_false (isDecimalDigit_of_digitValue? h), if_neg Bool.false_ne_true, h]
    rfl

/-- The ASCII digit of a value is that digit in base ten and nothing else. -/
theorem asciiDigit {d : Nat} (h : d < 10) :
    hexValue? (Char.ofNat (48 + d)) = some d ∧ Char.ofNat (48 + d) ∉ ['_', '-', '+'] ∧
      isAsciiBlank (Char.ofNat (48 + d)) = false := by
  have hall : ∀ d < 10, hexValue? (Char.ofNat (48 + d)) = some d ∧
      Char.ofNat (48 + d) ∉ ['_', '-', '+'] ∧ isAsciiBlank (Char.ofNat (48 + d)) = false := by
    decide +kernel
  exact hall d h

/-! ## Runs of digits -/

/-- The ASCII counterpart of a decimal digit. -/
def asciiCounterpart (c : Char) : Char :=
  Char.ofNat (48 + (digitValue? c).getD 0)

section

variable {digits : List Char} (h : ∀ c ∈ digits, isDecimalDigit c = true)

include h

/-- Every digit of a run has a value below ten. -/
theorem exists_digitValue? {c : Char} (hc : c ∈ digits) : ∃ d, digitValue? c = some d ∧ d < 10 := by
  obtain ⟨d, hd⟩ := Option.isSome_iff_exists.mp (h c hc)
  exact ⟨d, hd, digitValue?_lt hd⟩

/-- Digits read as their ASCII counterparts. -/
theorem mapM_asciiImage?_digits : digits.mapM asciiImage? = some (digits.map asciiCounterpart) := by
  induction digits with
  | nil => rfl
  | cons c rest ih =>
    obtain ⟨d, hd, -⟩ := exists_digitValue? h List.mem_cons_self
    rw [List.mapM_cons, asciiImage?_digit hd, ih fun e he => h e (List.mem_cons_of_mem c he),
      List.map_cons, asciiCounterpart, hd]
    rfl

/-- The counterparts are digits in base ten of the same value, and nothing else. -/
theorem mem_map_asciiCounterpart {c : Char} (hc : c ∈ digits.map asciiCounterpart) :
    (∃ d, hexValue? c = some d ∧ d < 10) ∧ c ∉ ['_', '-', '+'] ∧ isAsciiBlank c = false := by
  rw [List.mem_map] at hc
  obtain ⟨e, he, rfl⟩ := hc
  obtain ⟨d, hd, hlt⟩ := exists_digitValue? h he
  obtain ⟨hvalue, hsign, hblank⟩ := asciiDigit hlt
  rw [asciiCounterpart, hd, Option.getD_some]
  exact ⟨⟨d, hvalue, hlt⟩, hsign, hblank⟩

/-- Digits add up to their positional value, and the last one may end the numeral. -/
theorem digitsValue?_digits (n : Nat) (afterDigit : Bool) (hne : afterDigit = true ∨ digits ≠ []) :
    digitsValue? 10 n afterDigit (digits.map asciiCounterpart) = some (digitsNumber n digits) := by
  induction digits generalizing n afterDigit with
  | nil =>
    rw [List.map_nil, digitsValue?, if_pos (hne.resolve_right fun hnil => hnil rfl)]
    rfl
  | cons c rest ih =>
    obtain ⟨d, hd, hlt⟩ := exists_digitValue? h List.mem_cons_self
    obtain ⟨hvalue, hsign, -⟩ := asciiDigit hlt
    have hunderscore : Char.ofNat (48 + d) ≠ '_' := fun heq => hsign (heq ▸ List.mem_cons_self)
    rw [List.map_cons, digitsValue?, asciiCounterpart, hd, Option.getD_some,
      if_neg hunderscore, hvalue]
    dsimp only
    rw [if_pos hlt, ih (fun e he => h e (List.mem_cons_of_mem c he)) _ true (.inl rfl),
      digitsNumber, digitsNumber, List.foldl_cons, hd, Option.getD_some]

end

/-- A text without characters of a class at its ends is stripped of nothing. -/
theorem strip_eq_self {p : Char → Bool} {text : List Char} (h : ∀ c ∈ text, p c = false) :
    strip p text = text := by
  have hkeep (s : List Char) (hs : ∀ c ∈ s, p c = false) : s.dropWhile p = s := by
    cases s with
    | nil => rfl
    | cons c rest => rw [List.dropWhile_cons, hs c List.mem_cons_self, if_neg Bool.false_ne_true]
  rw [strip, hkeep text h, hkeep text.reverse fun c hc => h c (List.mem_reverse.mp hc),
    List.reverse_reverse]

/-- A text that does not start with a sign has none. -/
theorem splitSign_eq_self {text : List Char} (h : ∀ c ∈ text, c ∉ ['_', '-', '+']) :
    splitSign text = (false, text) := by
  unfold splitSign
  split
  · exact absurd (by decide) (h _ List.mem_cons_self)
  · exact absurd (by decide) (h _ List.mem_cons_self)
  · rfl

/-- A non-empty run of decimal digits denotes the number it stands for. -/
theorem readInteger?_digits {digits : List Char} (hne : digits ≠ [])
    (h : ∀ c ∈ digits, isDecimalDigit c = true) :
    readInteger? 10 digits = some (digitsNumber 0 digits : Nat) := by
  have hbody : asciiBody? digits = some (digits.map asciiCounterpart) := by
    rw [asciiBody?, mapM_asciiImage?_digits h, Option.map_some,
      strip_eq_self fun c hc => (mem_map_asciiCounterpart h hc).2.2]
  have hsign : splitSign (digits.map asciiCounterpart) = (false, digits.map asciiCounterpart) :=
    splitSign_eq_self fun c hc => (mem_map_asciiCounterpart h hc).2.1
  rw [readInteger?, hbody]
  show (do
    let n ← digitsValue? 10 0 false (splitSign (digits.map asciiCounterpart)).2
    pure (if (splitSign (digits.map asciiCounterpart)).1 then -(n : Int) else n)) = _
  rw [hsign, digitsValue?_digits h 0 false (.inr hne)]
  rfl

end SdkBindings.Numeral
