import SdkBindings.Constant.Evaluation
import SdkBindings.Proofs.Numeral.Tolerance

/-!
# Which hexadecimal literals have a value

A hexadecimal literal is `0x` with one to eight hexadecimal digits and at most one `L` behind them
(`SpellsHexLiteral`).  The evaluator takes the prefix and the suffix away, counts the characters that
are left and hands them to the tolerant reader of integers.  The count limits the size of the value
(`natAbs_lt_of_hexLiteral`), but nothing looks at the characters themselves: they may be any numeral of
one to eight characters (`hexLiteral_eq_ok_iff`), so that a value may even be negative.
-/

namespace SdkBindings.Constant

open Text Numeral

/-! ## Literals -/

/-- The text has the prefix of a hexadecimal literal, the given characters and at most one suffix. -/
def HasHexDigits (text digits : List Char) : Prop :=
  ∃ x suffix, text = '0' :: x :: (digits ++ suffix) ∧ (x = 'x' ∨ x = 'X') ∧
    (suffix = [] ∨ suffix = ['L'])

/-- The text is a hexadecimal literal of at most eight digits for a number. -/
def SpellsHexLiteral (text : List Char) (n : Nat) : Prop :=
  ∃ digits, HasHexDigits text digits ∧ digits.length ≤ 8 ∧ WritesHex digits n

/-- The text has the form of a hexadecimal literal of at most eight digits, and what stands for the
digits is a numeral with a character that is no digit. -/
def IsLooseHexLiteral (text : List Char) : Prop :=
  ∃ digits n, HasHexDigits text digits ∧ digits.length ≤ 8 ∧ IsNumeral 16 digits n ∧
    ∃ x ∈ digits, isHexDigit x = false

/-- The width that a number of at most eight digits suggests. -/
theorem hexWidth?_eq_some_iff {size width : Nat} : hexWidth? size = some width ↔
    size ≠ 0 ∧ size ≤ 8 ∧ width = if size ≤ 2 then 8 else if size ≤ 4 then 16 else 32 := by
  rw [hexWidth?]
  split
  · simp_all
  · split_ifs <;> simp [eq_comm] <;> omega

/-- The prefix and one suffix are taken away. -/
theorem exists_hexLiteralDigits {text : List Char} (h : isHexLiteral text = true) :
    HasHexDigits text (hexLiteralDigits text) := by
  unfold isHexLiteral at h
  split at h
  · rename_i x rest
    simp only [Bool.or_eq_true, decide_eq_true_eq] at h
    simp only [hexLiteralDigits, List.drop_succ_cons, List.drop_zero]
    split
    · rename_i hlast
      obtain ⟨front, rfl⟩ := List.getLast?_eq_some_iff.mp hlast
      refine ⟨x, ['L'], ?_, h, .inr rfl⟩
      rw [List.dropLast_concat]
    · exact ⟨x, [], by rw [List.append_nil], h, .inl rfl⟩
  · cases h

/-- What is left are the digits, unless they end like a suffix. -/
theorem HasHexDigits.hexLiteralDigits {text digits : List Char} (h : HasHexDigits text digits)
    (hlast : 'L' ∉ digits) : isHexLiteral text = true ∧ hexLiteralDigits text = digits := by
  obtain ⟨x, suffix, rfl, hx, hsuffix⟩ := h
  refine ⟨by simp [isHexLiteral, hx], ?_⟩
  rw [Constant.hexLiteralDigits]
  obtain rfl | rfl := hsuffix
  · have hend : digits.getLast? ≠ some 'L' := fun heq => hlast (List.mem_of_getLast? heq)
    simp [hend]
  · simp

/-- No suffix is part of a numeral. -/
theorem not_mem_of_isNumeral {base : Nat} {digits : List Char} {n : Int}
    (h : IsNumeral base digits n) : 'L' ∉ digits := by
  have hnone : isNumeralPart 'L' = false := by decide +kernel
  intro hmem
  cases (h.isNumeralPart hmem).symm.trans hnone

/-- A numeral has characters. -/
theorem length_ne_zero_of_isNumeral {base : Nat} {digits : List Char} {n : Int}
    (h : IsNumeral base digits n) : digits.length ≠ 0 := by
  obtain ⟨image, himage, before, sign, mark, body, after, m, rfl, -, -, -, hbody⟩ := h
  obtain ⟨c, rest, rfl, -⟩ := hbody.exists_cons
  rw [himage.length_eq]
  simp

/-! ## Values -/

/-- The literals that have a value hold a numeral of one to eight characters. -/
theorem hexLiteral_eq_ok_iff {text : String} {n : Int} {width : Nat} :
    hexLiteral text = .ok (n, width) ↔ ∃ digits, HasHexDigits text.toList digits ∧ digits.length ≤ 8 ∧
      IsNumeral 16 digits n ∧
      width = if digits.length ≤ 2 then 8 else if digits.length ≤ 4 then 16 else 32 := by
  constructor
  · intro h
    rw [hexLiteral] at h
    split at h
    · rename_i hform
      dsimp only at h
      split at h
      · cases h
      · rename_i w hwidth
        split at h
        · rename_i m hm
          cases h
          obtain ⟨-, hsize, rfl⟩ := hexWidth?_eq_some_iff.mp hwidth
          exact ⟨_, exists_hexLiteralDigits hform, hsize, readInteger?_eq_some_iff.mp hm, rfl⟩
        · cases h
    · cases h
  · rintro ⟨digits, hdigits, hsize, hn, rfl⟩
    obtain ⟨hform, hrest⟩ := hdigits.hexLiteralDigits (not_mem_of_isNumeral hn)
    have hwidth := hexWidth?_eq_some_iff.mpr ⟨length_ne_zero_of_isNumeral hn, hsize, rfl⟩
    rw [hexLiteral, if_pos hform, hrest]
    dsimp only
    rw [hwidth, readInteger?_eq_some_iff.mpr hn]

/-- A value has at most 32 bits and a sign. -/
theorem natAbs_lt_of_hexLiteral {text : String} {n : Int} {width : Nat}
    (h : hexLiteral text = .ok (n, width)) : n.natAbs < 2 ^ 32 := by
  obtain ⟨digits, -, hsize, hn, -⟩ := hexLiteral_eq_ok_iff.mp h
  calc n.natAbs < 16 ^ digits.length := hn.natAbs_lt
    _ ≤ 16 ^ 8 := Nat.pow_le_pow_right (by decide) hsize
    _ = 2 ^ 32 := by decide

/-- Every failure is one of the expression, which stops the run. -/
theorem class_of_hexLiteral {text : String} {e : Error} (h : hexLiteral text = .error e) :
    e.class = .malformed := by
  rw [hexLiteral] at h
  split at h
  · dsimp only at h
    split at h
    · cases h
      rfl
    · split at h
      · cases h
      · cases h
        rfl
  · cases h
    rfl

/-- Digits are a numeral for the number that they write. -/
theorem WritesHex.isNumeral {digits : List Char} {n : Nat} (h : WritesHex digits n) :
    IsNumeral 16 digits n :=
  readInteger?_eq_some_iff.mp (readInteger?_hex h)

/-- **Hexadecimal literals.**  A literal has a value if and only if it has the form of a hexadecimal
literal and what stands for the digits is a numeral of one to eight characters; the size of the value
is limited by 32 bits, and the run stops at any other text.  In particular every literal of one to eight
digits has the value that they write.  No other text has a value if and only if the text is not
loose. -/
theorem hexLiteral_spec (text : String) :
    (∀ n width, hexLiteral text = .ok (n, width) ↔ ∃ digits, HasHexDigits text.toList digits ∧
      digits.length ≤ 8 ∧ IsNumeral 16 digits n ∧ n.natAbs < 2 ^ 32 ∧
      width = if digits.length ≤ 2 then 8 else if digits.length ≤ 4 then 16 else 32) ∧
    (∀ e, hexLiteral text = .error e → e.class = .malformed) ∧
    (∀ n, SpellsHexLiteral text.toList n →
      n < 2 ^ 32 ∧ ∃ width, hexLiteral text = .ok ((n : Int), width)) ∧
    (((∃ value, hexLiteral text = .ok value) ↔ ∃ n, SpellsHexLiteral text.toList n) ↔
      ¬ IsLooseHexLiteral text.toList) := by
  have hspelled {n : Nat} (h : SpellsHexLiteral text.toList n) :
      ∃ width, hexLiteral text = .ok ((n : Int), width) := by
    obtain ⟨digits, hdigits, hsize, hn⟩ := h
    exact ⟨_, hexLiteral_eq_ok_iff.mpr ⟨digits, hdigits, hsize, hn.isNumeral, rfl⟩⟩
  refine ⟨fun n width => ?_, fun e => class_of_hexLiteral, fun n h => ?_, ?_⟩
  · constructor
    · intro h
      obtain ⟨digits, hdigits, hsize, hn, hwidth⟩ := hexLiteral_eq_ok_iff.mp h
      exact ⟨digits, hdigits, hsize, hn, natAbs_lt_of_hexLiteral h, hwidth⟩
    · rintro ⟨digits, hdigits, hsize, hn, -, hwidth⟩
      exact hexLiteral_eq_ok_iff.mpr ⟨digits, hdigits, hsize, hn, hwidth⟩
  · obtain ⟨width, hvalue⟩ := hspelled h
    exact ⟨natAbs_lt_of_hexLiteral hvalue, width, hvalue⟩
  · constructor
    · rintro hiff ⟨digits, n, hdigits, hsize, hn, x, hx, hdigit⟩
      obtain ⟨m, digits', hdigits', -, hm⟩ :=
        hiff.mp ⟨_, hexLiteral_eq_ok_iff.mpr ⟨digits, hdigits, hsize, hn, rfl⟩⟩
      have hsame : digits = digits' :=
        (hdigits.hexLiteralDigits (not_mem_of_isNumeral hn)).2.symm.trans
          (hdigits'.hexLiteralDigits (not_mem_of_isNumeral hm.isNumeral)).2
      rw [hsame] at hx
      exact absurd ((hm.digitsNumber.2.1 x hx).symm.trans hdigit) (by decide)
    · intro hloose
      constructor
      · rintro ⟨value, hvalue⟩
        obtain ⟨digits, hdigits, hsize, hn, -⟩ := hexLiteral_eq_ok_iff.mp hvalue
        have hne : digits ≠ [] := List.ne_nil_of_length_pos
          (Nat.pos_of_ne_zero (length_ne_zero_of_isNumeral hn))
        refine ⟨_, digits, hdigits, hsize, writesHex_of_isHexDigit hne fun x hx => ?_⟩
        by_contra hdigit
        exact hloose ⟨digits, _, hdigits, hsize, hn, x, hx, Bool.eq_false_iff.mpr hdigit⟩
      · rintro ⟨n, h⟩
        obtain ⟨width, hvalue⟩ := hspelled h
        exact ⟨_, hvalue⟩

/-- The largest literal, with a suffix, and a literal that is too long. -/
theorem hexLiteral_spec_largest :
    SpellsHexLiteral "0XffffFFFFL".toList 0xFFFFFFFF ∧
      (∃ width, hexLiteral "0XffffFFFFL" = .ok ((0xFFFFFFFF : Nat), width)) ∧
      hexLiteral "0x100000000" = .error (.hexadecimalSize "0x100000000" 9) ∧
      Error.class (.hexadecimalSize "0x100000000" 9) = .malformed := by
  have hspells : SpellsHexLiteral "0XffffFFFFL".toList 0xFFFFFFFF := by
    have hdigits : WritesHex "ffffFFFF".toList (digitsNumber 16 hexValue? "ffffFFFF".toList) :=
      writesHex_of_isHexDigit (by decide) (List.all_eq_true.mp (by decide))
    have hnumber : digitsNumber 16 hexValue? "ffffFFFF".toList = 0xFFFFFFFF := by decide
    rw [hnumber] at hdigits
    exact ⟨"ffffFFFF".toList, ⟨'X', ['L'], by decide, .inr rfl, .inr rfl⟩, by decide, hdigits⟩
  have hlong : hexLiteral "0x100000000" = .error (.hexadecimalSize "0x100000000" 9) := by
    decide +kernel
  exact ⟨hspells, ((hexLiteral_spec _).2.2.1 _ hspells).2, hlong, (hexLiteral_spec _).2.1 _ hlong⟩

/-- A sign behind the prefix makes a literal negative. -/
theorem hexLiteral_signed :
    hexLiteral "0x-1" = .ok (-1, 8) ∧ ¬ ∃ n, SpellsHexLiteral "0x-1".toList n := by
  refine ⟨by decide +kernel, ?_⟩
  rintro ⟨n, digits, hdigits, -, hn⟩
  have hsign : digits = ['-', '1'] :=
    (hdigits.hexLiteralDigits (not_mem_of_isNumeral hn.isNumeral)).2.symm.trans (by decide)
  have hdigit := hn.digitsNumber.2.1 '-' (by simp [hsign])
  exact absurd hdigit (by decide)

end SdkBindings.Constant
