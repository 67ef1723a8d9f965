import SdkBindings.Constant.Evaluation
import SdkBindings.Proofs.Formula.Reading
import SdkBindings.Proofs.Lexing.Lexeme
import SdkBindings.Proofs.Numeral.Digits

/-!
# Numbers as they are written

A number that is written in base ten, without zeros in front, is one piece of header text and stands
for itself in both languages: as an operand of a constant expression (`bareOperand_toString`) and as a
numeral of the generated language (`numeral?_toDigits`).
-/

namespace SdkBindings.Formula

open Text

/-! ## Digits -/

/-- The ten digits belong to the decimal digits. -/
theorem digitValue?_digitChar {d : Nat} (h : d < 10) : digitValue? (Nat.digitChar d) = some d := by
  have hall : ∀ d < 10, digitValue? (Nat.digitChar d) = some d := by
    decide +kernel
  exact hall d h

/-- Every digit of a number is one of the ten. -/
theorem exists_digitChar {n : Nat} {c : Char} (h : c ∈ Nat.toDigits 10 n) :
    ∃ d < 10, c = Nat.digitChar d := by
  induction n using Nat.strongRecOn with
  | ind n ih =>
    rw [Nat.toDigits_eq_if (by decide)] at h
    split at h
    · exact ⟨n, ‹_›, List.mem_singleton.mp h⟩
    · rcases List.mem_append.mp h with h | h
      · exact ih (n / 10) (by omega) h
      · exact ⟨n % 10, by omega, List.mem_singleton.mp h⟩

/-- The digits of a number are decimal digits. -/
theorem isDecimalDigit_of_mem_toDigits {n : Nat} {c : Char} (h : c ∈ Nat.toDigits 10 n) :
    isDecimalDigit c = true := by
  obtain ⟨d, hd, rfl⟩ := exists_digitChar h
  exact Numeral.isDecimalDigit_of_digitValue? (digitValue?_digitChar hd)

/-- A number has digits. -/
theorem toDigits_ne_nil (n : Nat) : Nat.toDigits 10 n ≠ [] := by
  rw [Nat.toDigits_eq_if (by decide)]
  split
  · exact List.cons_ne_nil _ _
  · exact List.append_ne_nil_of_right_ne_nil _ (List.cons_ne_nil _ _)

/-- A number starts with a digit. -/
theorem exists_digit (n : Nat) : ∃ c rest, Nat.toDigits 10 n = c :: rest ∧ c.isDigit = true := by
  obtain ⟨c, rest, hdigits⟩ := List.exists_cons_of_ne_nil (toDigits_ne_nil n)
  refine ⟨c, rest, hdigits, Nat.isDigit_of_mem_toDigits (b := 10) (n := n) (by simp) (by simp) ?_⟩
  rw [hdigits]
  exact List.mem_cons_self

/-- Only zero starts with a zero. -/
theorem head?_toDigits {n : Nat} (h : n ≠ 0) : (Nat.toDigits 10 n).head? ≠ some '0' := by
  induction n using Nat.strongRecOn with
  | ind n ih =>
    rw [Nat.toDigits_eq_if (by decide)]
    split
    · have hall : ∀ n < 10, n ≠ 0 → [Nat.digitChar n].head? ≠ some '0' := by
        decide
      exact hall n ‹_› h
    · have hhead := ih (n / 10) (by omega) (by omega)
      cases hdigits : Nat.toDigits 10 (n / 10) with
      | nil => exact absurd hdigits (toDigits_ne_nil _)
      | cons c rest => rwa [hdigits] at hhead

/-- The text of a number consists of its digits. -/
theorem toList_toString (n : Nat) : (toString n).toList = Nat.toDigits 10 n := by
  rw [Nat.toString_eq_ofList_toDigits, String.toList_ofList]

/-! ## Operands -/

/-- The digits of a number add up to it. -/
theorem digitsNumber_toDigits (n : Nat) : Numeral.digitsNumber 0 (Nat.toDigits 10 n) = n := by
  induction n using Nat.strongRecOn with
  | ind n ih =>
    rw [Nat.toDigits_eq_if (by decide)]
    split
    · simp [Numeral.digitsNumber, digitValue?_digitChar ‹_›]
    · have hdigit : digitValue? (Nat.digitChar (n % 10)) = some (n % 10) :=
        digitValue?_digitChar (Nat.mod_lt n (by decide))
      have hrest := ih (n / 10) (by omega)
      rw [Numeral.digitsNumber] at hrest ⊢
      rw [List.foldl_append, hrest]
      simp [hdigit, Nat.div_add_mod]

/-- Digits are no hexadecimal literal. -/
theorem isHexLiteral_digits {digits : List Char} (h : ∀ c ∈ digits, isDecimalDigit c = true) :
    Constant.isHexLiteral digits = false := by
  have hnone : isDecimalDigit 'x' = false ∧ isDecimalDigit 'X' = false := by
    decide +kernel
  unfold Constant.isHexLiteral
  split
  · rename_i x rest
    have hx := h x (by simp)
    rw [Bool.or_eq_false_iff, decide_eq_false_iff_not, decide_eq_false_iff_not]
    constructor
    · rintro rfl
      exact absurd (hx.symm.trans hnone.1) (by decide)
    · rintro rfl
      exact absurd (hx.symm.trans hnone.2) (by decide)
  · rfl

/-- Digits stand for their number as an operand. -/
theorem bareOperand_digits (symbols : SymbolTable) {digits : List Char} (hne : digits ≠ [])
    (h : ∀ c ∈ digits, isDecimalDigit c = true) :
    Constant.bareOperand symbols digits = .ok (.int (Numeral.digitsNumber 0 digits : Nat)) := by
  have hdigits : isDigits digits = true := by
    simp only [isDigits, Bool.and_eq_true, Bool.not_eq_true', List.isEmpty_eq_false_iff,
      List.all_eq_true]
    exact ⟨hne, fun c hc => by rw [isDigitLike, h c hc, Bool.true_or]⟩
  rw [Constant.bareOperand, isHexLiteral_digits h, if_neg Bool.false_ne_true, if_pos hdigits,
    Numeral.decimalInteger?_unlimited, Numeral.readInteger?_digits hne h]
  rfl

/-- A number stands for itself as an operand. -/
theorem bareOperand_toString (symbols : SymbolTable) (n : Nat) :
    Constant.bareOperand symbols (toString n).toList = .ok (.int n) := by
  rw [toList_toString, bareOperand_digits symbols (toDigits_ne_nil n) fun c hc =>
    isDecimalDigit_of_mem_toDigits hc, digitsNumber_toDigits]

/-- A number stands for itself as a numeral of the generated language. -/
theorem numeral?_toDigits (n : Nat) : Generated.numeral? (Nat.toDigits 10 n) = some n := by
  have hvalue : Nat.ofDigitChars 10 (Nat.toDigits 10 n) 0 = n :=
    Nat.ofDigitChars_toDigits (by decide) (by decide)
  rw [Generated.numeral?, if_neg, hvalue]
  rintro ⟨hhead, hany⟩
  by_cases hn : n = 0
  · subst hn
    exact absurd hany (by decide)
  · exact head?_toDigits hn hhead

end SdkBindings.Formula
