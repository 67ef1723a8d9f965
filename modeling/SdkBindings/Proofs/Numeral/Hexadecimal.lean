import Mathlib.Data.Int.Bitwise
import Mathlib.Data.List.Induction
import SdkBindings.Proofs.Literals.Spelling
import SdkBindings.Proofs.Numeral.Digits

/-!
# Hexadecimal numbers of a width

A number is written with a fixed number of hexadecimal digits by padding it with zeros.  The last
digits of a number can be split off (`lastDigits_append`), which is how a long number is written in
parts, and they depend on what is left of the number modulo a power of sixteen only
(`lastDigits_mod`).

Digits in either case write a number (`WritesHex`).  The number is what the tolerant reader of
integers reads from them (`readInteger?_hex`): none of them is a blank, a sign, an underscore or the
mark of a prefix.
-/

namespace SdkBindings

open Text Constant

/-! ## Digits in either case -/

namespace Constant

/-- A digit is written for its value. -/
theorem isHexDigitOf_digitChar {value : Nat} (h : value < 16) :
    IsHexDigitOf (Nat.digitChar value) value :=
  ⟨h, .inl rfl⟩

/-- The digits of a number in base sixteen write it. -/
theorem writesHex_toDigits (n : Nat) : WritesHex (Nat.toDigits 16 n) n := by
  induction n using Nat.strongRecOn with
  | ind n ih =>
    rw [Nat.toDigits_eq_if (by decide)]
    split
    · exact .digit (isHexDigitOf_digitChar ‹_›)
    · have hdigit : IsHexDigitOf (Nat.digitChar (n % 16)) (n % 16) :=
        isHexDigitOf_digitChar (Nat.mod_lt n (by decide))
      have happend := WritesHex.append (ih (n / 16) (by omega)) hdigit
      rwa [Nat.div_add_mod] at happend

/-- Zeros in front change nothing. -/
theorem WritesHex.zeros {digits : List Char} {n : Nat} (h : WritesHex digits n) (count : Nat) :
    WritesHex (List.replicate count '0' ++ digits) n := by
  have hzero {digits : List Char} {n : Nat} (h : WritesHex digits n) : WritesHex ('0' :: digits) n := by
    induction h with
    | digit hd =>
      have hzero : IsHexDigitOf '0' 0 := isHexDigitOf_digitChar (by decide)
      have happend := WritesHex.append (.digit hzero) hd
      rwa [Nat.mul_zero, Nat.zero_add] at happend
    | append _ hd ih => exact .append ih hd
  induction count with
  | zero => exact h
  | succ count ih => exact hzero ih

/-- Any digits write the number that they add up to. -/
theorem writesHex_of_isHexDigit {digits : List Char} (hne : digits ≠ [])
    (h : ∀ d ∈ digits, isHexDigit d = true) :
    WritesHex digits (digitsNumber 16 hexValue? digits) := by
  induction digits using List.reverseRecOn with
  | nil => exact absurd rfl hne
  | append_singleton front d ih =>
    obtain ⟨hfront, hd⟩ := List.forall_mem_append.mp h
    obtain ⟨value, hvalue⟩ := Option.isSome_iff_exists.mp (hd d List.mem_cons_self)
    have hdigit : IsHexDigitOf d value := hexValue?_eq_some_iff.mp hvalue
    rw [digitsNumber, List.foldl_append, ← digitsNumber, List.foldl_cons, List.foldl_nil, hvalue,
      Option.getD_some]
    cases front with
    | nil =>
      rw [digitsNumber, List.foldl_nil, Nat.mul_zero, Nat.zero_add]
      exact .digit hdigit
    | cons c front => exact .append (ih (List.cons_ne_nil c front) hfront) hdigit

/-- A padded number is written by its digits. -/
theorem writesHex_hexDigits (width n : Nat) : WritesHex (hexDigits width n) n :=
  (writesHex_toDigits n).zeros _

/-- A number is smaller than the power of sixteen that its digits stand for. -/
theorem WritesHex.lt {digits : List Char} {n : Nat} (h : WritesHex digits n) :
    n < 16 ^ digits.length := by
  induction h with
  | digit hd => exact hd.1
  | @append digits n value d _ hd ih =>
    have hvalue := hd.1
    rw [List.length_append, List.length_singleton, Nat.pow_succ]
    omega

/-- Upper-case digits write the same number. -/
theorem WritesHex.map_toUpper {digits : List Char} {n : Nat} (h : WritesHex digits n) :
    WritesHex (digits.map Char.toUpper) n := by
  have hall : ∀ v < 16, (Nat.digitChar v).toUpper.toUpper = (Nat.digitChar v).toUpper := by
    decide
  have hdigit {d : Char} {value : Nat} (hd : IsHexDigitOf d value) : IsHexDigitOf d.toUpper value := by
    obtain ⟨hlt, rfl | rfl⟩ := hd
    · exact ⟨hlt, .inr rfl⟩
    · exact ⟨hlt, .inr (hall value hlt)⟩
  induction h with
  | digit hd => exact .digit (hdigit hd)
  | append _ hd ih =>
    rw [List.map_append]
    exact .append ih (hdigit hd)

/-- The characters that the tolerant reader of integers treats as digits and as nothing else. -/
structure IsBareDigit (d : Char) : Prop where
  /-- It is an ASCII character. -/
  ascii : d.toNat < 128
  /-- It is no blank. -/
  not_blank : isAsciiBlank d = false
  /-- It is no mark of a numeral or of a written identifier. -/
  not_mark : d ∉ ['_', '-', '+', 'x', 'X', ':', '\x7b', '\x7d']

/-- Hexadecimal digits are such characters. -/
theorem IsHexDigitOf.isBareDigit {d : Char} {value : Nat} (h : IsHexDigitOf d value) :
    IsBareDigit d := by
  have hall : ∀ v < 16, [Nat.digitChar v, (Nat.digitChar v).toUpper].all (fun d =>
      d.toNat < 128 ∧ isAsciiBlank d = false ∧
        d ∉ ['_', '-', '+', 'x', 'X', ':', '\x7b', '\x7d']) = true := by
    decide
  obtain ⟨hlt, hd⟩ := h
  obtain ⟨hascii, hblank, hmark⟩ :=
    of_decide_eq_true (List.all_eq_true.mp (hall value hlt) d (by simpa using hd))
  exact ⟨hascii, hblank, hmark⟩

/-- All digits of a number are such characters. -/
theorem WritesHex.isBareDigit {digits : List Char} {n : Nat} (h : WritesHex digits n) :
    ∀ d ∈ digits, IsBareDigit d := by
  induction h with
  | digit hd => exact List.forall_mem_singleton.mpr hd.isBareDigit
  | append _ hd ih =>
    exact List.forall_mem_append.mpr ⟨ih, List.forall_mem_singleton.mpr hd.isBareDigit⟩

end Constant

/-! ## Reading -/

namespace Numeral

/-- Digits in base sixteen add up to the number that they write. -/
theorem digitsValue?_hex {digits : List Char} {n : Nat} (h : WritesHex digits n) (afterDigit : Bool) :
    digitsValue? 16 0 afterDigit digits = some n := by
  -- the last digit comes last, so the digits before it are read with anything behind them
  have hstep {digits : List Char} {n : Nat} (h : WritesHex digits n) :
      ∀ afterDigit rest, digitsValue? 16 0 afterDigit (digits ++ rest) = digitsValue? 16 n true rest := by
    have hdigit {d : Char} {value : Nat} (hd : IsHexDigitOf d value) (m : Nat) (afterDigit : Bool)
        (rest : List Char) :
        digitsValue? 16 m afterDigit (d :: rest) = digitsValue? 16 (16 * m + value) true rest := by
      have hmark : d ≠ '_' := fun heq => hd.isBareDigit.not_mark (heq ▸ List.mem_cons_self)
      rw [digitsValue?, if_neg hmark, hexValue?_eq_some_iff.mpr hd]
      exact if_pos hd.1
    induction h with
    | digit hd =>
      intro afterDigit rest
      rw [List.singleton_append, hdigit hd, Nat.mul_zero, Nat.zero_add]
    | append _ hd ih =>
      intro afterDigit rest
      rw [List.append_assoc, ih, List.singleton_append, hdigit hd]
  have hread := hstep h afterDigit []
  rwa [List.append_nil] at hread

/-- Hexadecimal digits are read to the number that they write. -/
theorem readInteger?_hex {digits : List Char} {n : Nat} (h : WritesHex digits n) :
    readInteger? 16 digits = some (n : Int) := by
  have hbare := h.isBareDigit
  have himage : digits.mapM asciiImage? = some digits := by
    clear h
    induction digits with
    | nil => rfl
    | cons d rest ih =>
      obtain ⟨hd, hrest⟩ := List.forall_mem_cons.mp hbare
      have hone : asciiImage? d = some d := if_pos hd.ascii
      rw [List.mapM_cons, hone, ih hrest]
      rfl
  have hbody : asciiBody? digits = some digits := by
    rw [asciiBody?, himage, Option.map_some, strip_eq_self fun d hd => (hbare d hd).not_blank]
  have hsign : splitSign digits = (false, digits) := by
    refine splitSign_eq_self fun d hd hmark => (hbare d hd).not_mark ?_
    simp only [List.mem_cons, List.not_mem_nil, or_false] at hmark ⊢
    tauto
  have hprefix : dropHexPrefix digits = digits := by
    unfold dropHexPrefix
    split
    · rename_i x rest
      have hx := (hbare x (by simp)).not_mark
      rw [if_neg]
      rintro (rfl | rfl) <;> exact hx (by decide)
    · rfl
  rw [readInteger?, hbody]
  show (do
    let m ← digitsValue? 16 0 false (dropHexPrefix (splitSign digits).2)
    pure (if (splitSign digits).1 then -(m : Int) else m)) = _
  rw [hsign, hprefix, digitsValue?_hex h]
  rfl

end Numeral

/-! ## Digits of a width -/

namespace Text

/-- The last hexadecimal digits of a number, in lower case. -/
def lastDigits : (width n : Nat) → List Char
  | 0, _ => []
  | width + 1, n => lastDigits width (n / 16) ++ [Nat.digitChar (n % 16)]

/-- There are as many of them as the width says. -/
@[simp]
theorem length_lastDigits (width n : Nat) : (lastDigits width n).length = width := by
  induction width generalizing n with
  | zero => rfl
  | succ width ih => rw [lastDigits, List.length_append, ih, List.length_singleton]

/-- The last digits of a number, after those before them. -/
theorem lastDigits_append (front back n : Nat) :
    lastDigits (front + back) n = lastDigits front (n / 16 ^ back) ++ lastDigits back n := by
  induction back generalizing n with
  | zero => rw [Nat.add_zero, Nat.pow_zero, Nat.div_one, lastDigits, List.append_nil]
  | succ back ih =>
    rw [← Nat.add_assoc, lastDigits, ih, lastDigits, List.append_assoc, Nat.div_div_eq_div_mul,
      Nat.pow_succ']

/-- The last digits of a number are those of what is left of it. -/
theorem lastDigits_mod (width n : Nat) : lastDigits width (n % 16 ^ width) = lastDigits width n := by
  induction width generalizing n with
  | zero => rfl
  | succ width ih =>
    have hfront : n % 16 ^ (width + 1) / 16 = n / 16 % 16 ^ width := by
      rw [Nat.pow_succ', Nat.mod_mul_right_div_self]
    have hlast : n % 16 ^ (width + 1) % 16 = n % 16 :=
      Nat.mod_mod_of_dvd n ⟨16 ^ width, Nat.pow_succ'⟩
    rw [lastDigits, lastDigits, hfront, hlast, ih]

/-- The last digits of zero are zeros. -/
theorem lastDigits_zero (width : Nat) : lastDigits width 0 = List.replicate width '0' := by
  induction width with
  | zero => rfl
  | succ width ih =>
    rw [List.replicate_succ', ← ih]
    rfl

/-- A number that fits is padded to just its last digits. -/
theorem hexDigits_eq_lastDigits {width n : Nat} (hwidth : 0 < width) (h : n < 16 ^ width) :
    hexDigits width n = lastDigits width n := by
  obtain ⟨width, rfl⟩ : ∃ w, width = w + 1 := ⟨width - 1, by omega⟩
  clear hwidth
  induction width generalizing n with
  | zero =>
    have hsmall : n < 16 := by simpa using h
    rw [hexDigits, Nat.toDigits_eq_if (by decide), if_pos hsmall, lastDigits,
      Nat.mod_eq_of_lt hsmall]
    rfl
  | succ width ih =>
    have hlast (digits : List Char) (d : Char) :
        List.leftpad (width + 2) '0' (digits ++ [d]) = List.leftpad (width + 1) '0' digits ++ [d] := by
      simp [List.leftpad]
    rw [hexDigits, Nat.toDigits_eq_if (by decide), lastDigits]
    split
    · rename_i hsmall
      rw [← List.nil_append [Nat.digitChar n], hlast, Nat.mod_eq_of_lt hsmall,
        Nat.div_eq_of_lt hsmall, lastDigits_zero]
      simp [List.leftpad]
    · rw [hlast, ← hexDigits, ih]
      rw [Nat.pow_succ] at h
      omega

/-- A number is padded and written in upper case. -/
theorem toList_hexUpper (width n : Nat) :
    (hexUpper width (n : Int)).toList = (hexDigits width n).map Char.toUpper := by
  have hsign : ¬ (n : Int) < 0 := Int.not_lt.mpr (Int.natCast_nonneg n)
  simp only [hexUpper, if_neg hsign, Int.natAbs_natCast, String.toList_ofList]

/-- Its characters are hexadecimal digits. -/
theorem isHexDigit_of_mem_hexUpper {width n : Nat} {d : Char}
    (h : d ∈ (hexUpper width (n : Int)).toList) : isHexDigit d = true := by
  rw [toList_hexUpper] at h
  exact (writesHex_hexDigits width n).map_toUpper.digitsNumber.2.1 d h

end Text

end SdkBindings
