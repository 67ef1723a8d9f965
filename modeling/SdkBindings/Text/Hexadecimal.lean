/-!
# Hexadecimal text

Digits in base sixteen: reading one digit, and writing a number with a least width, in the lower
case of messages or the upper case of interface identifiers.
-/

namespace SdkBindings.Text

/-- The value of an ASCII hexadecimal digit. -/
def hexValue? (c : Char) : Option Nat :=
  if '0' ≤ c ∧ c ≤ '9' then some (c.toNat - 48)
  else if 'a' ≤ c ∧ c ≤ 'f' then some (c.toNat - 87)
  else if 'A' ≤ c ∧ c ≤ 'F' then some (c.toNat - 55)
  else none

/-- Whether the character is an ASCII hexadecimal digit. -/
def isHexDigit (c : Char) : Bool :=
  (hexValue? c).isSome

/-- The lower-case hexadecimal digits of a number, padded with zeros to a least width. -/
def hexDigits (width n : Nat) : List Char :=
  List.leftpad width '0' (Nat.toDigits 16 n)

/-- Upper-case hexadecimal digits with a least width; a minus sign counts towards the width. -/
def hexUpper (width : Nat) (n : Int) : String :=
  let digits := (hexDigits (if n < 0 then width - 1 else width) n.natAbs).map Char.toUpper
  String.ofList (if n < 0 then '-' :: digits else digits)

/-- Padding reaches the requested width. -/
theorem le_length_hexDigits (width n : Nat) : width ≤ (hexDigits width n).length := by
  simp [hexDigits, List.leftpad]; omega

example : hexUpper 4 0xAB = "00AB" ∧ hexUpper 4 (-0xAB) = "-0AB" ∧ hexUpper 2 0xABC = "ABC" := by
  decide +kernel

end SdkBindings.Text
