import SdkBindings.Text.Boundaries

/-!
# Decimal digits of every script

A decimal digit is a character of general category Nd.  These characters come in runs of ten
consecutive code points from zero to nine, so a table of the zeros gives every value
(Unicode 14.0).  Superscripts and circled digits are digits by name only: they have no place in a
positional numeral, and `isDigitLike` is the one test that lets them through.
-/

namespace SdkBindings.Text

/-- The code points of the zeros, one for each run of ten decimal digits. -/
def digitZeros : List Nat :=
  [48, 1632, 1776, 1984, 2406, 2534, 2662, 2790, 2918, 3046, 3174, 3302, 3430, 3558, 3664, 3792,
   3872, 4160, 4240, 6112, 6160, 6470, 6608, 6784, 6800, 6992, 7088, 7232, 7248, 42528, 43216,
   43264, 43472, 43504, 43600, 44016, 65296, 66720, 68912, 69734, 69872, 69942, 70096, 70384,
   70736, 70864, 71248, 71360, 71472, 71904, 72016, 72784, 73040, 73120, 92768, 92864, 93008,
   120782, 120792, 120802, 120812, 120822, 123200, 123632, 125264, 130032]

/-- The value of a decimal digit of any script. -/
def digitValue? (c : Char) : Option Nat :=
  (digitZeros.find? fun z => z ≤ c.toNat && c.toNat < z + 10).map (c.toNat - ·)

/-- Whether the character is a decimal digit of any script. -/
def isDecimalDigit (c : Char) : Bool :=
  (digitValue? c).isSome

/-- The points where membership in the digits that are not decimal digits changes. -/
def otherDigitBoundaries : List Nat :=
  [178, 180, 185, 186, 4969, 4978, 6618, 6619, 8304, 8305, 8308, 8314, 8320, 8330, 9312, 9321,
   9332, 9341, 9352, 9361, 9450, 9451, 9461, 9470, 9471, 9472, 10102, 10111, 10112, 10121, 10122,
   10131, 68160, 68164, 69216, 69225, 69714, 69723, 127232, 127243]

/-- Decimal digits together with superscript, subscript, circled and similar digits. -/
def isDigitLike (c : Char) : Bool :=
  isDecimalDigit c || inside otherDigitBoundaries c.toNat

/-- A non-empty text made of digits, of whatever kind. -/
def isDigits (text : List Char) : Bool :=
  !text.isEmpty && text.all isDigitLike

/-- The value of a decimal digit is below ten. -/
theorem digitValue?_lt {c : Char} {d : Nat} (h : digitValue? c = some d) : d < 10 := by
  obtain ⟨z, hz, rfl⟩ := Option.map_eq_some_iff.1 h
  have := List.find?_some hz
  simp only [Bool.and_eq_true, decide_eq_true_eq] at this
  omega

example : digitValue? '7' = some 7 ∧ digitValue? '٣' = some 3 ∧ digitValue? '²' = none ∧
    isDigitLike '²' := by decide +kernel

end SdkBindings.Text
