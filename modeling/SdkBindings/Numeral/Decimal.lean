import SdkBindings.Numeral.Binary64
import SdkBindings.Numeral.Integer

/-!
# Reading decimal fractions

A decimal numeral without a sign: digits with an optional point and an optional exponent.  Blanks
around it, single underscores between digits and digits of any script are accepted as for integers.
The numeral denotes the double nearest to it, so a large exponent gives infinity rather than a
failure.
-/

namespace SdkBindings.Numeral

open Text

/-- Splits off a run of decimal digits in which single underscores may stand between digits; the
result is the value, the number of digits and the rest.  `n` and `count` are what is read so far. -/
def digitRun (n count : Nat) : List Char → Nat × Nat × List Char
  | [] => (n, count, [])
  | c :: rest =>
    if c.isDigit then digitRun (10 * n + (c.toNat - 48)) (count + 1) rest
    else if c = '_' ∧ 0 < count then
      match rest with
      | d :: rest' =>
        if d.isDigit then digitRun (10 * n + (d.toNat - 48)) (count + 1) rest'
        else (n, count, c :: d :: rest')
      | [] => (n, count, [c])
    else (n, count, c :: rest)

/-- An exponent, which has to be the end of the numeral. -/
def exponent? : List Char → Option Int
  | [] => some 0
  | e :: rest =>
    if e = 'e' ∨ e = 'E' then
      let (negative, digits) := splitSign rest
      match digitRun 0 0 digits with
      | (n, count, []) => if count = 0 then none else some (if negative then -(n : Int) else n)
      | _ => none
    else none

/-- The digits of a numeral and the power of ten they are multiplied with. -/
def decimalParts? (body : List Char) : Option (Nat × Int) := do
  let (whole, wholeCount, rest) := digitRun 0 0 body
  match rest with
  | '.' :: rest =>
    let (digits, fractionCount, rest) := digitRun whole 0 rest
    if wholeCount + fractionCount = 0 then none
    else
      let e ← exponent? rest
      pure (digits, e - fractionCount)
  | rest =>
    if wholeCount = 0 then none
    else
      let e ← exponent? rest
      pure (whole, e)

/-- The double a decimal numeral denotes. -/
def readDecimal? (text : List Char) : Option Float := do
  let body ← asciiBody? text
  let (digits, exponent) ← decimalParts? body
  pure (Binary64.ofDecimal digits exponent)

example : decimalParts? "1.5e3".toList = some (15, 2) ∧ decimalParts? ".25".toList = some (25, -2) ∧
    decimalParts? "1_0.".toList = some (10, 0) ∧ decimalParts? ".".toList = none ∧
    decimalParts? "1._5".toList = none ∧ decimalParts? "2e".toList = none := by decide +kernel

end SdkBindings.Numeral
