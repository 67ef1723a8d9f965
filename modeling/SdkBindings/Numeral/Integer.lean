import SdkBindings.Host
import SdkBindings.Text.Blank
import SdkBindings.Text.DecimalDigit
import SdkBindings.Text.Hexadecimal

/-!
# Reading integers

The tolerant reading of an integer that settings, GUIDs and hexadecimal literals go through.  White
space around the numeral, a sign, single underscores between digits, decimal digits of any script
and, in base sixteen, the prefix `0x` are all accepted.  A host may limit the digits of a decimal
integer; in base sixteen no host does.
-/

namespace SdkBindings.Numeral

open Text

/-- ASCII characters stand for themselves, other white space for a space and other decimal digits
for their ASCII counterparts; nothing else can be part of a numeral. -/
def asciiImage? (c : Char) : Option Char :=
  if c.toNat < 128 then some c
  else if isBlank c then some ' '
  else (digitValue? c).map fun d => Char.ofNat (48 + d)

/-- The body of a numeral in ASCII, without the blanks around it. -/
def asciiBody? (text : List Char) : Option (List Char) :=
  (text.mapM asciiImage?).map (strip isAsciiBlank)

/-- Reads digits of a base from left to right.  `n` is the value so far and `afterDigit` tells that the
last character was a digit, which is what an underscore and the end need before them. -/
def digitsValue? (base : Nat) : (n : Nat) → (afterDigit : Bool) → List Char → Option Nat
  | n, afterDigit, [] => if afterDigit then some n else none
  | n, afterDigit, c :: rest =>
    if c = '_' then
      if afterDigit then digitsValue? base n false rest else none
    else
      match hexValue? c with
      | some d => if d < base then digitsValue? base (base * n + d) true rest else none
      | none => none

/-- A sign in front, and what follows it. -/
def splitSign : List Char → Bool × List Char
  | '-' :: rest => (true, rest)
  | '+' :: rest => (false, rest)
  | text => (false, text)

/-- In base sixteen the prefix `0x` may be left out, and one underscore may follow it. -/
def dropHexPrefix : List Char → List Char
  | '0' :: x :: rest =>
    if x = 'x' ∨ x = 'X' then
      match rest with
      | '_' :: rest => rest
      | rest => rest
    else '0' :: x :: rest
  | text => text

/-- The integer a text denotes in base ten or sixteen. -/
def readInteger? (base : Nat) (text : List Char) : Option Int := do
  let body ← asciiBody? text
  let (negative, digits) := splitSign body
  let n ← digitsValue? base 0 false (if base = 16 then dropHexPrefix digits else digits)
  pure (if negative then -(n : Int) else n)

example : readInteger? 10 " 1_000\n".toList = some 1000 ∧ readInteger? 10 "-٣".toList = some (-3) ∧
    readInteger? 16 "0x_fF".toList = some 255 ∧ readInteger? 16 "0x".toList = none ∧
    readInteger? 10 "1__0".toList = none ∧ readInteger? 10 "²".toList = none := by decide +kernel

/-- How many digits a text has. -/
def digitCount (text : List Char) : Nat :=
  (text.filter isDecimalDigit).length

/-- The integer a text denotes in base ten, unless it has more digits than the host reads. -/
def decimalInteger? [Host] (text : List Char) : Option Int :=
  if Host.reads (digitCount text) then readInteger? 10 text else none

/-- A host without a limit reads every decimal integer. -/
theorem decimalInteger?_unlimited (text : List Char) : decimalInteger? text = readInteger? 10 text :=
  rfl

end SdkBindings.Numeral
