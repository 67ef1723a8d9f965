import SdkBindings.Constant.Error
import SdkBindings.Text.Hexadecimal

/-!
# Escape sequences

The body of a string or character literal is decoded from left to right.  A backslash is followed by
`x` and any number of hexadecimal digits, by one to three octal digits, or by one of the characters
with a meaning of their own.  A backslash at the very end stands for itself.

What a body denotes is a list of code points.  An escape by number reaches all of them, the surrogates
among them, which are no characters; in a text `U+FFFD` stands in their place.
-/

namespace SdkBindings.Constant

open Text

/-- The value of an octal digit. -/
def octalValue? (c : Char) : Option Nat :=
  if '0' ≤ c ∧ c ≤ '7' then some (c.toNat - 48) else none

/-- The character a one-letter escape stands for. -/
def simpleEscape? : Char → Option Char
  | '\\' => some '\\'
  | '"' => some '"'
  | '\'' => some '\''
  | '?' => some '?'
  | 'a' => some '\x07'
  | 'b' => some '\x08'
  | 'f' => some '\x0c'
  | 'n' => some '\n'
  | 'r' => some '\r'
  | 't' => some '\t'
  | 'v' => some '\x0b'
  | _ => none

/-- The number that digits denote, read by `value?` in a base. -/
def digitsNumber (base : Nat) (value? : Char → Option Nat) (digits : List Char) : Nat :=
  digits.foldl (fun n c => base * n + (value? c).getD 0) 0

/-- The code point with a number. -/
def codePoint (n : Nat) : Except Error Nat :=
  if n < 0x110000 then .ok n
  else if n < 0x80000000 then .error .characterRange
  else .error .characterTooLarge

/-- The code point that the escape after a backslash stands for, and how many characters it takes;
`c` is the first of them. -/
def escape (c : Char) (rest : List Char) : Except Error (Nat × Nat) :=
  if c = 'x' then
    let digits := rest.takeWhile isHexDigit
    if digits = [] then .error (.invalidInteger 16 "")
    else (codePoint (digitsNumber 16 hexValue? digits)).map (·, 1 + digits.length)
  else if (octalValue? c).isSome then
    let digits := c :: (rest.take 2).takeWhile fun d => (octalValue? d).isSome
    (codePoint (digitsNumber 8 octalValue? digits)).map (·, digits.length)
  else
    match simpleEscape? c with
    | some d => .ok (d.toNat, 1)
    | none => .error (.unknownEscape c)

/-- The code points that the body of a literal denotes. -/
def decodeEscapes (body : List Char) : Except Error (List Nat) :=
  match body with
  | [] => .ok []
  | c :: rest =>
    if c = '\\' then
      match rest with
      | [] => .ok ['\\'.toNat]
      | d :: rest' => do
        let (decoded, length) ← escape d rest'
        let tail ← decodeEscapes (rest'.drop (length - 1))
        pure (decoded :: tail)
    else do
      let tail ← decodeEscapes rest
      pure (c.toNat :: tail)
termination_by body.length
decreasing_by all_goals (simp only [List.length_cons, List.length_drop]; omega)

/-- The character of a code point; a surrogate has none. -/
def characterOf (n : Nat) : Char :=
  if n.isValidChar then Char.ofNat n else '\uFFFD'

/-- The text of code points. -/
def textOf (codes : List Nat) : String :=
  String.ofList (codes.map characterOf)

/-- A character is that of its code point. -/
theorem characterOf_toNat (c : Char) : characterOf c.toNat = c := by
  have hvalid : c.toNat.isValidChar := c.valid
  rw [characterOf, if_pos hvalid, Char.ofNat_toNat]

/-- The text that the body of a literal denotes. -/
def decodeLiteral (body : String) : Except Error String :=
  (decodeEscapes body.toList).map textOf

end SdkBindings.Constant
