import SdkBindings.Json.Printer
import SdkBindings.Proofs.Literals.Emission

/-!
# Reading JSON

A reader of JSON text by the grammar of the standard: blanks may stand between any two parts, a text
has all its escapes, a character that is written as two surrogates is put together again, and names
of members keep their order.  Numbers with a fraction or an exponent are refused, because a `Json` value
holds integers; so are surrogates without their counterpart, which are no characters.

The reader does not know how a document was written.  Its recursion is bounded by a number of steps;
every step takes a character, so the length of the text is enough (`read?`).
-/

namespace SdkBindings.Json

open Text

/-! ## Texts -/

/-- The letters behind a backslash, with the units that they stand for. -/
def letterUnits : List (Char × Nat) :=
  [('"', 0x22), ('\\', 0x5C), ('/', 0x2F), ('b', 0x08), ('f', 0x0C), ('n', 0x0A), ('r', 0x0D),
    ('t', 0x09)]

/-- The units of a text up to its closing mark, and what follows. -/
def readUnits? : List Char → Option (List Nat × List Char)
  | [] => none
  | '"' :: rest => some ([], rest)
  | '\\' :: 'u' :: i :: j :: k :: l :: rest =>
    if [i, j, k, l].all isHexDigit then
      (readUnits? rest).map fun (units, rest) =>
        (Constant.digitsNumber 16 hexValue? [i, j, k, l] :: units, rest)
    else none
  | '\\' :: l :: rest =>
    (letterUnits.lookup l).bind fun n => (readUnits? rest).map fun (units, rest) => (n :: units, rest)
  | c :: rest =>
    if c.toNat < 0x20 then none
    else (readUnits? rest).map fun (units, rest) => (Module.utf16 c ++ units, rest)

/-- The characters of some units, if each surrogate has its counterpart. -/
def characters? : List Nat → Option (List Char)
  | [] => some []
  | [n] => if n < 0xD800 ∨ 0xE000 ≤ n then some [Char.ofNat n] else none
  | n :: m :: rest =>
    if n < 0xD800 ∨ 0xE000 ≤ n then (characters? (m :: rest)).map (Char.ofNat n :: ·)
    else if n < 0xDC00 ∧ 0xDC00 ≤ m ∧ m < 0xE000 then
      (characters? rest).map (Char.ofNat (0x10000 + 0x400 * (n - 0xD800) + (m - 0xDC00)) :: ·)
    else none

/-- A text after its opening mark, and what follows. -/
def readText? (text : List Char) : Option (String × List Char) :=
  (readUnits? text).bind fun (units, rest) =>
    (characters? units).map fun characters => (String.ofList characters, rest)

example : readText? "\\ud83d\\ude00\\/\" after".toList = some ("😀/", " after".toList) ∧
    readText? "\\ud83d\"".toList = none := by
  decide

/-! ## Numbers -/

/-- The characters that continue a number. -/
def continuesNumber (c : Char) : Bool :=
  c.isDigit || c = '.' || c = 'e' || c = 'E'

/-- A number without a sign, and what follows.  Nothing follows a zero in front. -/
def readWhole? (text : List Char) : Option (Nat × List Char) :=
  let digits := text.takeWhile Char.isDigit
  let rest := text.dropWhile Char.isDigit
  if digits = [] ∨ (digits.head? = some '0' ∧ digits ≠ ['0']) ∨ rest.head?.any continuesNumber then none
  else some (Nat.ofDigitChars 10 digits 0, rest)

/-- A number, and what follows. -/
def readNumber? : List Char → Option (Int × List Char)
  | '-' :: rest => (readWhole? rest).map fun (n, rest) => (-(n : Int), rest)
  | text => (readWhole? text).map fun (n, rest) => ((n : Int), rest)

example : readNumber? "-70,".toList = some (-70, [',']) ∧ readNumber? "07".toList = none ∧
    readNumber? "7e1".toList = none := by
  decide

/-! ## Values -/

/-- The blanks between the parts of a document. -/
def isBlank (c : Char) : Bool :=
  c = ' ' || c = '\t' || c = '\n' || c = '\r'

/-- What follows the blanks at the start of a text. -/
def skipBlanks (text : List Char) : List Char :=
  text.dropWhile isBlank

/-- The name of a member with the colon behind it, and what follows. -/
def readName? (text : List Char) : Option (String × List Char) :=
  match skipBlanks text with
  | '"' :: rest =>
    (readText? rest).bind fun (name, rest) =>
      match skipBlanks rest with
      | ':' :: rest => some (name, rest)
      | _ => none
  | _ => none

mutual
/-- A value, and what follows. -/
def readValue? : Nat → List Char → Option (Json × List Char)
  | 0, _ => none
  | bound + 1, text =>
    match skipBlanks text with
    | 'n' :: 'u' :: 'l' :: 'l' :: rest => some (.null, rest)
    | 't' :: 'r' :: 'u' :: 'e' :: rest => some (.bool true, rest)
    | 'f' :: 'a' :: 'l' :: 's' :: 'e' :: rest => some (.bool false, rest)
    | '"' :: rest => (readText? rest).map fun (text, rest) => (.string text, rest)
    | '[' :: rest =>
      match skipBlanks rest with
      | ']' :: rest => some (.array [], rest)
      | _ => (readItems? bound rest).map fun (items, rest) => (.array items, rest)
    | '\x7b' :: rest =>
      match skipBlanks rest with
      | '\x7d' :: rest => some (.object [], rest)
      | _ => (readMembers? bound rest).map fun (members, rest) => (.object members, rest)
    | text => (readNumber? text).map fun (n, rest) => (.int n, rest)

/-- The items of a list up to its end, at least one, and what follows. -/
def readItems? : Nat → List Char → Option (List Json × List Char)
  | 0, _ => none
  | bound + 1, text =>
    (readValue? bound text).bind fun (item, rest) =>
      match skipBlanks rest with
      | ',' :: rest => (readItems? bound rest).map fun (items, rest) => (item :: items, rest)
      | ']' :: rest => some ([item], rest)
      | _ => none

/-- The members of an object up to its end, at least one, and what follows. -/
def readMembers? : Nat → List Char → Option (List (String × Json) × List Char)
  | 0, _ => none
  | bound + 1, text =>
    (readName? text).bind fun (name, rest) =>
      (readValue? bound rest).bind fun (value, rest) =>
        match skipBlanks rest with
        | ',' :: rest =>
          (readMembers? bound rest).map fun (members, rest) => ((name, value) :: members, rest)
        | '\x7d' :: rest => some ([(name, value)], rest)
        | _ => none
end

/-- The value of a document: one value with nothing but blanks around it. -/
def read? (document : String) : Option Json :=
  (readValue? document.length document.toList).bind fun (value, rest) =>
    if skipBlanks rest = [] then some value else none

end SdkBindings.Json
