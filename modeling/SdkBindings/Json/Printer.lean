import SdkBindings.Text.Hexadecimal

/-!
# JSON values and their text

The values a dump is made of hold integers of any size and no other numbers, because a dump holds no
others, and the members of an object keep their order.

JSON text is ASCII: a text is written between double quotation marks with a short escape where there
is one and with `\uXXXX` for every other character outside the printable ASCII range, a character
past U+FFFF as two surrogates.  A value is written over several lines.  Each nested line is indented
by a number of spaces per level, by none when that number is zero or negative; empty lists and
objects stay on one line.
-/

namespace SdkBindings

/-- A JSON value. -/
inductive Json where
  /-- The absent value. -/
  | null
  /-- A truth value. -/
  | bool (value : Bool)
  /-- An integer. -/
  | int (value : Int)
  /-- A text. -/
  | string (value : String)
  /-- A list. -/
  | array (items : List Json)
  /-- Named members in order. -/
  | object (members : List (String × Json))
  deriving Repr

/-- The value of something that may be absent. -/
def Json.ofOption {α : Type} (f : α → Json) : Option α → Json
  | none => .null
  | some a => f a

namespace Json

open Text

/-- One UTF-16 unit by its number. -/
def unitEscape (n : Nat) : List Char :=
  '\\' :: 'u' :: hexDigits 4 n

/-- How a character is written inside a text. -/
def escapeChar (c : Char) : List Char :=
  if c = '"' then ['\\', '"']
  else if c = '\\' then ['\\', '\\']
  else if c = '\n' then ['\\', 'n']
  else if c = '\r' then ['\\', 'r']
  else if c = '\t' then ['\\', 't']
  else if c = '\x0c' then ['\\', 'f']
  else if c = '\x08' then ['\\', 'b']
  else if 0x20 ≤ c.toNat ∧ c.toNat ≤ 0x7E then [c]
  else if c.toNat < 0x10000 then unitEscape c.toNat
  else
    let n := c.toNat - 0x10000
    unitEscape (0xD800 + n / 0x400) ++ unitEscape (0xDC00 + n % 0x400)

/-- A text between quotation marks. -/
def quote (text : String) : List Char :=
  '"' :: text.toList.flatMap escapeChar ++ ['"']

/-- A line break followed by the indentation of a level. -/
def lineBreak (indent : Int) (level : Nat) : List Char :=
  '\n' :: List.replicate (indent.toNat * level) ' '

mutual
/-- A value whose lines are indented from a level on. -/
def print (indent : Int) (level : Nat) : Json → List Char
  | .null => "null".toList
  | .bool true => "true".toList
  | .bool false => "false".toList
  | .int n => (toString n).toList
  | .string s => quote s
  | .array [] => "[]".toList
  | .array (item :: items) =>
    '[' :: lineBreak indent (level + 1) ++ print indent (level + 1) item ++
      printItems indent (level + 1) items ++ lineBreak indent level ++ [']']
  | .object [] => ['\x7b', '\x7d']
  | .object (member :: members) =>
    '\x7b' :: lineBreak indent (level + 1) ++ printMember indent (level + 1) member ++
      printMembers indent (level + 1) members ++ lineBreak indent level ++ ['\x7d']

/-- The further items of a list, each after a comma and on its own line. -/
def printItems (indent : Int) (level : Nat) : List Json → List Char
  | [] => []
  | item :: items =>
    ',' :: lineBreak indent level ++ print indent level item ++ printItems indent level items

/-- A member of an object: its name and its value. -/
def printMember (indent : Int) (level : Nat) : String × Json → List Char
  | (name, value) => quote name ++ ':' :: ' ' :: print indent level value

/-- The further members of an object, each after a comma and on its own line. -/
def printMembers (indent : Int) (level : Nat) : List (String × Json) → List Char
  | [] => []
  | member :: members =>
    ',' :: lineBreak indent level ++ printMember indent level member ++
      printMembers indent level members
end

section

variable (indent : Int) (level : Nat)

/-- What is written for a number. -/
theorem print_int (n : Int) : print indent level (.int n) = (toString n).toList := rfl

/-- What is written for a text. -/
theorem print_string (s : String) : print indent level (.string s) = quote s := rfl

/-- What is written for a list with items. -/
theorem print_array (item : Json) (items : List Json) :
    print indent level (.array (item :: items)) =
      '[' :: lineBreak indent (level + 1) ++ print indent (level + 1) item ++
        printItems indent (level + 1) items ++ lineBreak indent level ++ [']'] := rfl

/-- What is written for an object with members. -/
theorem print_object (member : String × Json) (members : List (String × Json)) :
    print indent level (.object (member :: members)) =
      '\x7b' :: lineBreak indent (level + 1) ++ printMember indent (level + 1) member ++
        printMembers indent (level + 1) members ++ lineBreak indent level ++ ['\x7d'] := rfl

/-- What is written for a member. -/
theorem printMember_mk (name : String) (value : Json) :
    printMember indent level (name, value) =
      quote name ++ ':' :: ' ' :: print indent level value := rfl

/-- Nothing is written where there are no further items. -/
theorem printItems_nil : printItems indent level [] = [] := rfl

/-- What is written for a further item. -/
theorem printItems_cons (item : Json) (items : List Json) :
    printItems indent level (item :: items) =
      ',' :: lineBreak indent level ++ print indent level item ++ printItems indent level items := rfl

/-- Nothing is written where there are no further members. -/
theorem printMembers_nil : printMembers indent level [] = [] := rfl

/-- What is written for a further member. -/
theorem printMembers_cons (member : String × Json) (members : List (String × Json)) :
    printMembers indent level (member :: members) =
      ',' :: lineBreak indent level ++ printMember indent level member ++
        printMembers indent level members := rfl

end

/-- The text of a value, indented by `indent` spaces per level. -/
def render (indent : Int) (value : Json) : String :=
  String.ofList (value.print indent 0)

/-- A text as a JSON literal. -/
def renderText (text : String) : String :=
  String.ofList (quote text)

example : renderText "a\"\x7f😀" = "\"a\\\"\\u007f\\ud83d\\ude00\"" := by decide +kernel

end Json

end SdkBindings
