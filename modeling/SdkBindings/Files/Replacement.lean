import SdkBindings.Numeral.Integer
import SdkBindings.Text.IdentifierCharacter
import SdkBindings.Text.Quoted

/-!
# Replacement texts

What replaces a run of characters is written as a text with escapes.  A backslash and a letter stand
for a control character, a backslash and octal digits for the character with that number, and
`\g<0>` for the run that is replaced.  There is no numbered group to refer to, so any other reference
is an error, and so is a backslash before a letter without a meaning.

A replacement is read with one unit of look-ahead, a unit being a character or a backslash with the
character after it.  A backslash at the very end is an error as soon as the look-ahead meets it, before
the unit in front of it is judged.
-/

namespace SdkBindings.Replacement

/-- A part of a replacement. -/
inductive Piece where
  /-- A character. -/
  | char (c : Char)
  /-- The run that is replaced. -/
  | run
  deriving DecidableEq, Repr

/-- What a replacement makes of a run. -/
def expand (pieces : List Piece) (run : List Char) : List Char :=
  pieces.flatMap fun
    | .char c => [c]
    | .run => run

/-- What is wrong at a position of a replacement. -/
inductive Fault where
  /-- Nothing is there to be repeated. -/
  | nothingToRepeat
  /-- The replacement ends in a backslash. -/
  | danglingEscape
  /-- A reference without its opening bracket. -/
  | missingBracket
  /-- A reference without a name. -/
  | missingName
  /-- A name without its closing bracket. -/
  | unterminatedName
  /-- A name that is neither a number nor an identifier. -/
  | badName (name : String)
  /-- A reference to a group that does not exist. -/
  | noSuchGroup (index : Int)
  /-- An octal number past the last byte. -/
  | octalTooLarge (text : String)
  /-- An escape without a meaning. -/
  | badEscape (text : String)
  deriving DecidableEq, Repr

/-- The fault in words. -/
def Fault.description : Fault → String
  | .nothingToRepeat => "nothing to repeat"
  | .danglingEscape => "bad escape (end of pattern)"
  | .missingBracket => "missing <"
  | .missingName => "missing group name"
  | .unterminatedName => "missing >, unterminated name"
  | .badName name => "bad character in group name " ++ Text.quote name
  | .noSuchGroup index => "invalid group reference " ++ toString index
  | .octalTooLarge text => "octal escape value " ++ text ++ " outside of range 0-0o377"
  | .badEscape text => "bad escape " ++ text

/-- Why a replacement cannot be used. -/
inductive Error where
  /-- A fault at a position of the text. -/
  | malformed (fault : Fault) (position : Nat) (text : String)
  /-- A reference by a name, while no group has one. -/
  | unknownGroup (name : String)
  deriving DecidableEq, Repr

/-- Where a position is in a text of several lines. -/
def linePosition (position : Nat) (text : List Char) : String :=
  let before := text.take position
  " (line " ++ toString (before.count '\n' + 1) ++ ", column " ++
    toString ((before.reverse.takeWhile (· ≠ '\n')).length + 1) ++ ")"

/-- The error as a message. -/
def Error.message : Error → String
  | .malformed fault position text =>
    fault.description ++ " at position " ++ toString position ++
      if '\n' ∈ text.toList then linePosition position text.toList else ""
  | .unknownGroup name => "unknown group name " ++ Text.quote name

/-! ## Units -/

/-- What is read at a time. -/
inductive Lexeme where
  /-- A character. -/
  | char (c : Char)
  /-- A backslash and a character. -/
  | escape (c : Char)
  /-- A backslash at the very end. -/
  | dangling
  deriving DecidableEq, Repr

/-- The unit as it is written. -/
def Lexeme.text : Lexeme → List Char
  | .char c => [c]
  | .escape c => ['\\', c]
  | .dangling => ['\\']

/-- The units of a text. -/
def lexemes : List Char → List Lexeme
  | '\\' :: c :: rest => .escape c :: lexemes rest
  | ['\\'] => [.dangling]
  | c :: rest => .char c :: lexemes rest
  | [] => []

/-- The units of a text, written one after the other, are the text. -/
theorem flatMap_text_lexemes (text : List Char) : (lexemes text).flatMap Lexeme.text = text := by
  fun_induction lexemes text with
  | case1 c rest ih => simp [Lexeme.text, ih]
  | case2 => rfl
  | case3 c rest _ _ ih => simp [Lexeme.text, ih]
  | case4 => rfl

/-- A replacement that is being read. -/
structure Source where
  /-- The whole text. -/
  text : String
  /-- The units that are left. -/
  rest : List Lexeme

namespace Source

/-- The position of the next unit. -/
def position (s : Source) : Nat :=
  s.text.length - (s.rest.flatMap Lexeme.text).length

/-- An error some characters before the next unit. -/
def fail {α : Type} (s : Source) (fault : Fault) (back : Nat) : Except Error α :=
  .error (.malformed fault (s.position - back) s.text)

/-- A source whose next unit has been looked at. -/
def looked (s : Source) : Except Error Source :=
  if s.rest.head? = some .dangling then s.fail .danglingEscape 0 else .ok s

/-- The next unit, and the source after it. -/
def next (s : Source) : Except Error (Option Lexeme × Source) := do
  let after ← looked { s with rest := s.rest.tail }
  pure (s.rest.head?, after)

/-- The digit that comes next, of those that are allowed. -/
def digit? (s : Source) (isDigit : Char → Bool) : Option Char :=
  match s.rest.head? with
  | some (.char c) => if isDigit c then some c else none
  | _ => none

end Source

/-! ## Reading -/

/-- Whether a character is an octal digit. -/
def isOctal (c : Char) : Bool :=
  '0' ≤ c && c ≤ '7'

/-- The number written with octal or decimal digits. -/
def digitsValue (base : Nat) (digits : List Char) : Nat :=
  digits.foldl (fun n c => n * base + (c.toNat - '0'.toNat)) 0

/-- The control characters with an escape of their own, and the backslash. -/
def escapes : List (Char × Char) :=
  [('a', '\x07'), ('b', '\x08'), ('f', '\x0c'), ('n', '\n'), ('r', '\r'), ('t', '\t'),
    ('v', '\x0b'), ('\\', '\\')]

/-- A name up to its closing bracket; `fuel` bounds the units that are read. -/
def readName (fuel : Nat) (s : Source) (name : List Char) : Except Error (List Char × Source) :=
  match fuel with
  | 0 => s.fail .unterminatedName name.length
  | fuel + 1 => do
    let (unit?, after) ← s.next
    match unit? with
    | none =>
      if name = [] then after.fail .missingName 0 else after.fail .unterminatedName name.length
    | some unit =>
      if unit = .char '>' then
        if name = [] then after.fail .missingName 1 else pure (name, after)
      else readName fuel after (name ++ unit.text)

/-- A reference by name or number, after its letter. -/
def readReference (s : Source) : Except Error (Piece × Source) :=
  if s.rest.head? = some (.char '<') then do
    let (_, s) ← s.next
    let (name, s) ← readName (s.rest.length + 1) s []
    let text := String.ofList name
    if Text.isIdentifier text then .error (.unknownGroup text)
    else
      match Numeral.decimalInteger? name with
      | some 0 => pure (.run, s)
      | some (.ofNat index) => s.fail (.noSuchGroup index) (name.length + 1)
      | _ => s.fail (.badName text) (name.length + 1)
  else s.fail .missingBracket 0

/-- A character by up to two octal digits after a zero. -/
def readZero (s : Source) : Except Error (Piece × Source) :=
  let piece (digits : List Char) : Piece := .char (Char.ofNat (digitsValue 8 digits % 256))
  match s.digit? isOctal with
  | none => .ok (piece [], s)
  | some c => do
    let (_, s) ← s.next
    match s.digit? isOctal with
    | none => pure (piece [c], s)
    | some d => do
      let (_, s) ← s.next
      pure (piece [c, d], s)

/-- A character by three octal digits, the first of which is not zero; any other number refers to a
group, and there is none. -/
def readNumber (s : Source) (first : Char) : Except Error (Piece × Source) :=
  match s.digit? Char.isDigit with
  | none => s.fail (.noSuchGroup (digitsValue 10 [first])) 1
  | some second => do
    let (_, s) ← s.next
    match s.digit? isOctal with
    | some third =>
      if isOctal first && isOctal second then do
        let (_, s) ← s.next
        let code := digitsValue 8 [first, second, third]
        if code > 255 then
          s.fail (.octalTooLarge (String.ofList ['\\', first, second, third])) 4
        else pure (.char (Char.ofNat code), s)
      else s.fail (.noSuchGroup (digitsValue 10 [first, second])) 2
    | none => s.fail (.noSuchGroup (digitsValue 10 [first, second])) 2

/-- The pieces that an escape stands for. -/
def readEscape (s : Source) (c : Char) : Except Error (List Piece × Source) :=
  if c = 'g' then do
    let (piece, s) ← readReference s
    pure ([piece], s)
  else if c = '0' then do
    let (piece, s) ← readZero s
    pure ([piece], s)
  else if c.isDigit then do
    let (piece, s) ← readNumber s c
    pure ([piece], s)
  else
    match escapes.lookup c with
    | some control => .ok ([.char control], s)
    | none =>
      if c.isAlpha then s.fail (.badEscape (String.ofList ['\\', c])) 2
      else .ok ([.char '\\', .char c], s)

/-- The pieces of what is left; `fuel` bounds the units that are read. -/
def readPieces (fuel : Nat) (s : Source) : Except Error (List Piece) :=
  match fuel with
  | 0 => .ok []
  | fuel + 1 => do
    let (unit?, s) ← s.next
    match unit? with
    | none => pure []
    | some (.escape c) => do
      let (pieces, s) ← readEscape s c
      let more ← readPieces fuel s
      pure (pieces ++ more)
    | some unit => do
      let more ← readPieces fuel s
      pure (unit.text.map Piece.char ++ more)

/-- Reads a replacement. -/
def read (text : String) : Except Error (List Piece) := do
  let s ← Source.looked ⟨text, lexemes text.toList⟩
  readPieces (s.rest.length + 1) s

end SdkBindings.Replacement
