import SdkBindings.Token.Basic

/-!
# A cursor over tokens

The grammar reads tokens through a cursor: a list of tokens already passed and a list of tokens
ahead, with the end of the header kept apart because it is never passed.  Line ends matter inside
directives only, so every read says how it treats them: in code mode it passes over them, in line
mode it returns them.
-/

namespace SdkBindings

/-- How a read treats line ends. -/
inductive Cursor.Mode where
  /-- Line ends are passed over. -/
  | code
  /-- Line ends are returned. -/
  | line
  deriving DecidableEq, Repr

/-- A place between the tokens of a header. -/
structure Cursor where
  /-- The header, for error messages. -/
  file : String
  /-- The tokens passed so far, the latest first. -/
  passed : List Token
  /-- The tokens ahead, without the end of the header. -/
  ahead : List Token
  /-- The end of the header. -/
  eof : Token
  deriving DecidableEq, Repr

namespace Cursor

/-- A cursor at the start of a list of tokens, which has to end with the end of the header. -/
def ofTokens? (file : String) (tokens : List Token) : Option Cursor :=
  match tokens.getLast? with
  | some last => if last.kind = .eof then some ⟨file, [], tokens.dropLast, last⟩ else none
  | none => none

/-- How many tokens have been passed. -/
def index (c : Cursor) : Nat :=
  c.passed.length

/-- Passes over the line ends at the front of `ahead`. -/
def skipLineEnds (c : Cursor) : Cursor :=
  let ends := c.ahead.takeWhile Token.isLineEnd
  { c with passed := ends.reverse ++ c.passed, ahead := c.ahead.drop ends.length }

/-- Brings the cursor to the token that a read in the given mode returns. -/
def settle (mode : Mode) (c : Cursor) : Cursor :=
  match mode with
  | .code => c.skipLineEnds
  | .line => c

/-- The token at the cursor; the end of the header once nothing is ahead. -/
def current (c : Cursor) : Token :=
  match c.ahead with
  | token :: _ => token
  | [] => c.eof

/-- Moves past the token at the cursor; at the end of the header nothing moves. -/
def advance (c : Cursor) : Cursor :=
  match c.ahead with
  | token :: rest => { c with passed := token :: c.passed, ahead := rest }
  | [] => c

/-- The token a read would return, and the cursor brought to it. -/
def peek (c : Cursor) (mode : Mode) : Token × Cursor :=
  let c := c.settle mode
  (c.current, c)

/-- Reads one token. -/
def next (c : Cursor) (mode : Mode) : Token × Cursor :=
  let c := c.settle mode
  (c.current, c.advance)

/-- The token that comes `offset` places after the current one when reading in a mode; the end of
the header past the last one. -/
def peekAhead (c : Cursor) (offset : Nat) (mode : Mode) : Token :=
  let visible : List Token := match mode with
    | .code => c.ahead.filter fun token => !token.isLineEnd
    | .line => c.ahead
  (visible[offset]?).getD c.eof

/-- The token passed last, line ends included. -/
def previous? (c : Cursor) : Option Token :=
  c.passed.head?

/-- Whether only line ends are ahead; they are passed over. -/
def atEnd (c : Cursor) : Bool × Cursor :=
  let (token, c) := c.peek .code
  (token.kind = .eof, c)

/-- Reads the tokens up to the end of the line, which is passed. -/
def readLine (c : Cursor) : List Token × Cursor :=
  let line := c.ahead.takeWhile fun token => !token.isLineEnd
  let c := { c with passed := line.reverse ++ c.passed, ahead := c.ahead.drop line.length }
  (line, c.advance)

/-- The error of finding a token where something else should stand. -/
def unexpected (c : Cursor) (token : Token) (expected context : String) : SyntaxError :=
  token.unexpected c.file expected context

end Cursor

end SdkBindings
