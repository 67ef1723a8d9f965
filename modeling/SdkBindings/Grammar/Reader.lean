import SdkBindings.Constant.Error
import SdkBindings.Token.Cursor

/-!
# Reading with a cursor

A reader moves a cursor or fails, with a syntax error unless the length of an array has more digits
than the host reads.  All reads pass over line ends unless they say otherwise.  Loops are bounded by
the number of tokens ahead: every round reads at least one token, and the end of the header ends each
loop on its own, so the bound is never what stops one.
-/

namespace SdkBindings.Grammar

/-- Why a header could not be read. -/
inductive Failure where
  /-- It does not follow the grammar. -/
  | grammar (e : SyntaxError)
  /-- A number or a constant expression stops the run. -/
  | constant (e : Constant.Error)
  /-- An interface identifier belongs to no struct of the header. -/
  | unresolvedGuid (file interface : String)
  deriving DecidableEq, Repr

/-- The failure as a message. -/
def Failure.message : Failure → String
  | .grammar e => e.message
  | .constant e => e.message
  | .unresolvedGuid file interface =>
    file ++ ": GUID for " ++ interface ++ " matches no declared struct"

/-- A step of the grammar: it moves the cursor and gives a result, or fails. -/
abbrev Reader := StateT Cursor (Except Failure)

namespace Reader

/-- Fails at a token. -/
def fail {α : Type} (token : Token) (expected context : String) : Reader α := do
  let c ← get
  throw (.grammar (c.unexpected token expected context))

/-- Reads the next token. -/
def next : Reader Token := fun c => .ok (c.next .code)

/-- Reads the next token of the line, which may be its end. -/
def nextInLine : Reader Token := fun c => .ok (c.next .line)

/-- The next token, which stays ahead. -/
def peek : Reader Token := fun c => .ok (c.peek .code)

/-- The token after the next one; nothing is read. -/
def peekSecond : Reader Token := fun c => .ok (c.peekAhead 1 .code, c)

/-- Reads the rest of the line. -/
def readLine : Reader (List Token) := fun c => .ok c.readLine

/-- The number of tokens ahead. -/
def ahead : Reader Nat := fun c => .ok (c.ahead.length, c)

/-- Reads a token that has to have a text. -/
def expect (text context : String) : Reader Token := do
  let token ← next
  if token.text = text then pure token else fail token text context

/-- Reads a token that has to be of a kind. -/
def expectKind (kind : Token.Kind) (context : String) : Reader Token := do
  let token ← next
  if token.kind = kind then pure token else fail token kind.name context

end Reader

end SdkBindings.Grammar
