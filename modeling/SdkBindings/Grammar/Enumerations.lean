import SdkBindings.Declaration.Header
import SdkBindings.Grammar.Session

/-!
# Enumerations

The constants of an enumeration are read and valued one by one, so that the expression of one can
use those before it.  A constant without an expression follows the one before it; where that one has
no number, or the largest one, the text of its expression is carried on instead.
-/

namespace SdkBindings.Grammar

open Reader

/-- A constant as written: its name, its expression if it has one, and whether it is the last. -/
structure WrittenEnumerator where
  /-- The name. -/
  ident : String
  /-- The tokens of the expression. -/
  expression : Option (List Token)
  /-- Whether the closing brace follows. -/
  isLast : Bool
  deriving DecidableEq, Repr

/-- Whether a token ends an expression. -/
def endsExpression (token : Token) : Bool :=
  token.text = "," || token.text = "\x7d"

/-- Reads the expression of a constant and the token that ends it. -/
def enumExpression (ident : String) : Reader (List Token × Token) := do
  let context := "value of enum field " ++ ident
  let c ← get
  let covered := c.ahead.takeWhile fun token => !endsExpression token
  set { c with passed := covered.reverse ++ c.passed, ahead := c.ahead.drop covered.length }
  let expression := covered.filter fun token => !token.isLineEnd
  let token ← next
  if token.kind = .eof then fail token "\x7d" context
  if expression = [] then fail token "expression" context
  pure (expression, token)

/-- Reads one constant, or nothing when the closing brace is next. -/
def writtenEnumerator (enum : String) : Reader (Option WrittenEnumerator) := do
  let token ← next
  if token.text = "\x7d" then pure none
  else do
    if token.kind ≠ .ident then fail token "enumerator" ("enum " ++ enum)
    let separator ← next
    if separator.text = "=" then do
      let (expression, last) ← enumExpression token.text
      pure (some ⟨token.text, some expression, last.text = "\x7d"⟩)
    else if endsExpression separator then
      pure (some ⟨token.text, none, separator.text = "\x7d"⟩)
    else fail separator "=" ("after enum field " ++ token.text)

/-- The value of a constant without an expression, from the one before it. -/
def followingValue : Option Value → Value
  | none => .ofNumber 0 ""
  | some previous =>
    match previous.uint32 with
    | some n => if n < 0xFFFFFFFF then .ofNumber (n + 1) "" else .ofRaw ("(" ++ previous.raw ++ ") + 1")
    | none => .ofRaw ("(" ++ previous.raw ++ ") + 1")

/-- The value of a constant with an expression; one that is left alone keeps its text. -/
def expressionValue [Host] (tokens : List Token) : InSession Value := do
  let table ← symbols
  let value ← evaluated (Constant.notes table tokens) (Constant.evaluate table tokens) fun e =>
    debug ("Keeping raw enum value " ++ Text.quote (Token.join tokens) ++ ": " ++ e.message)
  pure (value.getD (.ofRaw (Token.join tokens)))

/-- The value of a written constant, which becomes known under its name if it is resolved. -/
def enumeratorValue [Host] (previous : Option Value) (written : WrittenEnumerator) : InSession Value := do
  let value ←
    match written.expression with
    | some tokens => expressionValue tokens
    | none => pure (followingValue previous)
  if value.isResolved then define written.ident value
  pure value

/-- The constants up to the closing brace; `previous` is the value of the one before them. -/
def enumerators [Host] (enum : String) (bound : Nat) (previous : Option Value) :
    Statement (List Enumerator) :=
  match bound with
  | 0 => pure []
  | bound + 1 => do
    match ← read (writtenEnumerator enum) with
    | none => pure []
    | some written =>
      let value ← enumeratorValue previous written
      let enumerator : Enumerator := ⟨written.ident, value⟩
      if written.isLast then pure [enumerator]
      else do
        let rest ← enumerators enum bound (some value)
        pure (enumerator :: rest)

/-- An enumeration after its opening brace. -/
def enumeration [Host] (tag : String) : Statement Enumeration := do
  let bound ← read ahead
  let list ← enumerators tag (bound + 1) none
  let name ← read (expectKind .ident "enum name")
  let _ ← read (expect ";" ("end of enum " ++ name.text))
  pure ⟨name.text, list⟩

end SdkBindings.Grammar
