import SdkBindings.Constant.Operator
import SdkBindings.Token.Basic

/-!
# From infix to postfix

A run of tokens is brought into postfix order with a stack of operators that wait for their right
operand.  An operator first releases every waiting one that binds at least as tightly, so equal
levels associate to the left.  Unary operators in front of a bare operand stay part of its text; in
front of a parenthesis they wait below it and are released when it closes.
-/

namespace SdkBindings.Constant

/-- One entry of a postfix form. -/
inductive Item where
  /-- An operand with the unary operators in front of it. -/
  | operand (text : String)
  /-- A unary operator for the value on top of the stack. -/
  | unary (text : String)
  /-- A binary operator for the two values on top of the stack. -/
  | binary (text : String)
  deriving DecidableEq, Repr

/-- The suffixes that a number may carry. -/
def literalSuffixes : List String := ["L", "UL", "U", "LL", "ULL", "f", "F"]

/-- Whether a token is the suffix of the number right before it. -/
def isSuffix (token : Token) (previous : Option Token) : Bool :=
  token.kind = .ident && literalSuffixes.contains token.text &&
    match previous with
    | some p => p.kind = .number && token.isAdjacentTo p
    | none => false

/-- Operators that are written as two tokens. -/
def twoTokenOperators : List String := ["<<", ">>", "||", "&&", "==", "!=", "<=", ">="]

namespace Postfix

/-- Something that waits on the operator stack. -/
inductive Waiting where
  /-- An opening parenthesis. -/
  | group
  /-- A unary operator in front of a parenthesis. -/
  | unary (op : UnaryOp)
  /-- A binary operator that waits for its right operand. -/
  | binary (op : BinaryOp)
  deriving DecidableEq, Repr

namespace Waiting

/-- Whether an operator of a level releases this entry: operators down to the nearest parenthesis
that bind at least as tightly are released. -/
def isReleasedBy (precedence : Nat) : Waiting → Bool
  | .group => false
  | .unary _ => true
  | .binary op => op.precedence ≤ precedence

/-- Whether the entry is a unary operator. -/
def isUnary : Waiting → Bool
  | .unary _ => true
  | _ => false

/-- The entry of the postfix form; a parenthesis has none. -/
def item? : Waiting → Option Item
  | .group => none
  | .unary op => some (.unary op.char.toString)
  | .binary op => some (.binary op.text)

end Waiting

/-- The state between two tokens. -/
structure State where
  /-- The postfix form so far. -/
  output : List Item
  /-- What waits, the latest first. -/
  stack : List Waiting
  /-- Whether an operand has to come next. -/
  expectsOperand : Bool
  /-- Unary operators read since the last operand, in order. -/
  pending : List UnaryOp
  deriving DecidableEq, Repr

/-- Nothing has been read. -/
def State.start : State := ⟨[], [], true, []⟩

/-- Releases the entries of the stack that satisfy a condition, from the top down to the first that
does not. -/
def State.release (s : State) (p : Waiting → Bool) : State :=
  let released := s.stack.takeWhile p
  { s with output := s.output ++ released.filterMap Waiting.item?, stack := s.stack.dropWhile p }

/-- The effect of an operand. -/
def State.operand (s : State) (text : String) : Except Error State :=
  if s.expectsOperand then
    let signed := String.ofList (s.pending.map UnaryOp.char) ++ text
    .ok { s with output := s.output ++ [.operand signed], expectsOperand := false, pending := [] }
  else .error (.missingOperator text)

/-- The effect of an opening parenthesis: the unary operators before it wait below it. -/
def State.openGroup (s : State) : Except Error State :=
  if s.expectsOperand then
    .ok { s with stack := .group :: (s.pending.map Waiting.unary ++ s.stack), pending := [] }
  else .error .callExpression

/-- The effect of a closing parenthesis: it releases everything inside, then the unary operators
that waited for the group. -/
def State.closeGroup (s : State) : Except Error State :=
  let s := s.release (· ≠ .group)
  match s.stack with
  | [] => .error .unbalancedClose
  | _ :: below => .ok { { s with stack := below }.release Waiting.isUnary with expectsOperand := false }

/-- The effect of punctuation that is no parenthesis. -/
def State.operator (s : State) (text : String) : Except Error State :=
  if s.expectsOperand then
    match text.toList with
    | [c] =>
      match UnaryOp.ofChar? c with
      | some op => .ok { s with pending := s.pending ++ [op] }
      | none => .error (.missingOperand text)
    | _ => .error (.missingOperand text)
  else
    match BinaryOp.ofText? text with
    | none => .error (.unsupportedOperator text)
    | some op =>
      let s := s.release (Waiting.isReleasedBy op.precedence)
      .ok { s with stack := .binary op :: s.stack, expectsOperand := true }

/-- The effect of punctuation. -/
def State.punctuation (s : State) (text : String) : Except Error State :=
  if text = "(" then s.openGroup
  else if text = ")" then s.closeGroup
  else s.operator text

/-- Reads the tokens that are left; `previous` is the token before them. -/
def read (s : State) (previous : Option Token) : List Token → Except Error State
  | [] => .ok s
  | token :: rest =>
    if isSuffix token previous then read s (some token) rest
    else if token.kind = .number ∨ token.kind = .ident ∨ token.kind = .char then do
      let s ← s.operand token.text
      read s (some token) rest
    else if token.kind ≠ .punct then .error (.unexpectedToken token.text)
    else
      match rest with
      | [] => s.punctuation token.text
      | next :: rest' =>
        if twoTokenOperators.contains (token.text ++ next.text) then do
          let s ← s.punctuation (token.text ++ next.text)
          read s (some next) rest'
        else do
          let s ← s.punctuation token.text
          read s (some token) (next :: rest')

/-- Releases what still waits at the end. -/
def State.finish (s : State) : Except Error (List Item) :=
  if s.expectsOperand then .error .incomplete
  else if s.stack.contains .group then .error .unbalancedOpen
  else .ok (s.release fun _ => true).output

end Postfix

/-- The postfix form of a run of tokens. -/
def toPostfix (tokens : List Token) : Except Error (List Item) := do
  let s ← Postfix.read .start none tokens
  s.finish

end SdkBindings.Constant
