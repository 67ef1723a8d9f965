import SdkBindings.Constant.Escape
import SdkBindings.Constant.Postfix
import SdkBindings.Constant.Value
import SdkBindings.Log
import SdkBindings.Numeral.Decimal

/-!
# Evaluating constant expressions

A postfix form runs on a stack of numbers.  An operand is a hexadecimal literal, a decimal integer,
a fraction, a character literal or a name from the table of symbols, with unary operators in front
of it, the nearest of which applies first.  The value of an expression is a number only if that
number is an integer of 32 unsigned bits; otherwise just the written form is kept.

Hexadecimal literals are reported with the width their number of digits suggests.  These reports do
not influence any value, so they are computed on their own, by `notes`.
-/

namespace SdkBindings.Constant

open Numeral Text

/-! ## Literals -/

/-- The width in bits that a number of hexadecimal digits suggests. -/
def hexWidth? (size : Nat) : Option Nat :=
  if size = 0 then none
  else if size ≤ 2 then some 8
  else if size ≤ 4 then some 16
  else if size ≤ 8 then some 32
  else none

/-- Whether a text starts like a hexadecimal literal. -/
def isHexLiteral : List Char → Bool
  | '0' :: x :: _ => x = 'x' || x = 'X'
  | _ => false

/-- The digits of a hexadecimal literal, without the prefix and one suffix. -/
def hexLiteralDigits (text : List Char) : List Char :=
  let digits := text.drop 2
  if digits.getLast? = some 'L' then digits.dropLast else digits

/-- The value of a hexadecimal literal and the width it suggests. -/
def hexLiteral (text : String) : Except Error (Int × Nat) :=
  if isHexLiteral text.toList then
    let digits := hexLiteralDigits text.toList
    match hexWidth? digits.length with
    | none => .error (.hexadecimalSize text digits.length)
    | some width =>
      match readInteger? 16 digits with
      | some n => .ok (n, width)
      | none => .error (.invalidHexadecimal text)
  else .error (.notHexadecimal text)

/-- What is reported about a hexadecimal literal that has a value. -/
def hexNote (text : String) : Log :=
  match hexLiteral text with
  | .ok (n, width) =>
    [debug ("Hex literal " ++ text ++ " parsed as " ++ toString width ++ "-bit value " ++ toString n)]
  | .error _ => []

/-- The number of a character literal. -/
def characterLiteral (text : String) : Except Error Int := do
  let inner ← decodeEscapes (text.toList.drop 1).dropLast
  match inner with
  | [n] => pure n
  | _ => .error (.characterLiteral text)

/-- The number that a name stands for. -/
def lookup (symbols : SymbolTable) (name : String) : Except Error Int :=
  match symbols.number? name with
  | some n => .ok n
  | none => .error (.unresolved name)

section

variable [Host]

/-! ## Operands -/

/-- The unary operators in front of an operand and the bare operand. -/
def splitUnary : List Char → List UnaryOp × List Char
  | [] => ([], [])
  | c :: rest =>
    match UnaryOp.ofChar? c with
    | some op =>
      let (ops, body) := splitUnary rest
      (op :: ops, body)
    | none => ([], c :: rest)

/-- The number of an operand without unary operators. -/
def bareOperand (symbols : SymbolTable) (body : List Char) : Except Error Number :=
  let text := String.ofList body
  if isHexLiteral body then (hexLiteral text).map fun value => .int value.1
  else if isDigits body then
    match decimalInteger? body with
    | some n => .ok (.int n)
    | none => .error (.ofDecimalInteger text)
  else if (body.take 1).any fun c => isDigitLike c || c = '.' then
    match readDecimal? body with
    | some x => .ok (.real x)
    | none => .error (.invalidNumber text)
  else if body.take 1 = ['\''] then (characterLiteral text).map .int
  else (lookup symbols text).map .int

/-- Applies unary operators, the last of the list first. -/
def applyUnary : List UnaryOp → Number → Except Error Number
  | [], x => .ok x
  | op :: ops, x => do
    let y ← applyUnary ops x
    op.apply y

/-- The number of an operand. -/
def operandValue (symbols : SymbolTable) (text : String) : Except Error Number := do
  let (ops, body) := splitUnary text.toList
  let x ← bareOperand symbols body
  applyUnary ops x

/-! ## Running a postfix form -/

/-- The effect of one entry on the stack. -/
def Item.step (symbols : SymbolTable) : Item → List Number → Except Error (List Number)
  | .operand text, stack => do
    let x ← operandValue symbols text
    pure (x :: stack)
  | .unary text, x :: stack => do
    let y ← (UnaryOp.ofText text).apply x
    pure (y :: stack)
  | .unary text, [] => .error (.unaryWithoutOperand text)
  | .binary text, y :: x :: stack =>
    match BinaryOp.ofText? text with
    | some op => do
      let z ← op.apply x y
      pure (z :: stack)
    | none => .error (.unhandledOperator text)
  | .binary text, _ => .error (.binaryWithoutOperands text)

/-- Runs a postfix form on a stack. -/
def run (symbols : SymbolTable) : List Item → List Number → Except Error (List Number)
  | [], stack => .ok stack
  | item :: items, stack => do
    let stack ← item.step symbols stack
    run symbols items stack

/-- The number that a postfix form leaves. -/
def evaluatePostfix (symbols : SymbolTable) (items : List Item) : Except Error Number := do
  let stack ← run symbols items []
  match stack with
  | [x] => pure x
  | _ => .error (.stackSize stack.length)

/-- What is reported about the literals of an entry. -/
def Item.notes : Item → Log
  | .operand text =>
    let body := (splitUnary text.toList).2
    if isHexLiteral body then hexNote (String.ofList body) else []
  | _ => []

/-- What is reported while a postfix form runs, up to a failure. -/
def postfixNotes (symbols : SymbolTable) : List Item → List Number → Log
  | [], _ => []
  | item :: items, stack =>
    item.notes ++
      match item.step symbols stack with
      | .ok stack => postfixNotes symbols items stack
      | .error _ => []

end

/-! ## Expressions -/

/-- The string literal that a run of tokens consists of, possibly after the prefix `L`.  A string
literal next to anything else is an error. -/
def stringLiteral? (tokens : List Token) : Except Error (Option String) :=
  let literal (token : Token) : Except Error (Option String) :=
    (decodeEscapes (token.text.toList.drop 1).dropLast).map (some <| textOf ·)
  if tokens.any (·.kind = .string) then
    match tokens with
    | [token] => literal token
    | [first, token] =>
      if first.text = "L" ∧ token.kind = .string then literal token
      else .error (.stringInExpression (Token.join tokens))
    | _ => .error (.stringInExpression (Token.join tokens))
  else .ok none

/-- The value of an expression whose number is known. -/
def numberValue (x : Number) (raw : String) : Value :=
  let integer? : Option Int := match x with
    | .int n => some n
    | .real x => if (Real64.ofFloat x).isInteger then (Number.real x).trunc.toOption else none
  (integer?.bind (Value.ofUInt32? · raw)).getD (.ofRaw raw)

/-- The value of a run of tokens. -/
def evaluate [Host] (symbols : SymbolTable) (tokens : List Token) : Except Error Value := do
  let raw := Token.join tokens
  match ← stringLiteral? tokens with
  | some text => pure (.ofText text raw)
  | none =>
    let items ← toPostfix tokens
    let x ← evaluatePostfix symbols items
    pure (numberValue x raw)

/-- What is reported while a run of tokens is evaluated. -/
def notes [Host] (symbols : SymbolTable) (tokens : List Token) : Log :=
  match stringLiteral? tokens, toPostfix tokens with
  | .ok none, .ok items => postfixNotes symbols items []
  | _, _ => []

/-! ## Macros -/

/-- The name right before a parenthesis that is adjacent to it, if there is one. -/
def callee? : List Token → Option String
  | previous :: token :: rest =>
    if token.text = "(" ∧ previous.kind = .ident ∧ token.isAdjacentTo previous then
      some previous.text
    else callee? (token :: rest)
  | _ => none

/-- Why a macro body is not an expression at all: it is empty, it starts with the parameters of the
macro, or it calls something. -/
def macroShape (name : Token) (body : List Token) : Except Error Unit :=
  match body with
  | [] => .error (.emptyBody name.text)
  | first :: _ =>
    if first.text = "(" ∧ first.isAdjacentTo name then .error (.functionLike name.text)
    else
      match callee? body with
      | some callee => .error (.functionCall name.text callee)
      | none => .ok ()

/-- The value of a macro. -/
def evaluateMacro [Host] (symbols : SymbolTable) (name : Token) (body : List Token) :
    Except Error Value := do
  macroShape name body
  evaluate symbols body

/-- What is reported while a macro is evaluated. -/
def macroNotes [Host] (symbols : SymbolTable) (name : Token) (body : List Token) : Log :=
  match macroShape name body with
  | .ok () => notes symbols body
  | .error _ => []

end SdkBindings.Constant
