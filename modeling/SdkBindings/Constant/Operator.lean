import SdkBindings.Constant.Error

/-!
# Operators of constant expressions

Operators have a precedence, in which a lower number binds tighter, and an effect on numbers.  The
order of the levels is the program's own: the logical operators bind tightest and the comparisons by
size loosest.
-/

namespace SdkBindings.Constant

/-- A binary operator. -/
inductive BinaryOp where
  | or | and | eq | ne | bitOr | bitAnd | bitXor | shiftLeft | shiftRight
  | add | sub | div | mul | lt | le | gt | ge
  deriving DecidableEq, Repr

namespace BinaryOp

/-- Every operator. -/
def all : List BinaryOp :=
  [.or, .and, .eq, .ne, .bitOr, .bitAnd, .bitXor, .shiftLeft, .shiftRight, .add, .sub, .div, .mul,
    .lt, .le, .gt, .ge]

/-- How an operator is written. -/
def text : BinaryOp → String
  | .or => "||"
  | .and => "&&"
  | .eq => "=="
  | .ne => "!="
  | .bitOr => "|"
  | .bitAnd => "&"
  | .bitXor => "^"
  | .shiftLeft => "<<"
  | .shiftRight => ">>"
  | .add => "+"
  | .sub => "-"
  | .div => "/"
  | .mul => "*"
  | .lt => "<"
  | .le => "<="
  | .gt => ">"
  | .ge => ">="

/-- The level of an operator; a lower one binds tighter. -/
def precedence : BinaryOp → Nat
  | .or | .and => 2
  | .eq | .ne => 3
  | .bitOr | .bitAnd | .bitXor | .shiftLeft | .shiftRight => 4
  | .add | .sub | .div | .mul => 5
  | .lt | .le | .gt | .ge => 9

/-- The operator that is written in a given way. -/
def ofText? (text : String) : Option BinaryOp :=
  all.find? (·.text = text)

/-- Reading an operator's text gives the operator back. -/
theorem ofText?_text (op : BinaryOp) : ofText? op.text = some op := by
  cases op <;> decide +kernel

/-- The effect of an operator on two numbers. -/
def apply [Host] (op : BinaryOp) (x y : Number) : Except Error Number :=
  let lift : Except Number.Failure Number → Except Error Number := Except.mapError .conversion
  let order := x.compare? y
  match op with
  | .add => lift (Number.onFloats (· + ·) x y)
  | .sub => lift (Number.onFloats (· - ·) x y)
  | .mul => lift (Number.onFloats (· * ·) x y)
  | .div => if y.isTrue then lift (x.quotient y) else .error .divisionByZero
  | .shiftLeft => lift (x.shiftLeft y)
  | .shiftRight => lift (Number.onWords Number.shiftRight x y)
  | .bitOr => lift (Number.onWords (· ||| ·) x y)
  | .bitAnd => lift (Number.onWords (· &&& ·) x y)
  | .bitXor => lift (Number.onWords (· ^^^ ·) x y)
  | .eq => .ok (.ofBool (order = some .eq))
  | .ne => .ok (.ofBool (order ≠ some .eq))
  | .lt => .ok (.ofBool (order = some .lt))
  | .le => .ok (.ofBool (order = some .lt || order = some .eq))
  | .gt => .ok (.ofBool (order = some .gt))
  | .ge => .ok (.ofBool (order = some .gt || order = some .eq))
  | .and => .ok (.ofBool (x.isTrue && y.isTrue))
  | .or => .ok (.ofBool (x.isTrue || y.isTrue))

end BinaryOp

/-- A unary operator. -/
inductive UnaryOp where
  | neg | plus | complement | not
  deriving DecidableEq, Repr

namespace UnaryOp

/-- How an operator is written. -/
def char : UnaryOp → Char
  | .neg => '-'
  | .plus => '+'
  | .complement => '~'
  | .not => '!'

/-- The operator written as one of the four characters. -/
def ofChar? : Char → Option UnaryOp
  | '-' => some .neg
  | '+' => some .plus
  | '~' => some .complement
  | '!' => some .not
  | _ => none

/-- Reading an operator's character gives the operator back. -/
theorem ofChar?_char (op : UnaryOp) : ofChar? op.char = some op := by
  cases op <;> rfl

/-- The operator with a text; every text but three stands for the negation of truth. -/
def ofText (text : String) : UnaryOp :=
  if text = "-" then .neg
  else if text = "+" then .plus
  else if text = "~" then .complement
  else .not

/-- The effect of an operator on a number. -/
def apply (op : UnaryOp) (x : Number) : Except Error Number :=
  match op with
  | .neg => .ok x.neg
  | .plus => .ok x
  | .complement => x.complement.mapError .conversion
  | .not => .ok (.ofBool !x.isTrue)

end UnaryOp

end SdkBindings.Constant
