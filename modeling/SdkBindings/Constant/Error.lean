import SdkBindings.Number
import SdkBindings.Numeral.Integer
import SdkBindings.Text.Quoted

/-!
# Why a constant expression has no value

Most expressions in a header that cannot be evaluated are simply none of our business: the constant
is left out or kept as written.  Some failures stop the run.  The class of an error says which.
-/

namespace SdkBindings.Constant

/-- What became of an expression that has no value. -/
inductive Error where
  /-- A macro without a body. -/
  | emptyBody (name : String)
  /-- A macro with parameters. -/
  | functionLike (name : String)
  /-- A macro whose body calls something. -/
  | functionCall (name callee : String)
  /-- A string literal next to something else. -/
  | stringInExpression (expression : String)
  /-- Two operands in a row. -/
  | missingOperator (text : String)
  /-- A token that has no place in an expression. -/
  | unexpectedToken (text : String)
  /-- A parenthesis after an operand. -/
  | callExpression
  /-- A closing parenthesis without an opening one. -/
  | unbalancedClose
  /-- An opening parenthesis without a closing one. -/
  | unbalancedOpen
  /-- A binary operator where an operand should stand. -/
  | missingOperand (operator : String)
  /-- A character that is no operator. -/
  | unsupportedOperator (operator : String)
  /-- An expression that ends where an operand should stand. -/
  | incomplete
  /-- An escape sequence that the language does not define. -/
  | unknownEscape (c : Char)
  /-- A number that cannot be read. -/
  | invalidNumber (text : String)
  /-- A character literal that does not hold one character. -/
  | characterLiteral (text : String)
  /-- A name that stands for no number. -/
  | unresolved (name : String)
  /-- A division by zero. -/
  | divisionByZero
  /-- A literal that does not start with `0x`. -/
  | notHexadecimal (text : String)
  /-- A hexadecimal literal with a character that is no digit. -/
  | invalidHexadecimal (text : String)
  /-- A hexadecimal literal without digits or with too many. -/
  | hexadecimalSize (text : String) (size : Nat)
  /-- A unary operator that finds no operand on the stack. -/
  | unaryWithoutOperand (operator : String)
  /-- A binary operator that finds fewer than two operands on the stack. -/
  | binaryWithoutOperands (operator : String)
  /-- An operator that has no meaning. -/
  | unhandledOperator (operator : String)
  /-- A postfix form that does not leave exactly one value. -/
  | stackSize (size : Nat)
  /-- A text that is no integer in a base. -/
  | invalidInteger (base : Nat) (text : String)
  /-- A decimal integer with more digits than the host reads. -/
  | tooManyDigits (limit size : Nat)
  /-- An escape by number past the last code point. -/
  | characterRange
  /-- An escape by a number past any machine word. -/
  | characterTooLarge
  /-- A number that has no conversion. -/
  | conversion (cause : Number.Failure)
  deriving DecidableEq, Repr

/-- The five ways an error is treated. -/
inductive Error.Class where
  /-- The constant is left out or kept as written. -/
  | unsupported
  /-- The run stops with the expression's error. -/
  | malformed
  /-- A value is out of its domain. -/
  | value
  /-- A number is too large for its destination. -/
  | overflow
  /-- The host has no room for a number. -/
  | memory
  deriving DecidableEq, Repr

namespace Error

/-- How an error is treated. -/
def «class» : Error → Error.Class
  | .notHexadecimal _ | .invalidHexadecimal _ | .hexadecimalSize _ _ | .unaryWithoutOperand _
  | .binaryWithoutOperands _ | .unhandledOperator _ | .stackSize _ => .malformed
  | .invalidInteger _ _ | .tooManyDigits _ _ | .characterRange | .conversion .notANumber => .value
  | .characterTooLarge | .conversion .tooLarge | .conversion .infinite => .overflow
  | .conversion .noRoom => .memory
  | _ => .unsupported

/-- The message for a text that is no integer; a very long text is cut. -/
def invalidIntegerMessage (base : Nat) (text : String) : String :=
  "invalid literal for int() with base " ++ toString base ++ ": " ++
    String.ofList ((Text.quote text).toList.take 200)

/-- The error as a message. -/
def message : Error → String
  | .emptyBody name => name ++ ": empty body"
  | .functionLike name => name ++ ": function-like macro"
  | .functionCall name callee => name ++ ": function call " ++ callee ++ "(...)"
  | .stringInExpression expression => "String literal inside expression: " ++ expression
  | .missingOperator text => "Missing operator before " ++ text
  | .unexpectedToken text => "Unexpected token " ++ Text.quote text
  | .callExpression => "Function call expression"
  | .unbalancedClose => "Unbalanced ')'"
  | .unbalancedOpen => "Unbalanced '('"
  | .missingOperand operator => "Operator " ++ Text.quote operator ++ " without left operand"
  | .unsupportedOperator operator => "Unsupported operator " ++ Text.quote operator
  | .incomplete => "Incomplete expression"
  | .unknownEscape c => "Unknown escape sequence: \\" ++ c.toString
  | .invalidNumber text => "Invalid number: " ++ text
  | .characterLiteral text => "Unsupported character literal: " ++ text
  | .unresolved name => "Unresolved identifier: " ++ name
  | .divisionByZero => "Division by zero"
  | .notHexadecimal text => "Not a hex literal: " ++ text
  | .invalidHexadecimal text => "Invalid hex literal: " ++ text
  | .hexadecimalSize text size => "Unhandled hex literal: " ++ text ++ ", size is: " ++ toString size
  | .unaryWithoutOperand operator => "Unary " ++ operator ++ " without operand"
  | .binaryWithoutOperands operator => "Operator " ++ operator ++ " needs two operands"
  | .unhandledOperator operator => "Unhandled operator: " ++ operator
  | .stackSize size => "Invalid expression, stack size: " ++ toString size
  | .invalidInteger base text => invalidIntegerMessage base text
  | .tooManyDigits limit size =>
    "Exceeds the limit (" ++ toString limit ++ " digits) for integer string conversion: value has " ++
      toString size ++ " digits; use sys.set_int_max_str_digits() to increase the limit"
  | .characterRange => "chr() arg not in range(0x110000)"
  | .characterTooLarge => "character number too large"
  | .conversion .notANumber => "cannot convert float NaN to integer"
  | .conversion .tooLarge => "int too large to convert to float"
  | .conversion .infinite => "cannot convert float infinity to integer"
  | .conversion .noRoom => ""

/-- Why a host reads no decimal integer from a text. -/
def ofDecimalInteger [Host] (text : String) : Error :=
  let size := Numeral.digitCount text.toList
  match Host.digitLimit?.filter (· < size) with
  | some limit => .tooManyDigits limit size
  | none => .invalidInteger 10 text

end Error

end SdkBindings.Constant
