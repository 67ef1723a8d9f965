import SdkBindings.Constant.Postfix
import SdkBindings.Text.Blank
import SdkBindings.Token.Lexer

/-!
# Constant expressions in the generated language

A C expression whose value is not known is written as an expression of the generated language:
suffixes of numbers are dropped, the logical operators spelled out, and tokens stay apart where the
header had space between them.
-/

namespace SdkBindings.Module

/-- The word for a logical operator written as two tokens. -/
def operatorWord? (first second : String) : Option String :=
  if first ++ second = "&&" then some " and "
  else if first ++ second = "||" then some " or "
  else none

/-- The text of the tokens that are left; `previous` is the last one that was written. -/
def expressionParts (previous : Option Token) : List Token → List String
  | [] => []
  | token :: rest =>
    let adjacent := previous.any fun p => token.isAdjacentTo p
    if Constant.isSuffix token previous then expressionParts previous rest
    else
      let spaced := if previous.isSome && !adjacent then " " ++ token.text else token.text
      match rest with
      | [] => (if token.text = "!" then " not " else spaced) :: expressionParts (some token) []
      | following :: more =>
        match operatorWord? token.text following.text with
        | some word => word :: expressionParts (some following) more
        | none =>
          (if token.text = "!" ∧ following.text ≠ "=" then " not " else spaced) ::
            expressionParts (some token) (following :: more)

/-- Every run of spaces as one space. -/
def squeezeSpaces : List Char → List Char
  | ' ' :: ' ' :: rest => squeezeSpaces (' ' :: rest)
  | c :: rest => c :: squeezeSpaces rest
  | [] => []

/-- The expression in the generated language. -/
def expression (raw : String) : Except SyntaxError String := do
  let tokens ← Lexer.codeTokens raw
  let text := String.join (expressionParts none tokens)
  pure (String.ofList (Text.strip Text.isBlank (squeezeSpaces text.toList)))

end SdkBindings.Module
