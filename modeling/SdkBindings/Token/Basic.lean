import SdkBindings.Text.Quoted

/-!
# Tokens of header text

A token is a piece of a header together with the place it starts at.  Lines and columns count from
one.  Two tokens are adjacent when the second starts exactly where the first ends, which is how a
literal suffix, a function-like macro and the spacing of stored expressions are recognised.
-/

namespace SdkBindings

/-- The lexical category of a token. -/
inductive Token.Kind where
  /-- An ASCII identifier or keyword. -/
  | ident
  /-- A decimal, hexadecimal or fractional number. -/
  | number
  /-- A literal between double quotation marks. -/
  | string
  /-- A literal between single quotation marks. -/
  | char
  /-- A single character of punctuation. -/
  | punct
  /-- The end of a line. -/
  | newline
  /-- The end of the header. -/
  | eof
  deriving DecidableEq, Repr

/-- The name of a category, as messages give it. -/
def Token.Kind.name : Token.Kind → String
  | .ident => "ident"
  | .number => "number"
  | .string => "string"
  | .char => "char"
  | .punct => "punct"
  | .newline => "newline"
  | .eof => "eof"

/-- A piece of a header and where it starts. -/
structure Token where
  /-- The lexical category. -/
  kind : Token.Kind
  /-- The piece as written; empty at the end of the header. -/
  text : String
  /-- The line of its first character. -/
  line : Nat
  /-- The column of its first character. -/
  column : Nat
  deriving DecidableEq, Repr

namespace Token

/-- The column after the last character, when the token stays on its line. -/
def endColumn (token : Token) : Nat :=
  token.column + token.text.length

/-- Whether nothing separates a token from the one before it. -/
def isAdjacentTo (token previous : Token) : Bool :=
  previous.line = token.line ∧ previous.endColumn = token.column

/-- What a message calls the token: its text, or a placeholder at the end of the header. -/
def shownText (token : Token) : String :=
  if token.kind = .eof then "<EOF>" else token.text

/-- Whether the token is the end of a line. -/
def isLineEnd (token : Token) : Bool :=
  token.kind = .newline

/-- Line ends and the end of the header are not part of the code. -/
def isCode (token : Token) : Bool :=
  token.kind ≠ .newline ∧ token.kind ≠ .eof

/-- Spacing of a run of tokens after `previous`: one space where the header had any space. -/
def joinAfter (previous : Token) : List Token → List Char
  | [] => []
  | token :: rest =>
    (if token.isAdjacentTo previous then [] else [' ']) ++ token.text.toList ++ joinAfter token rest

/-- The text of a run of tokens, with one space wherever two of them are not adjacent. -/
def join : List Token → String
  | [] => ""
  | token :: rest => String.ofList (token.text.toList ++ joinAfter token rest)

end Token

/-- Why a header does not follow the grammar: what was expected where, and what stood there. -/
structure SyntaxError where
  /-- The header. -/
  file : String
  /-- The line of the offending text. -/
  line : Nat
  /-- The column of the offending text. -/
  column : Nat
  /-- What the grammar asks for. -/
  expected : String
  /-- What the header has instead. -/
  actual : String
  /-- The construct being read, or nothing. -/
  context : String
  deriving DecidableEq, Repr

/-- The error as a message. -/
def SyntaxError.message (e : SyntaxError) : String :=
  e.file ++ ":" ++ toString e.line ++ ":" ++ toString e.column ++ ": expected " ++
    Text.quote e.expected ++ ", got " ++ Text.quote e.actual ++
    (if e.context = "" then "" else " (" ++ e.context ++ ")")

/-- The error of finding `token` where `expected` should stand. -/
def Token.unexpected (file : String) (token : Token) (expected context : String) : SyntaxError :=
  ⟨file, token.line, token.column, expected, token.shownText, context⟩

end SdkBindings
