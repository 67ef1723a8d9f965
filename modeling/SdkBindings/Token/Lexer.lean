import SdkBindings.Text.DecimalDigit
import SdkBindings.Text.Hexadecimal
import SdkBindings.Token.Basic

/-!
# From header text to tokens

A header is cut into pieces from left to right.  `scan` decides from the text at hand which kind of
piece starts there and how long it is; blanks, comments and backslash-newline continuations are
pieces that give no token.  Because a piece is always a front part of the text that is left, the
pieces tile the header, and a position only has to be moved past each piece.

The kinds are tried in a fixed order and the first that fits wins.  A quotation mark or `/*` without
its counterpart is read as punctuation, so prose in skipped directives does no harm.
-/

namespace SdkBindings.Lexer

open Text

/-! ## Characters -/

/-- Letters that start an identifier. -/
def isIdentStart (c : Char) : Bool :=
  c.isAlpha || c = '_'

/-- Characters that continue an identifier. -/
def isIdentPart (c : Char) : Bool :=
  c.isAlphanum || c = '_'

/-- Blanks within a line. -/
def isSpace (c : Char) : Bool :=
  c = ' ' || c = '\t' || c = '\x0b' || c = '\x0c' || c = '\r'

/-- The characters that may stand alone as punctuation. -/
def punctuation : List Char :=
  ['\x7b', '\x7d', '(', ')', '[', ']', ';', ',', '=', '*', '&', '|', '<', '>', '!', '~', '+', '-',
    '/', '%', '^', '?', ':', '.', '#', '\'', '"', '@', '$', '\x60', '\\']

/-! ## Lengths of pieces -/

/-- How many characters a class covers at the front of a text. -/
def run (p : Char → Bool) (text : List Char) : Nat :=
  (text.takeWhile p).length

/-- The characters up to and including the end of a block comment, if it ends. -/
def commentEnd? : List Char → Option Nat
  | '*' :: '/' :: _ => some 2
  | _ :: rest => (commentEnd? rest).map (· + 1)
  | [] => none

/-- The characters up to and including the closing mark of a literal, if it closes.  A backslash
takes the next character with it, whatever it is; a bare line feed ends the search. -/
def closingMark? (mark : Char) : List Char → Option Nat
  | [] => none
  | '\\' :: _ :: rest => (closingMark? mark rest).map (· + 2)
  | c :: rest =>
    if c = mark then some 1
    else if c = '\\' ∨ c = '\n' then none
    else (closingMark? mark rest).map (· + 1)

/-- The length of an exponent at the front of a text, zero if there is none. -/
def exponentLength : List Char → Nat
  | e :: rest =>
    if e = 'e' ∨ e = 'E' then
      let sign := match rest with
        | s :: _ => if s = '+' ∨ s = '-' then 1 else 0
        | [] => 0
      let digits := run isDecimalDigit (rest.drop sign)
      if digits = 0 then 0 else 1 + sign + digits
    else 0
  | [] => 0

/-- The length of a decimal number without its exponent, if one starts here. -/
def mantissaLength? (text : List Char) : Option Nat :=
  let whole := run isDecimalDigit text
  match text.drop whole with
  | '.' :: rest =>
    let fraction := run isDecimalDigit rest
    if whole + fraction = 0 then none else some (whole + 1 + fraction)
  | _ => if whole = 0 then none else some whole

/-- The length of a hexadecimal number, if one starts here. -/
def hexLength? : List Char → Option Nat
  | '0' :: x :: rest =>
    let digits := run isHexDigit rest
    if (x = 'x' ∨ x = 'X') ∧ 0 < digits then some (2 + digits) else none
  | _ => none

/-- The length of a number, if one starts here. -/
def numberLength? (text : List Char) : Option Nat :=
  hexLength? text <|>
    (mantissaLength? text).map fun m => m + exponentLength (text.drop m)

/-! ## Pieces -/

/-- A comment that starts with a slash, given by the number of characters after the slash. -/
def commentLength? : List Char → Option Nat
  | '/' :: rest => some (1 + run (· ≠ '\n') rest)
  | '*' :: rest => (commentEnd? rest).map (1 + ·)
  | _ => none

/-- What starts at the character `c` followed by `rest`: the kind of its token, if it gives one,
and how many characters after `c` belong to it. -/
def scan (c : Char) (rest : List Char) : Option (Option Token.Kind × Nat) :=
  match c, rest with
  | '\\', '\n' :: _ => some (none, 1)
  | '\\', '\r' :: '\n' :: _ => some (none, 2)
  | '\n', _ => some (some .newline, 0)
  | '\r', '\n' :: _ => some (some .newline, 1)
  | _, _ =>
    if isSpace c then some (none, run isSpace rest)
    else
      match (if c = '/' then commentLength? rest else none) with
      | some k => some (none, k)
      | none =>
        match numberLength? (c :: rest) with
        | some n => some (some .number, n - 1)
        | none =>
          if isIdentStart c then some (some .ident, run isIdentPart rest)
          else
            match (if c = '"' ∨ c = '\'' then closingMark? c rest else none) with
            | some k => some (some (if c = '"' then .string else .char), k)
            | none => if c ∈ punctuation then some (some .punct, 0) else none

/-! ## Positions -/

/-- A place in a header. -/
structure Position where
  /-- The line, from one. -/
  line : Nat
  /-- The column, from one. -/
  column : Nat
  deriving DecidableEq, Repr

/-- The place after one character. -/
def Position.next (p : Position) (c : Char) : Position :=
  if c = '\n' then ⟨p.line + 1, 1⟩ else ⟨p.line, p.column + 1⟩

/-- The place after a piece of text. -/
def Position.after (p : Position) (piece : List Char) : Position :=
  piece.foldl Position.next p

/-- Where a header starts. -/
def Position.start : Position := ⟨1, 1⟩

/-! ## The whole header -/

/-- The outcome of cutting a header into tokens: the tokens up to a failure, if there is one. -/
structure Lexed where
  /-- The tokens in order; without a failure the last one is the end of the header. -/
  tokens : List Token
  /-- The first character that starts no token. -/
  failure : Option SyntaxError
  deriving DecidableEq, Repr

/-- Cuts the text that is left, which starts at `p`. -/
def lexFrom (file : String) (p : Position) (text : List Char) : Lexed :=
  match text with
  | [] => ⟨[⟨.eof, "", p.line, p.column⟩], none⟩
  | c :: rest =>
    match scan c rest with
    | none => ⟨[], some ⟨file, p.line, p.column, "token", c.toString, ""⟩⟩
    | some (kind, k) =>
      let piece := c :: rest.take k
      let tail := lexFrom file (p.after piece) (rest.drop k)
      match kind with
      | none => tail
      | some kind => { tail with tokens := ⟨kind, String.ofList piece, p.line, p.column⟩ :: tail.tokens }
termination_by text.length
decreasing_by simp only [List.length_drop, List.length_cons]; omega

/-- Cuts a header into tokens. -/
def lex (file source : String) : Lexed :=
  lexFrom file .start source.toList

/-- The characters of a text that is put together from two texts whose characters are known. -/
theorem toList_append_eq {s t : String} {l m : List Char} (hs : s.toList = l) (ht : t.toList = m) :
    (s ++ t).toList = l ++ m := by
  rw [String.toList_append, hs, ht]

/-- The tokens of a header, or the first failure. -/
def Lexed.tokens? (lexed : Lexed) : Except SyntaxError (List Token) :=
  match lexed.failure with
  | some e => .error e
  | none => .ok lexed.tokens

/-- The tokens of a piece of code without line ends and without the end. -/
def codeTokens (source : String) : Except SyntaxError (List Token) := do
  let tokens ← (lex "<string>" source).tokens?
  pure (tokens.filter Token.isCode)

end SdkBindings.Lexer
