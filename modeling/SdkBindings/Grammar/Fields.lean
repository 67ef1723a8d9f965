import SdkBindings.Constant.Value
import SdkBindings.Declaration.Type
import SdkBindings.Grammar.Reader
import SdkBindings.Numeral.Integer
import SdkBindings.Text.Substring

/-!
# Members and parameters

The members of a struct and the parameters of a function are written alike: an optional annotation,
a type name with qualifiers, indirections, a name and dimensions.  Besides such plain fields a list
may hold anonymous unions and function pointers, which contain lists of their own.  Lists differ in
what separates their entries and what closes them.
-/

namespace SdkBindings.Grammar

open Reader

/-! ## Words with a meaning -/

/-- Marks the start of a table of methods. -/
def tableMarker : String := "BEGIN_INTERFACE"

/-- Marks the end of a table of methods. -/
def tableEndMarker : String := "END_INTERFACE"

/-- The name that the first parameter of a method has to have. -/
def receiverName : String := "This"

/-- Qualifiers that become part of the type name. -/
def isTypeQualifier (text : String) : Bool :=
  text = "CONST_VTBL" || text = "struct"

/-- Qualifiers that are left out. -/
def isConst (text : String) : Bool :=
  text = "const" || text = "CONST"

/-- What an annotation says about its parameter. -/
structure Usage where
  /-- It is an output. -/
  isOut : Bool
  /-- It is the head of an array with a separate length. -/
  hasCount : Bool
  /-- It is a pointer without a static type. -/
  isErased : Bool
  deriving DecidableEq, Repr

/-- No annotation. -/
def Usage.none : Usage := ⟨false, false, false⟩

/-- What an annotation says, read off its name. -/
def Usage.ofName (name : String) : Usage :=
  ⟨Text.occursIn "_out".toList name.toList, Text.occursIn "_ecount".toList name.toList,
    Text.occursIn "_deref".toList name.toList⟩

/-- Whether a name is that of an annotation. -/
def isUsage (name : String) : Bool :=
  "__".toList.isPrefixOf name.toList

/-- How the entries of a list are separated and how the list ends. -/
structure Brackets where
  /-- After each entry but the last. -/
  separator : String
  /-- After the list. -/
  close : String
  deriving DecidableEq, Repr

/-- The members of a struct or union. -/
def Brackets.members : Brackets := ⟨";", "\x7d"⟩

/-- The parameters of a function. -/
def Brackets.parameters : Brackets := ⟨",", ")"⟩

/-! ## Parts of a field -/

/-- How many tokens belong to parenthesised arguments of which `depth` parentheses are open, if all
of them close. -/
def argumentsLength? (depth : Nat) : List Token → Option Nat
  | [] => none
  | token :: rest =>
    if token.text = "(" then (argumentsLength? (depth + 1) rest).map (· + 1)
    else if token.text = ")" then
      if depth ≤ 1 then some 1 else (argumentsLength? (depth - 1) rest).map (· + 1)
    else (argumentsLength? depth rest).map (· + 1)

/-- Passes over the arguments of an annotation, nested parentheses included. -/
def skipArguments : Reader Unit := do
  let token ← peek
  if token.text = "(" then
    let c ← get
    match argumentsLength? 0 c.ahead with
    | some n => set { c with passed := (c.ahead.take n).reverse ++ c.passed, ahead := c.ahead.drop n }
    | none => fail c.eof ")" "annotation arguments"
  else pure ()

/-- Collects a type name with its qualifiers, starting with `token`; the result is the name and the
token after it. -/
def typeName (bound : Nat) (parts : List String) (token : Token) : Reader (String × Token) :=
  match bound with
  | 0 => fail token "type name" "field"
  | bound + 1 =>
    if token.text = "*" ∨ isConst token.text then do
      let token ← next
      typeName bound parts token
    else if token.kind ≠ .ident then fail token "type name" "field"
    else do
      let parts := parts ++ [token.text]
      let following ← next
      if isTypeQualifier token.text then typeName bound parts following
      else pure (" ".intercalate parts, following)

/-- Counts asterisks, starting with `token`; the result is their number and the token after them. -/
def pointerDepth (bound : Nat) (token : Token) : Reader (Nat × Token) :=
  match bound with
  | 0 => pure (0, token)
  | bound + 1 =>
    if token.text = "*" then do
      let token ← next
      let (depth, token) ← pointerDepth bound token
      pure (depth + 1, token)
    else pure (0, token)

/-- The length of an array: a decimal number or a name with a known number. -/
def dimension [Host] (symbols : SymbolTable) (typeName : String) (token : Token) : Reader Int := do
  let context := "array of " ++ typeName
  if token.kind = .number ∧ Text.isDigits token.text.toList then
    match Numeral.decimalInteger? token.text.toList with
    | some n => pure n
    | none => throw (.constant (.ofDecimalInteger token.text))
  else if token.kind = .ident then
    match symbols.number? token.text with
    | some n => pure n
    | none => fail token "array length" context
  else fail token "array length" context

/-- Reads bracketed dimensions, starting with `token`; the result is the dimensions and the token
after them. -/
def dimensions [Host] (symbols : SymbolTable) (typeName : String) (bound : Nat) (token : Token) :
    Reader (List Int × Token) :=
  match bound with
  | 0 => pure ([], token)
  | bound + 1 =>
    if token.text = "[" then do
      let size ← next
      let n ← dimension symbols typeName size
      let _ ← expect "]" ("array of " ++ typeName)
      let token ← next
      let (rest, token) ← dimensions symbols typeName bound token
      pure (n :: rest, token)
    else pure ([], token)

/-- The rest of a plain field after its type name.  An asterisk, a trailing `const` and further
asterisks make up the depth. -/
def plainField [Host] (symbols : SymbolTable) (brackets : Brackets) (usage : Usage)
    (typeName : String) (token : Token) : Reader (Field × Bool) := do
  let bound ← ahead
  let (leading, token) ← pointerDepth (bound + 1) token
  let (trailing, token) ←
    if isConst token.text then do
      let token ← next
      pointerDepth (bound + 1) token
    else pure (0, token)
  if token.kind ≠ .ident then fail token "field name" ("after type " ++ typeName)
  let name := token.text
  let token ← next
  let (type, token) ←
    if token.text = "[" then do
      let (sizes, token) ← dimensions symbols typeName (bound + 1) token
      pure (CType.array typeName sizes, token)
    else pure (CType.basic typeName, token)
  if token.text ≠ brackets.separator ∧ token.text ≠ brackets.close then
    fail token brackets.separator ("after field " ++ name)
  let depth := leading + trailing
  let type := if depth = 0 then type else CType.pointer typeName depth type
  pure (⟨name, type, usage.isOut, usage.hasCount, false, false, usage.isErased⟩,
    token.text = brackets.close)

/-- The head of a function pointer up to its parameters: the calling convention, asterisks and the
name.  `result` is the type before it. -/
def methodHead (result : String) : Reader String := do
  let _ ← next
  let bound ← ahead
  let token ← next
  let (_, token) ← pointerDepth (bound + 1) token
  if token.kind ≠ .ident then
    fail token "method name" ("function pointer returning " ++ result)
  let name := token.text
  let _ ← expect ")" ("after method name " ++ name)
  let _ ← expect "(" ("parameters of " ++ name)
  pure name

/-- Checks that the parameters of a method start with the receiver.  The error points at the first
token of the list and names the parameter found there. -/
def checkReceiver (name : String) (first : Token) (parameters : List Field) : Reader Unit := do
  let actual := match parameters with
    | [] => ")"
    | p :: _ => p.name
  if actual ≠ receiverName then
    fail { first with text := actual } receiverName ("first parameter of " ++ name)

/-! ## Lists of fields -/

mutual
/-- The entries of a list up to and including what closes it. -/
def fieldList [Host] (symbols : SymbolTable) (bound : Nat) (brackets : Brackets) : Reader (List Field) :=
  match bound with
  | 0 => do
    let c ← get
    fail c.eof brackets.close "field list"
  | bound + 1 => do
    let token ← next
    if token.text = brackets.close then pure []
    else if token.kind = .eof then fail token brackets.close "field list"
    else if token.text = tableMarker then do
      let rest ← fieldList symbols bound brackets
      pure (Field.plain tableMarker (.basic "") :: rest)
    else if token.text = tableEndMarker then fieldList symbols bound brackets
    else if token.text = "union" then do
      let _ ← expect "\x7b" "union"
      let members ← fieldList symbols bound .members
      let _ ← expect ";" "end of union"
      let rest ← fieldList symbols bound brackets
      pure (Field.plain "" (.union members) :: rest)
    else do
      let (field, closed) ← field symbols bound brackets token
      if closed then pure [field]
      else do
        let rest ← fieldList symbols bound brackets
        pure (field :: rest)

/-- One field that starts with `token`, and whether it was the last of its list. -/
def field [Host] (symbols : SymbolTable) (bound : Nat) (brackets : Brackets) (token : Token) :
    Reader (Field × Bool) :=
  match bound with
  | 0 => fail token brackets.close "field list"
  | bound + 1 => do
    let (usage, token) ←
      if isUsage token.text then do
        skipArguments
        let following ← next
        pure (Usage.ofName token.text, following)
      else pure (Usage.none, token)
    let (type, token) ← typeName ((← ahead) + 2) [] token
    if token.text = "(" then do
      let name ← methodHead type
      let first ← peek
      let parameters ← fieldList symbols bound .parameters
      checkReceiver name first parameters
      let token ← next
      if token.text ≠ brackets.separator ∧ token.text ≠ brackets.close then
        fail token brackets.separator ("after method " ++ name)
      pure (⟨name, .functionPointer name parameters type, usage.isOut, usage.hasCount,
        false, false, usage.isErased⟩, token.text = brackets.close)
    else plainField symbols brackets usage type token
end

/-- The entries of a list that has just been opened. -/
def fields [Host] (symbols : SymbolTable) (brackets : Brackets) : Reader (List Field) := do
  fieldList symbols ((← ahead) + 1) brackets

end SdkBindings.Grammar
