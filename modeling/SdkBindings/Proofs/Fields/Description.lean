import SdkBindings.Grammar.Fields
import SdkBindings.Proofs.Lexing.Lexeme
import SdkBindings.Proofs.Numeral.Digits

/-!
# Descriptions of fields

A description says what a member or parameter is together with every choice a header has in writing
it down: an annotation and its arguments, the words around the type, where the asterisks stand, the
dimensions, and whether the last entry of a list is followed by a separator.  From a description one
gets the lexemes that declare the field (`Entry.lexemes`, `printed`) and the field that they declare
(`Entry.field`, `Entry.fields`).

Nothing that is not part of the field takes part in the latter, so descriptions that differ only in
how they are written describe the same field.
-/

namespace SdkBindings.Grammar

open Lexer

/-! ## Words -/

/-- The words that no field, type or method may be called. -/
def reservedWords : List String :=
  ["const", "CONST", "CONST_VTBL", "struct", "union", tableMarker, tableEndMarker]

/-- A name in a description. -/
structure Name where
  /-- The name. -/
  text : String
  /-- It is an identifier. -/
  isIdentifier : isIdentifier text.toList = true
  /-- It has no meaning of its own. -/
  notReserved : text ∉ reservedWords
  /-- It does not look like an annotation. -/
  notUsage : isUsage text = false

/-- The name as it is written. -/
def Name.lexeme (name : Name) : Lexeme :=
  .word name.text name.isIdentifier

/-- The two spellings of `const`. -/
inductive ConstWord where
  | lower
  | upper
  deriving DecidableEq, Repr

/-- The word itself. -/
def ConstWord.lexeme : ConstWord → Lexeme
  | .lower => .word "const" (by decide)
  | .upper => .word "CONST" (by decide)

/-- The words that become part of the type. -/
inductive Qualifier where
  /-- It marks a table of methods. -/
  | table
  /-- It marks a structure. -/
  | struct
  deriving DecidableEq, Repr

/-- The word itself. -/
def Qualifier.lexeme : Qualifier → Lexeme
  | table => .word "CONST_VTBL" (by decide)
  | struct => .word "struct" (by decide)

/-- A word in front of a type. -/
inductive Specifier where
  /-- One that is left out of the type. -/
  | const (word : ConstWord)
  /-- One that becomes part of it. -/
  | qualifier (word : Qualifier)
  deriving DecidableEq, Repr

/-- The word itself. -/
def Specifier.lexeme : Specifier → Lexeme
  | const word => word.lexeme
  | qualifier word => word.lexeme

/-- What the type keeps of the word. -/
def Specifier.kept : Specifier → List String
  | const _ => []
  | qualifier word => [word.lexeme.text]

/-! ## Annotations -/

/-- Opens arguments and parameters. -/
def openParenthesis : Lexeme := .mark "(" (by decide)

/-- Closes arguments and parameters. -/
def closeParenthesis : Lexeme := .mark ")" (by decide)

/-- Lexemes of any kind whose parentheses come in pairs. -/
inductive Balanced : List Lexeme → Prop
  | nil : Balanced []
  | cons {lexeme : Lexeme} {lexemes : List Lexeme} (hopen : lexeme.text ≠ "(")
      (hclose : lexeme.text ≠ ")") (rest : Balanced lexemes) : Balanced (lexeme :: lexemes)
  | group {inner lexemes : List Lexeme} (hinner : Balanced inner) (rest : Balanced lexemes) :
      Balanced (openParenthesis :: (inner ++ closeParenthesis :: lexemes))

/-- An annotation in front of a type. -/
structure UsageMark where
  /-- The name. -/
  name : String
  /-- It is an identifier. -/
  isIdentifier : isIdentifier name.toList = true
  /-- It looks like an annotation. -/
  isUsage : isUsage name = true
  /-- What stands between the parentheses after it, if there are any. -/
  arguments : Option { inner : List Lexeme // Balanced inner }

/-- The annotation as it is written. -/
def UsageMark.lexemes (mark : UsageMark) : List Lexeme :=
  .word mark.name mark.isIdentifier ::
    match mark.arguments with
    | none => []
    | some inner => openParenthesis :: (inner.val ++ [closeParenthesis])

/-- What stands for an annotation that may be missing. -/
def usageLexemes (usage : Option UsageMark) : List Lexeme :=
  match usage with
  | none => []
  | some mark => mark.lexemes

/-- What an annotation that may be missing says. -/
def usageOf (usage : Option UsageMark) : Usage :=
  match usage with
  | none => .none
  | some mark => .ofName mark.name

/-! ## Plain fields -/

/-- A type with the words in front of it. -/
structure TypeName where
  /-- The words, in any order and number. -/
  specifiers : List Specifier
  /-- The name of the type. -/
  name : Name

/-- The type as it is written. -/
def TypeName.lexemes (type : TypeName) : List Lexeme :=
  type.specifiers.map Specifier.lexeme ++ [type.name.lexeme]

/-- The type as a field has it. -/
def TypeName.text (type : TypeName) : String :=
  " ".intercalate (type.specifiers.flatMap Specifier.kept ++ [type.name.text])

/-- The length of an array in one direction. -/
structure Dimension where
  /-- Its decimal digits. -/
  digits : List Char
  /-- There is at least one. -/
  ne_nil : digits ≠ []
  /-- All of them are digits. -/
  areDigits : digits.all Text.isDecimalDigit = true

/-- Opens a dimension. -/
def openBracket : Lexeme := .mark "[" (by decide)

/-- Closes a dimension. -/
def closeBracket : Lexeme := .mark "]" (by decide)

/-- The number of the dimension as it is written. -/
def Dimension.numeral (dimension : Dimension) : Lexeme :=
  .numeral dimension.digits dimension.ne_nil dimension.areDigits

/-- The dimension as it is written. -/
def Dimension.lexemes (dimension : Dimension) : List Lexeme :=
  [openBracket, dimension.numeral, closeBracket]

/-- The length that the digits stand for. -/
def Dimension.length (dimension : Dimension) : Int :=
  (Numeral.digitsNumber 0 dimension.digits : Nat)

/-- An indirection. -/
def asterisk : Lexeme := .mark "*" (by decide)

/-- A field that is neither a union nor a method. -/
structure Plain where
  /-- The annotation, if there is one. -/
  usage : Option UsageMark
  /-- The type. -/
  type : TypeName
  /-- The asterisks right after the type. -/
  leading : Nat
  /-- A `const` after those asterisks, if there is one, and the asterisks after it. -/
  trailing : Option (ConstWord × Nat)
  /-- The name of the field. -/
  name : Name
  /-- The dimensions, the outermost first. -/
  dimensions : List Dimension

namespace Plain

/-- The asterisks and the `const` between them. -/
def indirections (p : Plain) : List Lexeme :=
  List.replicate p.leading asterisk ++
    match p.trailing with
    | none => []
    | some (word, n) => word.lexeme :: List.replicate n asterisk

/-- The field as it is written. -/
def lexemes (p : Plain) : List Lexeme :=
  usageLexemes p.usage ++ (p.type.lexemes ++ (p.indirections ++
    (p.name.lexeme :: p.dimensions.flatMap Dimension.lexemes)))

/-- How many asterisks there are altogether. -/
def depth (p : Plain) : Nat :=
  p.leading +
    match p.trailing with
    | none => 0
    | some (_, n) => n

/-- What the asterisks point to. -/
def target (p : Plain) : CType :=
  if p.dimensions = [] then .basic p.type.text
  else .array p.type.text (p.dimensions.map Dimension.length)

/-- The field that is described. -/
def field (p : Plain) : Field where
  name := p.name.text
  type := if p.depth = 0 then p.target else .pointer p.type.text p.depth p.target
  isOut := (usageOf p.usage).isOut
  hasCount := (usageOf p.usage).hasCount
  isArray := false
  isLength := false
  isErased := (usageOf p.usage).isErased

end Plain

/-! ## Lists -/

/-- The two forms of lists. -/
inductive ListForm where
  /-- The members of a struct or union, with semicolons and braces. -/
  | body
  /-- The parameters of a function, with commas and parentheses. -/
  | parameters
  deriving DecidableEq, Repr

namespace ListForm

/-- What the grammar is told about the form. -/
def brackets : ListForm → Brackets
  | body => .members
  | parameters => .parameters

/-- What separates entries. -/
def separator : ListForm → Lexeme
  | body => .mark ";" (by decide)
  | parameters => .mark "," (by decide)

/-- What closes the list. -/
def close : ListForm → Lexeme
  | body => .mark "\x7d" (by decide)
  | parameters => .mark ")" (by decide)

end ListForm

/-- A member or parameter.  Where there is a list inside, `ended` says whether a separator follows
the last entry too. -/
inductive Entry where
  /-- A plain field. -/
  | plain (p : Plain)
  /-- An anonymous union. -/
  | union (members : List Entry) (ended : Bool)
  /-- A pointer to a function with its calling convention. -/
  | method (usage : Option UsageMark) (result : TypeName) (convention name : Name)
      (parameters : List Entry) (ended : Bool)

namespace Entry

/-- The name of the entry; a union has none. -/
def name : Entry → String
  | plain p => p.name.text
  | union _ _ => ""
  | method _ _ _ name _ _ => name.text

/-- Unions bring a separator of their own. -/
def isUnion : Entry → Bool
  | union _ _ => true
  | _ => false

/-- What separates an entry from what follows it. -/
def separators (form : ListForm) (ended : Bool) (entry : Entry) (rest : List Entry) : List Lexeme :=
  if entry.isUnion || (rest.isEmpty && !ended) then [] else [form.separator]

mutual
/-- The entry as it is written, without a separator after it. -/
def lexemes : Entry → List Lexeme
  | plain p => p.lexemes
  | union members ended =>
    .word "union" (by decide) :: .mark "\x7b" (by decide) ::
      (printed .body ended members ++ [.mark ";" (by decide)])
  | method usage result convention name parameters ended =>
    usageLexemes usage ++ (result.lexemes ++
      (openParenthesis :: convention.lexeme :: asterisk :: name.lexeme :: closeParenthesis ::
        openParenthesis :: printed .parameters ended parameters))

/-- A list as it is written, up to and including what closes it. -/
def printed (form : ListForm) (ended : Bool) : List Entry → List Lexeme
  | [] => [form.close]
  | entry :: rest => entry.lexemes ++ (separators form ended entry rest ++ printed form ended rest)
end

mutual
/-- The field that is described. -/
def field : Entry → Field
  | plain p => p.field
  | union members _ => .plain "" (.union (fields members))
  | method usage result _ name parameters _ =>
    { name := name.text
      type := .functionPointer name.text (fields parameters) result.text
      isOut := (usageOf usage).isOut
      hasCount := (usageOf usage).hasCount
      isArray := false
      isLength := false
      isErased := (usageOf usage).isErased }

/-- The fields that are described, in order. -/
def fields : List Entry → List Field
  | [] => []
  | entry :: rest => entry.field :: fields rest
end

mutual
/-- The first parameter of every method is the receiver. -/
def HasReceivers : Entry → Prop
  | plain _ => True
  | union members _ => HaveReceivers members
  | method _ _ _ _ parameters _ =>
    parameters.head?.map name = some receiverName ∧ HaveReceivers parameters

/-- In every entry the first parameter of every method is the receiver. -/
def HaveReceivers : List Entry → Prop
  | [] => True
  | entry :: rest => entry.HasReceivers ∧ HaveReceivers rest
end

end Entry

end SdkBindings.Grammar
