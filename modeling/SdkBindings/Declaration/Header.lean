import SdkBindings.Constant.Value
import SdkBindings.Declaration.Type

/-!
# The declarations of a header

What one header declares, in source order, and the list of headers that make up one module.  A table
of methods is declared once and may belong to several structs of the same name, so structs refer to
tables by their place in a list of the header; a change to a table shows in all of them.
-/

namespace SdkBindings

/-- A macro with a value. -/
structure Macro where
  /-- Its name. -/
  ident : String
  /-- Its value. -/
  value : Value
  deriving DecidableEq, Repr

/-- A second name for a type. -/
structure Alias where
  /-- The new name. -/
  ident : String
  /-- The type it stands for. -/
  target : String
  deriving DecidableEq, Repr

/-- A constant of an enumeration. -/
structure Enumerator where
  /-- Its name. -/
  ident : String
  /-- Its value. -/
  value : Value
  deriving DecidableEq, Repr

/-- An enumeration with its constants in order. -/
structure Enumeration where
  /-- Its name. -/
  ident : String
  /-- Its constants. -/
  enumerators : List Enumerator
  deriving DecidableEq, Repr

/-- An interface identifier in its native layout: one part of 32 bits, two of 16 and eight bytes. -/
structure GuidParts where
  /-- The first 32 bits. -/
  data1 : Int
  /-- The next 16 bits. -/
  data2 : Int
  /-- The next 16 bits. -/
  data3 : Int
  /-- The last eight bytes. -/
  data4 : List Int
  deriving DecidableEq, Repr

/-- A table of methods. -/
structure Vtable where
  /-- Its name. -/
  ident : String
  /-- Its entries. -/
  fields : List Field
  /-- An interface identifier, or nothing. -/
  guid : String
  /-- A table of its own, if it was handed over with one. -/
  vtable : Option Vtable
  /-- The parts of the identifier. -/
  guidParts : Option GuidParts
  deriving Repr

instance : Inhabited Vtable := ⟨⟨"", [], "", none, none⟩⟩

/-- A struct or interface. -/
structure Struct where
  /-- Its name. -/
  ident : String
  /-- Its members. -/
  fields : List Field
  /-- Its interface identifier, or nothing. -/
  guid : String
  /-- The place of its table of methods in the list of the header. -/
  vtable : Option Nat
  /-- The parts of the identifier, once it is decomposed. -/
  guidParts : Option GuidParts
  deriving Repr

/-- An exported function. -/
structure Function where
  /-- Its name in the generated module. -/
  ident : String
  /-- The name the library exports it under. -/
  exportName : String
  /-- Its parameters. -/
  parameters : List Field
  deriving Repr

/-- All declarations of one header. -/
structure Header where
  /-- The name of the header. -/
  file : String
  /-- The macros with a value. -/
  macros : List Macro
  /-- The type aliases. -/
  aliases : List Alias
  /-- The enumerations. -/
  enums : List Enumeration
  /-- The structs and interfaces. -/
  structs : List Struct
  /-- The exported functions. -/
  functions : List Function
  /-- The tables of methods that structs refer to. -/
  vtables : List Vtable
  deriving Repr

namespace Header

/-- A header without declarations. -/
def empty (file : String) : Header := ⟨file, [], [], [], [], [], []⟩

/-- The number of declarations. -/
def count (h : Header) : Nat :=
  h.macros.length + h.aliases.length + h.enums.length + h.structs.length + h.functions.length

/-- The table of methods of a struct. -/
def vtable? (h : Header) (s : Struct) : Option Vtable :=
  s.vtable.bind fun i => h.vtables[i]?

end Header

/-- Headers in the order in which the module presents them. -/
abbrev Project := List Header

end SdkBindings
