/-!
# Declared types and fields

The type of a struct member or of a parameter, as the header declares it and, later, as the
generated module spells it.  The shape says which of the other parts matter: dimensions for an
array, members for a union, a name and parameters for a function pointer, a depth and an inner type
for a pointer.  The parts that do not matter are still there, because a file of declarations may be
handed over with any of them filled in.
-/

namespace SdkBindings

/-- The shapes a declared type can have. -/
inductive Shape where
  /-- A type name. -/
  | basic
  /-- An array with fixed dimensions. -/
  | array
  /-- An anonymous union. -/
  | union
  /-- A method in a table of methods. -/
  | functionPointer
  /-- A pointer of some depth. -/
  | pointer
  deriving DecidableEq, Repr

/-- The name of a shape in a dump. -/
def Shape.name : Shape → String
  | .basic => "Basic"
  | .array => "Array"
  | .union => "Union"
  | .functionPointer => "FunctionPointer"
  | .pointer => "Pointer"

mutual
/-- The type of a member or parameter. -/
structure CType where
  /-- Which parts matter. -/
  shape : Shape
  /-- The type name as the header writes it; of a function pointer, the result type. -/
  ident : String
  /-- The expression of the generated module; empty until the type is resolved. -/
  expr : String
  /-- The dimensions of an array, the outermost first. -/
  dimensions : List Int
  /-- The members of a union. -/
  members : List Field
  /-- The name of a method. -/
  name : String
  /-- The parameters of a method, the receiver first. -/
  parameters : List Field
  /-- The number of indirections of a pointer. -/
  depth : Int
  /-- What a pointer points to in the end: a basic type or an array. -/
  inner : Option CType

/-- A member of a struct or a parameter of a function. -/
structure Field where
  /-- The name; empty for a union. -/
  name : String
  /-- The type. -/
  type : CType
  /-- Annotated as output. -/
  isOut : Bool
  /-- Annotated as the head of an array whose length is passed separately. -/
  hasCount : Bool
  /-- Paired with a length. -/
  isArray : Bool
  /-- The length of a neighbouring array. -/
  isLength : Bool
  /-- A pointer whose static type is given up at calls. -/
  isErased : Bool
end

deriving instance Repr for CType, Field

namespace CType

/-- A type of a shape in which nothing else is filled in. -/
def ofShape (shape : Shape) (ident : String) : CType :=
  ⟨shape, ident, "", [], [], "", [], 0, none⟩

/-- A type name. -/
def basic (ident : String) : CType := ofShape .basic ident

/-- An array. -/
def array (ident : String) (dimensions : List Int) : CType :=
  { ofShape .array ident with dimensions }

/-- A union. -/
def union (members : List Field) : CType :=
  { ofShape .union "" with members }

/-- A method with its result type. -/
def functionPointer (name : String) (parameters : List Field) (result : String) : CType :=
  { ofShape .functionPointer result with name, parameters }

/-- A pointer. -/
def pointer (ident : String) (depth : Int) (inner : CType) : CType :=
  { ofShape .pointer ident with depth, inner := some inner }

/-- A pointer, which has to have at least one indirection. -/
def pointer? (ident : String) (depth : Int) (inner : CType) : Option CType :=
  if depth < 1 then none else some (pointer ident depth inner)

/-- Whether the type is a pointer. -/
def isPointer (t : CType) : Bool :=
  t.shape = .pointer

end CType

/-- A field without annotations. -/
def Field.plain (name : String) (type : CType) : Field :=
  ⟨name, type, false, false, false, false, false⟩

instance : Inhabited CType := ⟨.basic ""⟩

instance : Inhabited Field := ⟨.plain "" (.basic "")⟩

end SdkBindings
