import SdkBindings.PlatformType
import SdkBindings.Transform.Change
import SdkBindings.Transform.Error
import SdkBindings.Transform.Normalize

/-!
# Types as expressions of the generated module

Every type gets the expression that the generated module uses for it.  A platform type has an
expression of its own; any other name is that of a declaration and is normalized as the declaration is.
Dimensions are wrapped around their element type from the innermost outwards, and an array of
pointers wraps the pointer.
-/

namespace SdkBindings.Transform

/-- Removes a word in front of a name. -/
def dropWord (word name : List Char) : List Char :=
  if word.isPrefixOf name then name.drop word.length else name

/-- A type name without the qualifiers that became part of it. -/
def bareTypeName (name : String) : String :=
  String.ofList (dropWord "struct ".toList (dropWord "CONST_VTBL ".toList name.toList))

/-- The expression of a type name. -/
def resolveName (prefixes : List String) (name : String) : String :=
  let name := bareTypeName name
  match platformType? name with
  | some t => t.expr
  | none => normalize prefixes name

/-- An array of an element type. -/
def arrayExpr (base : String) (dimension : Int) : String :=
  "(" ++ base ++ " * " ++ toString dimension ++ ")"

/-- An array with several dimensions, given from the outermost in. -/
def wrapDimensions (base : String) (dimensions : List Int) : String :=
  dimensions.foldr (fun dimension expr => arrayExpr expr dimension) base

/-- How a pointer expression starts. -/
def pointerOpening : String := "ctypes.POINTER("

/-- A pointer to a type. -/
def pointerExpr (base : String) : String :=
  pointerOpening ++ base ++ ")"

/-- A number of pointers around a type. -/
def wrapPointers (base : String) : Nat → String
  | 0 => base
  | n + 1 => pointerExpr (wrapPointers base n)

/-- The expression of a number of indirections to what a pointer finally points to. -/
def innerPointer (prefixes : List String) (inner : CType) (depth : Int) : String :=
  let expr :=
    match (if 0 < depth then pointerShortcut? inner.ident else none) with
    | some shortcut => wrapPointers shortcut (depth - 1).toNat
    | none => wrapPointers (resolveName prefixes inner.ident) depth.toNat
  if inner.shape = .array then wrapDimensions expr inner.dimensions else expr

/-- The expression of a number of indirections, which may be fewer than the pointer has. -/
def pointerTo (prefixes : List String) (t : CType) (depth : Int) : Except TransformError String :=
  match t.inner with
  | some inner => .ok (innerPointer prefixes inner depth)
  | none => .error (.noInnerType t.ident)

/-- What the place of a union is called; the generated module writes it as a comment. -/
def unionExpr : String := "union"

mutual
/-- A type with its expression; the types inside it come first. -/
def resolveType (prefixes : List String) (t : CType) : Change TransformError Unit CType :=
  match t with
  | ⟨shape, ident, expr, dimensions, members, name, parameters, depth, inner⟩ =>
    match shape with
    | .basic =>
      .done ⟨shape, ident, resolveName prefixes ident, dimensions, members, name, parameters, depth,
        inner⟩
    | .array =>
      .done ⟨shape, ident, wrapDimensions (resolveName prefixes ident) dimensions, dimensions, members,
        name, parameters, depth, inner⟩
    | .pointer =>
      (resolveInner prefixes inner).andThen
        (fun resolved =>
          let t : CType :=
            ⟨shape, ident, expr, dimensions, members, name, parameters, depth, resolved⟩
          match pointerTo prefixes t depth with
          | .ok expr => .done { t with expr }
          | .error e => .stopped t e)
        (fun resolved =>
          ⟨shape, ident, expr, dimensions, members, name, parameters, depth, resolved⟩)
    | .union =>
      (resolveFields prefixes members).andThen
        (fun members =>
          .done ⟨shape, ident, unionExpr, dimensions, members, name, parameters, depth, inner⟩)
        (fun members =>
          ⟨shape, ident, expr, dimensions, members, name, parameters, depth, inner⟩)
    | .functionPointer =>
      (resolveFields prefixes parameters).andThen
        (fun parameters =>
          .done ⟨shape, ident, voidPointer, dimensions, members, name, parameters, depth, inner⟩)
        (fun parameters =>
          ⟨shape, ident, expr, dimensions, members, name, parameters, depth, inner⟩)
termination_by structural t

/-- The type a pointer points to, if it has one. -/
def resolveInner (prefixes : List String) (t : Option CType) :
    Change TransformError Unit (Option CType) :=
  match t with
  | none => .done none
  | some t => (resolveType prefixes t).map some
termination_by structural t

/-- A field with the expression of its type. -/
def resolveField (prefixes : List String) (x : Field) : Change TransformError Unit Field :=
  match x with
  | ⟨name, type, isOut, hasCount, isArray, isLength, isErased⟩ =>
    (resolveType prefixes type).map fun type =>
      ⟨name, type, isOut, hasCount, isArray, isLength, isErased⟩
termination_by structural x

/-- The fields of a list, in order. -/
def resolveFields (prefixes : List String) (xs : List Field) :
    Change TransformError Unit (List Field) :=
  match xs with
  | [] => .done []
  | x :: xs =>
    (resolveField prefixes x).andThen
      (fun y => (resolveFields prefixes xs).map (y :: ·))
      (· :: xs)
termination_by structural xs
end

/-- All types of a header. -/
def resolveHeader (prefixes : List String) (h : Header) : Change TransformError Unit Header :=
  h.changeFields fun _ fields => resolveFields prefixes fields

end SdkBindings.Transform
