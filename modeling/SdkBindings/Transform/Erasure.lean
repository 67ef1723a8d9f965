import SdkBindings.Rules
import SdkBindings.Transform.Change

/-!
# Pointers that give up their static type

A pointer that the rules list is marked, so that calls pass the address of whatever object the caller
has.
-/

namespace SdkBindings.Transform

mutual
/-- The parameters of a method. -/
def eraseType (t : CType) : CType :=
  match t with
  | ⟨shape, ident, expr, dimensions, members, name, parameters, depth, inner⟩ =>
    match shape with
    | .functionPointer =>
      ⟨shape, ident, expr, dimensions, members, name, eraseFields parameters, depth, inner⟩
    | _ => ⟨shape, ident, expr, dimensions, members, name, parameters, depth, inner⟩
termination_by structural t

/-- A field, marked if it is a listed pointer. -/
def eraseField (x : Field) : Field :=
  match x with
  | ⟨name, type, isOut, hasCount, isArray, isLength, isErased⟩ =>
    ⟨name, eraseType type, isOut, hasCount, isArray, isLength,
      isErased || (type.isPointer && Rules.isErasedPointer type.ident type.depth)⟩
termination_by structural x

/-- The fields of a list. -/
def eraseFields (xs : List Field) : List Field :=
  match xs with
  | [] => []
  | x :: xs => eraseField x :: eraseFields xs
termination_by structural xs
end

/-- All parameters and members of a header. -/
def eraseHeader (h : Header) : Header :=
  (h.changeFields fun _ fields => (.done (eraseFields fields) : Change Empty Empty (List Field))).value

end SdkBindings.Transform
