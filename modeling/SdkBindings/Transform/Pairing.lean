import SdkBindings.Log
import SdkBindings.Rules
import SdkBindings.Transform.Resolve

/-!
# Pairing arrays with their lengths

A parameter that carries the length of a neighbouring array is paired with it: the array is passed as
a sequence and its length is taken from the sequence, so the length takes the name of the array and
the array the type of its elements.  Whether two neighbours belong together depends on their names,
annotations and types alone, none of which pairing changes, so a list is paired in one walk that
remembers its last field.
-/

namespace SdkBindings.Transform

/-- A length that was found to belong to an array. -/
structure Pairing where
  /-- What the two belong to. -/
  owner : String
  /-- The name of the length. -/
  length : String
  /-- The name of the array. -/
  array : String
  /-- Whether the type of the elements could be given. -/
  isComplete : Bool
  deriving DecidableEq, Repr

/-- What is reported about a pairing. -/
def Pairing.entry (p : Pairing) : LogEntry :=
  debug (p.owner ++ ": " ++ p.length ++ " carries the length of " ++ p.array)

/-- The greatest number of indirections that an array parameter may have. -/
def maxArrayDepth : Int := 2

/-- Whether a field can be the array of a pair. -/
def isPairable (f : Field) : Bool :=
  f.hasCount && f.type.isPointer

/-- A length under the name of its array. -/
def asLength (count : Field) (array : String) : Field :=
  { count with isLength := true, name := array }

/-- An array whose type is still that of the parameter. -/
def asArray (array : Field) : Field :=
  { array with isArray := true }

/-- An array with the type of its elements. -/
def withElementType (array : Field) (expr : String) : Field :=
  { asArray array with type := { array.type with expr } }

/-- The expression of the elements of an array parameter. -/
def elementType (prefixes : List String) (owner : String) (array : Field) :
    Except TransformError String :=
  if maxArrayDepth < array.type.depth then
    .error (.pointerDepth owner array.type.depth array.name)
  else pointerTo prefixes array.type (array.type.depth - 1)

/-- Where the array of a field stands, if the field may be a length and has not been paired yet. -/
def companionSide? (f : Field) : Option Rules.Side :=
  if f.type.shape = .functionPointer || f.isLength then none else Rules.arrayOf? f.name

/-- The outcome of pairing a length with an array: the two fields, a note and a failure. -/
def pair (prefixes : List String) (owner : String) (count array : Field) :
    Change TransformError Pairing (Field × Field) :=
  match elementType prefixes owner array with
  | .ok expr =>
    ⟨(asLength count array.name, withElementType array expr),
      [⟨owner, count.name, array.name, true⟩], none⟩
  | .error (.noInnerType ident) =>
    ⟨(asLength count array.name, asArray array), [⟨owner, count.name, array.name, false⟩],
      some (.noInnerType ident)⟩
  | .error e => ⟨(count, array), [], some e⟩

/-! ## Walking over a list -/

/-- A field together with the outcome of pairing the parameters inside it, which matters for methods
only. -/
structure Inside where
  /-- The field as it stands in its list. -/
  field : Field
  /-- The field after pairing inside it. -/
  change : Change TransformError Pairing Field

/-- Deals with one field between its neighbours; the outcome is what all three have become. -/
def pairStep (prefixes : List String) (owner : String) (previous : Option Field) (current : Inside)
    (next : Option Field) : Change TransformError Pairing (Option Field × Field × Option Field) :=
  let f := current.field
  if f.type.shape = .functionPointer then current.change.map fun f => (previous, f, next)
  else
    match companionSide? f, previous, next with
    | some .next, _, some n =>
      if isPairable n then (pair prefixes owner f n).map fun (f, n) => (previous, f, some n)
      else .done (previous, f, next)
    | some .previous, some p, _ =>
      if isPairable p then (pair prefixes owner f p).map fun (f, p) => (some p, f, next)
      else .done (previous, f, next)
    | _, _, _ => .done (previous, f, next)

/-- Deals with the field `current` and those after it.  The field before it can still become an
array, so it is held back; all earlier ones are final. -/
def pairWalk (prefixes : List String) (owner : String) (previous : Option Field) (current : Inside) :
    List Inside → Change TransformError Pairing (List Field)
  | [] =>
    (pairStep prefixes owner previous current none).map fun (p, f, _) => p.toList ++ [f]
  | next :: rest =>
    (pairStep prefixes owner previous current (some next.field)).andThen
      (fun (p, f, n) =>
        (pairWalk prefixes owner (some f) { next with field := n.getD next.field } rest).map
          (p.toList ++ ·))
      (fun (p, f, n) => p.toList ++ f :: n.toList ++ rest.map Inside.field)

/-- Deals with a whole list. -/
def pairList (prefixes : List String) (owner : String) :
    List Inside → Change TransformError Pairing (List Field)
  | [] => .done []
  | first :: rest => pairWalk prefixes owner none first rest

mutual
/-- A type after pairing the parameters of a method. -/
def pairType (prefixes : List String) (owner : String) (t : CType) :
    Change TransformError Pairing CType :=
  match t with
  | ⟨shape, ident, expr, dimensions, members, name, parameters, depth, inner⟩ =>
    match shape with
    | .functionPointer =>
      (pairList prefixes owner (insideFields prefixes owner parameters)).map fun parameters =>
        ⟨shape, ident, expr, dimensions, members, name, parameters, depth, inner⟩
    | _ => .done ⟨shape, ident, expr, dimensions, members, name, parameters, depth, inner⟩
termination_by structural t

/-- A field with the outcome of pairing inside it. -/
def insideField (prefixes : List String) (owner : String) (x : Field) : Inside :=
  match x with
  | ⟨name, type, isOut, hasCount, isArray, isLength, isErased⟩ =>
    ⟨⟨name, type, isOut, hasCount, isArray, isLength, isErased⟩,
      (pairType prefixes (owner ++ "." ++ name) type).map fun type =>
        ⟨name, type, isOut, hasCount, isArray, isLength, isErased⟩⟩
termination_by structural x

/-- The fields of a list with the outcomes of pairing inside them. -/
def insideFields (prefixes : List String) (owner : String) (xs : List Field) : List Inside :=
  match xs with
  | [] => []
  | x :: xs => insideField prefixes owner x :: insideFields prefixes owner xs
termination_by structural xs
end

/-- Pairs the fields of a list, and those of the methods in it. -/
def pairFields (prefixes : List String) (owner : String) (xs : List Field) :
    Change TransformError Pairing (List Field) :=
  pairList prefixes owner (insideFields prefixes owner xs)

/-- Pairs all parameters and members of a header. -/
def pairHeader (prefixes : List String) (h : Header) : Change TransformError Pairing Header :=
  h.changeFields (pairFields prefixes)

end SdkBindings.Transform
