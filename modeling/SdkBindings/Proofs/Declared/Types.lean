import SdkBindings.Grammar.Fields
import SdkBindings.Transform.Change

/-!
# Types as headers declare them

The parts of a type that its shape calls for are filled in by whoever makes the type.  `IsDeclared`
says what a type of a header that has been read can be relied on for: a pointer points to something,
an array has dimensions, a method takes its receiver first, and no type has an expression yet.

Types contain types: a union has members, a method has parameters, and a pointer points to a type.
`CType.All` says something of a type, of every type inside it and of every field on the way, by
recursion on the type; the other three members of the family do so for what a pointer points to, for
a field and for a list of fields.
-/

namespace SdkBindings

/-! ## All types inside a type -/

mutual
/-- The type and all types inside it are `p`, and all fields inside it are `q`. -/
def CType.All (p : CType → Prop) (q : Field → Prop) (t : CType) : Prop :=
  match t with
  | ⟨shape, ident, expr, dimensions, members, name, parameters, depth, inner⟩ =>
    p ⟨shape, ident, expr, dimensions, members, name, parameters, depth, inner⟩ ∧
      Field.AllOf p q members ∧ Field.AllOf p q parameters ∧ CType.AllInner p q inner
termination_by structural t

/-- What is pointed to, if anything is, and all types inside it are `p`, and all fields inside it are
`q`. -/
def CType.AllInner (p : CType → Prop) (q : Field → Prop) (t : Option CType) : Prop :=
  match t with
  | none => True
  | some t => CType.All p q t
termination_by structural t

/-- The field is `q` and so are all fields inside its type, and all types inside it are `p`. -/
def Field.All (p : CType → Prop) (q : Field → Prop) (x : Field) : Prop :=
  match x with
  | ⟨name, type, isOut, hasCount, isArray, isLength, isErased⟩ =>
    q ⟨name, type, isOut, hasCount, isArray, isLength, isErased⟩ ∧ CType.All p q type
termination_by structural x

/-- All fields of a list and inside it are `q`, and all types inside it are `p`. -/
def Field.AllOf (p : CType → Prop) (q : Field → Prop) (xs : List Field) : Prop :=
  match xs with
  | [] => True
  | x :: xs => Field.All p q x ∧ Field.AllOf p q xs
termination_by structural xs
end

section

variable {p p' : CType → Prop} {q q' : Field → Prop}

/-- A type is looked through by looking at itself, at its fields and at what it points to. -/
theorem CType.all_iff {t : CType} :
    t.All p q ↔ p t ∧ Field.AllOf p q t.members ∧ Field.AllOf p q t.parameters ∧
      CType.AllInner p q t.inner := by
  obtain ⟨shape, ident, expr, dimensions, members, name, parameters, depth, inner⟩ := t
  rw [CType.All]

/-- A field is looked through by looking at itself and at its type. -/
theorem Field.all_iff {x : Field} : x.All p q ↔ q x ∧ x.type.All p q := by
  obtain ⟨name, type, isOut, hasCount, isArray, isLength, isErased⟩ := x
  rw [Field.All]

@[simp]
theorem CType.allInner_none : CType.AllInner p q none ↔ True := by
  rw [CType.AllInner]

@[simp]
theorem CType.allInner_some {t : CType} : CType.AllInner p q (some t) ↔ t.All p q := by
  rw [CType.AllInner]

@[simp]
theorem Field.allOf_nil : Field.AllOf p q [] ↔ True := by
  rw [Field.AllOf]

@[simp]
theorem Field.allOf_cons {x : Field} {xs : List Field} :
    Field.AllOf p q (x :: xs) ↔ x.All p q ∧ Field.AllOf p q xs := by
  rw [Field.AllOf]

/-- A list of fields is looked through field by field. -/
theorem Field.allOf_iff {xs : List Field} : Field.AllOf p q xs ↔ ∀ x ∈ xs, x.All p q := by
  induction xs with
  | nil => simp
  | cons x xs ih => rw [Field.allOf_cons, ih, List.forall_mem_cons]

mutual

/-- What is said of all types and fields can be weakened. -/
theorem CType.All.mono (hp : ∀ t, p t → p' t) (hq : ∀ x, q x → q' x) (t : CType)
    (h : t.All p q) : t.All p' q' := by
  match t with
  | ⟨shape, ident, expr, dimensions, members, name, parameters, depth, inner⟩ =>
    obtain ⟨hself, hmembers, hparameters, hinner⟩ := CType.all_iff.mp h
    exact CType.all_iff.mpr ⟨hp _ hself, Field.AllOf.mono hp hq members hmembers,
      Field.AllOf.mono hp hq parameters hparameters, CType.AllInner.mono hp hq inner hinner⟩
termination_by structural t

theorem CType.AllInner.mono (hp : ∀ t, p t → p' t) (hq : ∀ x, q x → q' x) (t : Option CType)
    (h : CType.AllInner p q t) : CType.AllInner p' q' t := by
  match t with
  | none => exact CType.allInner_none.mpr trivial
  | some t => exact CType.allInner_some.mpr (CType.All.mono hp hq t (CType.allInner_some.mp h))
termination_by structural t

theorem Field.All.mono (hp : ∀ t, p t → p' t) (hq : ∀ x, q x → q' x) (x : Field)
    (h : x.All p q) : x.All p' q' := by
  match x with
  | ⟨name, type, isOut, hasCount, isArray, isLength, isErased⟩ =>
    obtain ⟨hself, htype⟩ := Field.all_iff.mp h
    exact Field.all_iff.mpr ⟨hq _ hself, CType.All.mono hp hq type htype⟩
termination_by structural x

theorem Field.AllOf.mono (hp : ∀ t, p t → p' t) (hq : ∀ x, q x → q' x) (xs : List Field)
    (h : Field.AllOf p q xs) : Field.AllOf p' q' xs := by
  match xs with
  | [] => exact Field.allOf_nil.mpr trivial
  | x :: xs =>
    obtain ⟨hx, hxs⟩ := Field.allOf_cons.mp h
    exact Field.allOf_cons.mpr ⟨Field.All.mono hp hq x hx, Field.AllOf.mono hp hq xs hxs⟩
termination_by structural xs

end

end

/-! ## All lists of fields of a header -/

/-- All lists of fields of a header are `P`: the parameters of its functions, the members of its
structs and the entries of its tables of methods. -/
structure Header.EachList (P : List Field → Prop) (h : Header) : Prop where
  /-- The parameters of the functions. -/
  parameters : ∀ f ∈ h.functions, P f.parameters
  /-- The members of the structs. -/
  members : ∀ s ∈ h.structs, P s.fields
  /-- The entries of the tables of methods. -/
  entries : ∀ t ∈ h.vtables, P t.fields

/-- What is said of all lists of fields can be weakened. -/
theorem Header.EachList.mono {P Q : List Field → Prop} {h : Header} (hPQ : ∀ xs, P xs → Q xs)
    (hP : h.EachList P) : h.EachList Q :=
  ⟨fun f hf => hPQ _ (hP.parameters f hf), fun s hs => hPQ _ (hP.members s hs),
    fun t ht => hPQ _ (hP.entries t ht)⟩

/-! ## Declared types -/

/-- The type is as a header declares it: its shape has what it calls for, and no pass has given it an
expression. -/
structure CType.IsDeclared (t : CType) : Prop where
  /-- The type has no expression yet. -/
  expr : t.expr = ""
  /-- An array has dimensions. -/
  array : t.shape = .array → t.dimensions ≠ []
  /-- The first parameter of a method is its receiver. -/
  method : t.shape = .functionPointer → (t.parameters.head?.map Field.name) = some Grammar.receiverName
  /-- A pointer has indirections, and leads to a name or an array of the name it has itself. -/
  pointer : t.shape = .pointer → 1 ≤ t.depth ∧
    ∃ u, t.inner = some u ∧ (u.shape = .basic ∨ u.shape = .array) ∧ u.ident = t.ident

/-- The field is neither the array nor the length of a pair. -/
structure Field.IsUnpaired (x : Field) : Prop where
  /-- It is no array. -/
  isArray : x.isArray = false
  /-- It is no length. -/
  isLength : x.isLength = false

/-- All types of a list of fields are as headers declare them, and no field is paired. -/
abbrev Field.AreDeclared : List Field → Prop :=
  Field.AllOf CType.IsDeclared Field.IsUnpaired

/-- A header as it is read: all its types are declared, wherever they occur. -/
structure Header.IsDeclared (h : Header) : Prop where
  /-- All types are declared, and no field is paired. -/
  fields : h.EachList Field.AreDeclared
  /-- The tables of methods have no tables of their own. -/
  tables : ∀ t ∈ h.vtables, t.vtable = none

end SdkBindings
