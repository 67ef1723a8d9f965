import SdkBindings.Transform.Pipeline

/-!
# How the passes over fields get on with each other

Four passes go over the fields of a header: names are normalized, types resolved, arrays paired and
pointers erased.  A pass that reads nothing another one writes, and the other way round, can be
exchanged with it.  Resolution works from the types as they are declared and writes their
expressions; normalization writes names, erasure a mark that depends on the declared type.  So each
two of these three can be exchanged (`resolveFields_normalizeFields`, `resolveFields_eraseFields`,
`normalizeFields_eraseFields`).  Pairing goes by the names of fields and by declared types, so it can
be exchanged with erasure (`pairFields_eraseFields`), though not with the other two.

A pass that may stop is exchanged together with its failure and its notes, so nothing has to be said
about whether it succeeds.
-/

namespace SdkBindings.Transform

/-! ## What a type keeps -/

/-- The parts of a type that no pass changes and that decide how its field is treated. -/
def Keeps (t u : CType) : Prop :=
  u.shape = t.shape ∧ u.ident = t.ident ∧ u.depth = t.depth

/-- Resolution keeps them. -/
theorem resolveType_keeps (prefixes : List String) (t : CType) :
    Keeps t (resolveType prefixes t).value := by
  obtain ⟨shape, ident, expr, dimensions, members, name, parameters, depth, inner⟩ := t
  cases shape with
  | basic => exact ⟨rfl, rfl, rfl⟩
  | array => exact ⟨rfl, rfl, rfl⟩
  | pointer =>
    simp only [resolveType, Change.andThen]
    split
    · exact ⟨rfl, rfl, rfl⟩
    · split <;> exact ⟨rfl, rfl, rfl⟩
  | union =>
    simp only [resolveType, Change.andThen]
    split <;> exact ⟨rfl, rfl, rfl⟩
  | functionPointer =>
    simp only [resolveType, Change.andThen]
    split <;> exact ⟨rfl, rfl, rfl⟩

/-- Pairing keeps them. -/
theorem pairType_keeps (prefixes : List String) (owner : String) (t : CType) :
    Keeps t (pairType prefixes owner t).value := by
  obtain ⟨shape, ident, expr, dimensions, members, name, parameters, depth, inner⟩ := t
  cases shape <;> exact ⟨rfl, rfl, rfl⟩

/-- Erasure marks a field by the parts that are kept. -/
theorem eraseField_of_keeps {t u : CType} (h : Keeps t u) (name : String)
    (isOut hasCount isArray isLength isErased : Bool) :
    eraseField ⟨name, u, isOut, hasCount, isArray, isLength, isErased⟩ =
      ⟨name, eraseType u, isOut, hasCount, isArray, isLength,
        isErased || (t.isPointer && Rules.isErasedPointer t.ident t.depth)⟩ := by
  obtain ⟨hshape, hident, hdepth⟩ := h
  rw [eraseField, CType.isPointer, hshape, hident, hdepth]
  rfl

/-! ## Resolution and normalization -/

section

variable (prefixes : List String) (f : String → String)

mutual

/-- A type is resolved in the same way under new names. -/
theorem resolveType_normalizeType (t : CType) :
    resolveType prefixes (normalizeType f t) = (resolveType prefixes t).map (normalizeType f) := by
  match t with
  | ⟨shape, ident, expr, dimensions, members, name, parameters, depth, inner⟩ =>
    cases shape with
    | basic => rfl
    | array => rfl
    | pointer =>
      simp only [resolveType, normalizeType, Change.andThen_map]
      refine Change.andThen_congr ?_ rfl
      split <;> rfl
    | union =>
      simp only [resolveType, normalizeType, resolveFields_normalizeFields members,
        Change.andThen_map, Change.map_andThen]
      rfl
    | functionPointer =>
      simp only [resolveType, normalizeType, resolveFields_normalizeFields parameters,
        Change.andThen_map, Change.map_andThen]
      rfl
termination_by structural t

/-- A field is resolved in the same way under new names. -/
theorem resolveField_normalizeField (x : Field) :
    resolveField prefixes (normalizeField f x) = (resolveField prefixes x).map (normalizeField f) := by
  match x with
  | ⟨name, type, isOut, hasCount, isArray, isLength, isErased⟩ =>
    simp only [resolveField, normalizeField, resolveType_normalizeType type, Change.map_map]
termination_by structural x

/-- Fields are resolved in the same way under new names. -/
theorem resolveFields_normalizeFields (xs : List Field) :
    resolveFields prefixes (normalizeFields f xs) =
      (resolveFields prefixes xs).map (normalizeFields f) := by
  match xs with
  | [] => rfl
  | x :: xs =>
    simp only [resolveFields, normalizeFields, resolveField_normalizeField x,
      resolveFields_normalizeFields xs, Change.andThen_map, Change.map_andThen, Change.map_map]
termination_by structural xs

end

end

/-! ## Resolution and erasure -/

section

variable (prefixes : List String)

mutual

/-- A type is resolved in the same way with erased parameters. -/
theorem resolveType_eraseType (t : CType) :
    resolveType prefixes (eraseType t) = (resolveType prefixes t).map eraseType := by
  match t with
  | ⟨shape, ident, expr, dimensions, members, name, parameters, depth, inner⟩ =>
    cases shape with
    | basic => rfl
    | array => rfl
    | pointer =>
      simp only [resolveType, eraseType, Change.andThen_map]
      refine Change.andThen_congr ?_ rfl
      split <;> rfl
    | union =>
      simp only [resolveType, eraseType, Change.andThen_map]
      rfl
    | functionPointer =>
      simp only [resolveType, eraseType, resolveFields_eraseFields parameters,
        Change.andThen_map, Change.map_andThen]
      rfl
termination_by structural t

/-- A field is resolved in the same way when it is marked. -/
theorem resolveField_eraseField (x : Field) :
    resolveField prefixes (eraseField x) = (resolveField prefixes x).map eraseField := by
  match x with
  | ⟨name, type, isOut, hasCount, isArray, isLength, isErased⟩ =>
    simp only [resolveField, eraseField, resolveType_eraseType type, Change.map_map]
    refine Change.map_congr ?_
    exact (eraseField_of_keeps (resolveType_keeps prefixes type) ..).symm
termination_by structural x

/-- Fields are resolved in the same way when they are marked. -/
theorem resolveFields_eraseFields (xs : List Field) :
    resolveFields prefixes (eraseFields xs) = (resolveFields prefixes xs).map eraseFields := by
  match xs with
  | [] => rfl
  | x :: xs =>
    simp only [resolveFields, eraseFields, resolveField_eraseField x,
      resolveFields_eraseFields xs, Change.andThen_map, Change.map_andThen, Change.map_map]
termination_by structural xs

end

end

/-! ## Normalization and erasure -/

section

variable (f : String → String)

mutual

/-- The parameters of a method are marked under new names as under the old ones. -/
theorem normalizeType_eraseType (t : CType) :
    normalizeType f (eraseType t) = eraseType (normalizeType f t) := by
  match t with
  | ⟨shape, ident, expr, dimensions, members, name, parameters, depth, inner⟩ =>
    cases shape with
    | functionPointer => simp only [normalizeType, eraseType, normalizeFields_eraseFields parameters]
    | _ => rfl
termination_by structural t

/-- A field is marked under its new name as under the old one. -/
theorem normalizeField_eraseField (x : Field) :
    normalizeField f (eraseField x) = eraseField (normalizeField f x) := by
  match x with
  | ⟨name, type, isOut, hasCount, isArray, isLength, isErased⟩ =>
    have hkeeps : Keeps type (normalizeType f type) := by
      obtain ⟨shape, ident, expr, dimensions, members, name, parameters, depth, inner⟩ := type
      cases shape <;> exact ⟨rfl, rfl, rfl⟩
    rw [normalizeField, eraseField_of_keeps hkeeps, eraseField, normalizeField,
      normalizeType_eraseType type]
termination_by structural x

/-- Fields are marked under new names as under the old ones. -/
theorem normalizeFields_eraseFields (xs : List Field) :
    normalizeFields f (eraseFields xs) = eraseFields (normalizeFields f xs) := by
  match xs with
  | [] => rfl
  | x :: xs =>
    simp only [normalizeFields, eraseFields, normalizeField_eraseField x,
      normalizeFields_eraseFields xs]
termination_by structural xs

end

end

/-! ## Pairing and erasure -/

/-- A field and the outcome of pairing inside it, both marked. -/
def Inside.erase (i : Inside) : Inside :=
  ⟨eraseField i.field, i.change.map eraseField⟩

section

variable (prefixes : List String) (owner : String)

/-- A marked field has its name. -/
theorem name_eraseField (x : Field) : (eraseField x).name = x.name := by
  obtain ⟨name, type, _⟩ := x
  rfl

/-- A marked field has a type of the same shape. -/
theorem shape_eraseField (x : Field) : (eraseField x).type.shape = x.type.shape := by
  obtain ⟨name, ⟨shape, _⟩, _⟩ := x
  cases shape <;> rfl

/-- A length is marked under the name of its array as under its own. -/
theorem asLength_eraseField (count : Field) (array : String) :
    asLength (eraseField count) array = eraseField (asLength count array) := by
  obtain ⟨name, type, _⟩ := count
  rfl

/-- An array is marked like the parameter it was. -/
theorem asArray_eraseField (array : Field) : asArray (eraseField array) = eraseField (asArray array) := by
  obtain ⟨name, type, _⟩ := array
  rfl

/-- An array is marked by the type of the parameter, whatever its elements are. -/
theorem withElementType_eraseField (array : Field) (expr : String) :
    withElementType (eraseField array) expr = eraseField (withElementType array expr) := by
  obtain ⟨name, ⟨shape, _⟩, _⟩ := array
  cases shape <;> rfl

/-- A mark changes nothing about the element type of an array. -/
theorem elementType_eraseField (array : Field) :
    elementType prefixes owner (eraseField array) = elementType prefixes owner array := by
  obtain ⟨name, ⟨shape, _⟩, _⟩ := array
  cases shape <;> rfl

/-- A mark changes nothing about what may be an array. -/
theorem isPairable_eraseField (x : Field) : isPairable (eraseField x) = isPairable x := by
  obtain ⟨name, ⟨shape, _⟩, _⟩ := x
  cases shape <;> rfl

/-- A mark changes nothing about what may be a length. -/
theorem companionSide?_eraseField (x : Field) :
    companionSide? (eraseField x) = companionSide? x := by
  obtain ⟨name, ⟨shape, _⟩, _⟩ := x
  cases shape <;> rfl

/-- Two marked fields are paired like the fields themselves. -/
theorem pair_eraseField (count array : Field) :
    pair prefixes owner (eraseField count) (eraseField array) =
      (pair prefixes owner count array).map fun (f, n) => (eraseField f, eraseField n) := by
  unfold pair
  rw [elementType_eraseField]
  split
  · rw [withElementType_eraseField, asLength_eraseField, name_eraseField, name_eraseField]
    rfl
  · rw [asArray_eraseField, asLength_eraseField, name_eraseField, name_eraseField]
    rfl
  · rfl

/-- A field among its neighbours, all of them marked, is dealt with like the fields themselves. -/
theorem pairStep_erase (previous next : Option Field) (current : Inside) :
    pairStep prefixes owner (previous.map eraseField) current.erase (next.map eraseField) =
      (pairStep prefixes owner previous current next).map
        fun (p, f, n) => (p.map eraseField, eraseField f, n.map eraseField) := by
  unfold pairStep
  simp only [Inside.erase, shape_eraseField, companionSide?_eraseField]
  split
  · rfl
  · rename_i hmethod
    cases hside : companionSide? current.field with
    | none => rfl
    | some side =>
      cases side with
      | next =>
        cases next with
        | none => cases previous <;> rfl
        | some n =>
          simp only [Option.map_some, isPairable_eraseField, pair_eraseField]
          split <;> rfl
      | previous =>
        cases previous with
        | none => rfl
        | some p =>
          simp only [Option.map_some, isPairable_eraseField, pair_eraseField]
          split <;> rfl

/-- The fields in front of a place, marked. -/
theorem toList_map_append (previous : Option Field) (fields : List Field) :
    (previous.map eraseField).toList ++ fields.map eraseField =
      (previous.toList ++ fields).map eraseField := by
  cases previous <;> rfl

/-- A walk over marked fields goes like the walk over the fields themselves. -/
theorem pairWalk_erase (previous : Option Field) (current : Inside) (rest : List Inside) :
    pairWalk prefixes owner (previous.map eraseField) current.erase (rest.map Inside.erase) =
      (pairWalk prefixes owner previous current rest).map (List.map eraseField) := by
  induction rest generalizing previous current with
  | nil =>
    have hstep := pairStep_erase prefixes owner previous none current
    rw [Option.map_none] at hstep
    rw [List.map_nil, pairWalk, pairWalk, hstep, Change.map_map, Change.map_map]
    exact Change.map_congr (toList_map_append _ [_])
  | cons next rest ih =>
    have hstep := pairStep_erase prefixes owner previous (some next.field) current
    rw [List.map_cons, pairWalk, pairWalk]
    change (pairStep prefixes owner _ _ ((some next.field).map eraseField)).andThen _ _ = _
    rw [hstep, Change.map_andThen, Change.andThen_map]
    generalize pairStep prefixes owner previous current (some next.field) = step
    obtain ⟨⟨p, f, n⟩, notes, failure⟩ := step
    have hnext : ({ next.erase with field := (n.map eraseField).getD next.erase.field } : Inside) =
        Inside.erase { next with field := n.getD next.field } := by
      cases n <;> rfl
    refine Change.andThen_congr ?_ ?_
    · dsimp only
      rw [hnext]
      change (pairWalk prefixes owner ((some f).map eraseField) _ _).map _ = _
      rw [ih, Change.map_map, Change.map_map]
      exact Change.map_congr (toList_map_append p _)
    · have hrest : (rest.map Inside.erase).map Inside.field =
          (rest.map Inside.field).map eraseField := by
        rw [List.map_map, List.map_map]
        rfl
      dsimp only
      rw [hrest]
      cases p <;> cases n <;> simp

/-- Marked fields are paired like the fields themselves. -/
theorem pairList_erase (fields : List Inside) :
    pairList prefixes owner (fields.map Inside.erase) =
      (pairList prefixes owner fields).map (List.map eraseField) := by
  cases fields with
  | nil => rfl
  | cons first rest => exact pairWalk_erase prefixes owner none first rest

end

section

variable (prefixes : List String)

/-- Marking a list of fields marks each of them. -/
theorem eraseFields_eq_map (xs : List Field) : eraseFields xs = xs.map eraseField := by
  induction xs with
  | nil => rfl
  | cons x xs ih => rw [eraseFields, ih, List.map_cons]

mutual

/-- The parameters of a method are paired when they are marked like the parameters themselves. -/
theorem pairType_eraseType (owner : String) (t : CType) :
    pairType prefixes owner (eraseType t) = (pairType prefixes owner t).map eraseType := by
  match t with
  | ⟨shape, ident, expr, dimensions, members, name, parameters, depth, inner⟩ =>
    cases shape with
    | functionPointer =>
      simp only [pairType, eraseType, insideFields_eraseFields owner parameters, pairList_erase,
        Change.map_map, ← eraseFields_eq_map]
    | _ => rfl
termination_by structural t

/-- The inside of a marked field is that of the field itself, marked. -/
theorem insideField_eraseField (owner : String) (x : Field) :
    insideField prefixes owner (eraseField x) = (insideField prefixes owner x).erase := by
  match x with
  | ⟨name, type, isOut, hasCount, isArray, isLength, isErased⟩ =>
    simp only [insideField, eraseField, pairType_eraseType (owner ++ "." ++ name) type, Inside.erase,
      Change.map_map]
    refine congrArg _ (Change.map_congr ?_)
    exact (eraseField_of_keeps (pairType_keeps prefixes _ type) ..).symm
termination_by structural x

/-- The insides of marked fields are those of the fields themselves, marked. -/
theorem insideFields_eraseFields (owner : String) (xs : List Field) :
    insideFields prefixes owner (eraseFields xs) =
      (insideFields prefixes owner xs).map Inside.erase := by
  match xs with
  | [] => rfl
  | x :: xs =>
    simp only [insideFields, eraseFields, insideField_eraseField owner x,
      insideFields_eraseFields owner xs, List.map_cons]
termination_by structural xs

end

/-- Fields are paired when they are marked like the fields themselves. -/
theorem pairFields_eraseFields (owner : String) (xs : List Field) :
    pairFields prefixes owner (eraseFields xs) =
      (pairFields prefixes owner xs).map eraseFields := by
  rw [pairFields, pairFields, insideFields_eraseFields, pairList_erase]
  exact Change.map_congr (eraseFields_eq_map _).symm

end

end SdkBindings.Transform
