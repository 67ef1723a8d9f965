import SdkBindings.Proofs.Declared.Reading
import SdkBindings.Proofs.Transform.Fields
import SdkBindings.Run.Failure
import SdkBindings.Transform.Pipeline

/-!
# Declared headers can be transformed

Of the errors of the passes one is not foreseen: that a pointer leads nowhere.  The passes never meet
it in a header that has been read.  What they rely on is that every pointer has something it points to
(`CType.HasTarget`), which is part of being declared.

That is one of the things that can be said of a type through all passes.  What has to be shown of such a
thing is that it stays when the type itself is dealt with (`IsKept`).  Then every pass keeps it, also
inside methods, unions and tables of methods (`meets_apply`), and so it holds from pass to pass, in
whatever order they come (`meets_applyAll`).

A table of methods that several structs refer to is changed several times, so a pass has to keep what
it relies on even where nothing comes after it.
-/

namespace SdkBindings

/-! ## Changes that keep to what they say -/

namespace Change

variable {ε ν α β : Type} {P : α → Prop} {Q : β → Prop} {E : ε → Prop}

/-- A change that is complete leads to a value that is `P`, and one that stopped did so for a reason
that is `E`. -/
structure Meets (c : Change ε ν α) (P : α → Prop) (E : ε → Prop) : Prop where
  /-- What is reached. -/
  value : c.failure = none → P c.value
  /-- Why it stopped. -/
  failure : ∀ e, c.failure = some e → E e

namespace Meets

theorem done {x : α} (h : P x) : (Change.done x : Change ε ν α).Meets P E :=
  ⟨fun _ => h, nofun⟩

/-- A change seen in a larger value. -/
theorem map {c : Change ε ν α} {f : α → β} (hc : c.Meets P E) (hf : ∀ x, P x → Q (f x)) :
    (c.map f).Meets Q E :=
  ⟨fun h => hf _ (hc.value h), hc.failure⟩

/-- Going on may rely on what was reached. -/
theorem andThen {c : Change ε ν α} {further : α → Change ε ν β} {stop : α → β} (hc : c.Meets P E)
    (hfurther : ∀ x, P x → (further x).Meets Q E) : (c.andThen further stop).Meets Q E := by
  unfold Change.andThen
  cases hfailure : c.failure with
  | none =>
    have hrest := hfurther c.value (hc.value hfailure)
    exact ⟨hrest.value, hrest.failure⟩
  | some e =>
    refine ⟨nofun, fun e' he' => ?_⟩
    cases he'
    exact hc.failure e hfailure

/-- Items that are changed one after the other. -/
theorem each {f : α → Change ε ν α} {xs : List α} (hf : ∀ x, P x → (f x).Meets P E)
    (hxs : ∀ x ∈ xs, P x) : (Change.each f xs).Meets (fun ys => ∀ y ∈ ys, P y) E := by
  induction xs with
  | nil => exact done hxs
  | cons x xs ih =>
    obtain ⟨hx, hxs⟩ := List.forall_mem_cons.mp hxs
    refine andThen (hf x hx) fun y hy => ?_
    exact map (ih hxs) fun ys hys => List.forall_mem_cons.mpr ⟨hy, hys⟩

end Meets

end Change

namespace Header

variable {ε ν : Type} {f : FieldChange ε ν} {P : List Field → Prop} {E : ε → Prop}

/-- Changing a struct changes its members and one table. -/
theorem meets_changeStruct (hf : ∀ owner xs, P xs → (f owner xs).Meets P E) {s : Struct}
    {tables : List Vtable} (hs : P s.fields) (htables : ∀ t ∈ tables, P t.fields) :
    (changeStruct f s tables).Meets (fun p => P p.1.fields ∧ ∀ t ∈ p.2, P t.fields) E := by
  have hmembers : ((f s.ident s.fields).map fun fields => { s with fields }).Meets
      (fun s => P s.fields) E := (hf _ _ hs).map fun _ h => h
  refine hmembers.andThen fun s' hs' => ?_
  split
  · exact .done ⟨hs', htables⟩
  · rename_i i t hplace
    have ht : t ∈ tables := by
      obtain ⟨j, -, hj⟩ := Option.bind_eq_some_iff.mp hplace
      obtain ⟨u, hu, hpair⟩ := Option.map_eq_some_iff.mp hj
      cases hpair
      exact List.mem_of_getElem? hu
    refine (hf _ _ (htables t ht)).map fun fields hfields => ⟨hs', fun u hu => ?_⟩
    rcases List.mem_or_eq_of_mem_set hu with hu | hu
    · exact htables u hu
    · rwa [hu]

/-- Structs are changed one after the other, and with them the tables. -/
theorem meets_changeStructs (hf : ∀ owner xs, P xs → (f owner xs).Meets P E) {structs : List Struct}
    {tables : List Vtable} (hs : ∀ s ∈ structs, P s.fields) (htables : ∀ t ∈ tables, P t.fields) :
    (changeStructs f tables structs).Meets
      (fun p => (∀ s ∈ p.1, P s.fields) ∧ ∀ t ∈ p.2, P t.fields) E := by
  induction structs generalizing tables with
  | nil => exact .done ⟨hs, htables⟩
  | cons s rest ih =>
    obtain ⟨hfirst, hrest⟩ := List.forall_mem_cons.mp hs
    refine (meets_changeStruct hf hfirst htables).andThen fun p hp => ?_
    exact (ih hrest hp.2).map fun q hq => ⟨List.forall_mem_cons.mpr ⟨hp.1, hq.1⟩, hq.2⟩

/-- A change that is kept to on every list of fields is kept to on the header. -/
theorem meets_changeFields (hf : ∀ owner xs, P xs → (f owner xs).Meets P E) {h : Header}
    (hP : h.EachList P) : (h.changeFields f).Meets (EachList P) E := by
  have hfunction : ∀ fn : Function, P fn.parameters →
      ((f fn.ident fn.parameters).map fun parameters => ({ fn with parameters } : Function)).Meets
        (fun fn => P fn.parameters) E :=
    fun fn hfn => (hf _ _ hfn).map fun _ h => h
  refine (Change.Meets.each hfunction hP.parameters).andThen fun functions hfunctions => ?_
  refine (meets_changeStructs hf hP.members hP.entries).map fun p hp => ?_
  exact ⟨hfunctions, hp.1, hp.2⟩

end Header

/-- The error is that of a declaration for which a pass has no rule; the other one is that a pointer
leads nowhere. -/
def TransformError.IsInvariant : TransformError → Prop
  | .noInnerType _ => False
  | _ => True

/-- A pointer has something it points to. -/
def CType.HasTarget (t : CType) : Prop :=
  t.shape = .pointer → t.inner.isSome

namespace Transform

/-- All types inside a list of fields are `P`. -/
abbrev HoldsInFields (P : CType → Prop) : List Field → Prop :=
  Field.AllOf P fun _ => True

/-- All types inside a field are `P`. -/
abbrev HoldsInField (P : CType → Prop) : Field → Prop :=
  Field.All P fun _ => True

/-- A type is `P`, and so are all types inside it. -/
abbrev HoldsIn (P : CType → Prop) : CType → Prop :=
  CType.All P fun _ => True

/-- What is said of types stays through the passes: it gives pointers something they point to, it is not
about names and fields inside of a type, and it is said of a resolved type and of a pointer with the expression
of fewer indirections as well. -/
structure IsKept (prefixes : List String) (P : CType → Prop) : Prop where
  /-- A pointer has something it points to. -/
  target : ∀ t, P t → t.HasTarget
  /-- The name of a method and the fields inside of a type do not matter. -/
  inside : ∀ t members name parameters, P t → P { t with members, name, parameters }
  /-- It is said of a resolved type. -/
  resolve : ∀ t, P t → (resolveType prefixes t).failure = none → P (resolveType prefixes t).value
  /-- It is said of a pointer with the expression of fewer indirections. -/
  element : ∀ t depth expr, P t → t.shape = .pointer → pointerTo prefixes t depth = .ok expr →
    P { t with expr }

section

variable {P : CType → Prop}

/-- Something holds in a field if it holds in its type. -/
theorem holdsInField_iff {x : Field} : HoldsInField P x ↔ HoldsIn P x.type :=
  Field.all_iff.trans (and_iff_right trivial)

/-- What holds of a changed type and of what is inside of it holds in the type. -/
theorem meets_holdsIn {c : Change TransformError Unit CType} (hself : c.failure = none → P c.value)
    (hinside : c.Meets (fun t => HoldsInFields P t.members ∧ HoldsInFields P t.parameters ∧
      CType.AllInner P (fun _ => True) t.inner) TransformError.IsInvariant) :
    c.Meets (HoldsIn P) TransformError.IsInvariant :=
  ⟨fun hnone => CType.all_iff.mpr ⟨hself hnone, hinside.value hnone⟩, hinside.failure⟩

/-- What holds of declared types holds in declared fields. -/
theorem holdsInFields_of_areDeclared (hP : ∀ t : CType, t.IsDeclared → P t) {xs : List Field}
    (h : Field.AreDeclared xs) : HoldsInFields P xs :=
  Field.AllOf.mono hP (fun _ _ => trivial) xs h

end

variable {prefixes : List String} {P : CType → Prop}

/-! ## Normalization and erasure -/

section

variable (f : String → String)

mutual

/-- New names leave the types inside of a type alone. -/
theorem holdsIn_normalizeType (hP : IsKept prefixes P) (t : CType) (h : HoldsIn P t) :
    HoldsIn P (normalizeType f t) := by
  match t with
  | ⟨shape, ident, expr, dimensions, members, name, parameters, depth, inner⟩ =>
    obtain ⟨hself, hmembers, hparameters, hinner⟩ := CType.all_iff.mp h
    cases shape with
    | functionPointer =>
      exact CType.all_iff.mpr ⟨hP.inside _ members (f name) (normalizeFields f parameters) hself,
        hmembers, holdsInFields_normalizeFields hP parameters hparameters, hinner⟩
    | union =>
      exact CType.all_iff.mpr ⟨hP.inside _ (normalizeFields f members) name parameters hself,
        holdsInFields_normalizeFields hP members hmembers, hparameters, hinner⟩
    | _ => exact h
termination_by structural t

theorem holdsInField_normalizeField (hP : IsKept prefixes P) (x : Field) (h : HoldsInField P x) :
    HoldsInField P (normalizeField f x) := by
  match x with
  | ⟨name, type, isOut, hasCount, isArray, isLength, isErased⟩ =>
    exact holdsInField_iff.mpr (holdsIn_normalizeType hP type (holdsInField_iff.mp h))
termination_by structural x

theorem holdsInFields_normalizeFields (hP : IsKept prefixes P) (xs : List Field)
    (h : HoldsInFields P xs) : HoldsInFields P (normalizeFields f xs) := by
  match xs with
  | [] => exact h
  | x :: xs =>
    obtain ⟨hx, hxs⟩ := Field.allOf_cons.mp h
    exact Field.allOf_cons.mpr
      ⟨holdsInField_normalizeField hP x hx, holdsInFields_normalizeFields hP xs hxs⟩
termination_by structural xs

end

end

mutual

/-- Marks leave the types inside of a type alone. -/
theorem holdsIn_eraseType (hP : IsKept prefixes P) (t : CType) (h : HoldsIn P t) :
    HoldsIn P (eraseType t) := by
  match t with
  | ⟨shape, ident, expr, dimensions, members, name, parameters, depth, inner⟩ =>
    obtain ⟨hself, hmembers, hparameters, hinner⟩ := CType.all_iff.mp h
    cases shape with
    | functionPointer =>
      exact CType.all_iff.mpr ⟨hP.inside _ members name (eraseFields parameters) hself, hmembers,
        holdsInFields_eraseFields hP parameters hparameters, hinner⟩
    | _ => exact h
termination_by structural t

theorem holdsInField_eraseField (hP : IsKept prefixes P) (x : Field) (h : HoldsInField P x) :
    HoldsInField P (eraseField x) := by
  match x with
  | ⟨name, type, isOut, hasCount, isArray, isLength, isErased⟩ =>
    exact holdsInField_iff.mpr (holdsIn_eraseType hP type (holdsInField_iff.mp h))
termination_by structural x

theorem holdsInFields_eraseFields (hP : IsKept prefixes P) (xs : List Field)
    (h : HoldsInFields P xs) : HoldsInFields P (eraseFields xs) := by
  match xs with
  | [] => exact h
  | x :: xs =>
    obtain ⟨hx, hxs⟩ := Field.allOf_cons.mp h
    exact Field.allOf_cons.mpr ⟨holdsInField_eraseField hP x hx, holdsInFields_eraseFields hP xs hxs⟩
termination_by structural xs

end

/-! ## Resolution -/

mutual

/-- Types whose pointers lead somewhere are resolved, and what holds in them still does. -/
theorem meets_resolveType (hP : IsKept prefixes P) (t : CType) (h : HoldsIn P t) :
    (resolveType prefixes t).Meets (HoldsIn P) TransformError.IsInvariant := by
  match t with
  | ⟨shape, ident, expr, dimensions, members, name, parameters, depth, inner⟩ =>
    obtain ⟨hself, hmembers, hparameters, hinner⟩ := CType.all_iff.mp h
    refine meets_holdsIn (hP.resolve _ hself) ?_
    cases shape with
    | basic => exact .done ⟨hmembers, hparameters, hinner⟩
    | array => exact .done ⟨hmembers, hparameters, hinner⟩
    | pointer =>
      rw [resolveType]
      refine (meets_resolveInner hP inner hinner).andThen fun resolved hresolved => ?_
      obtain ⟨u, hu⟩ := Option.isSome_iff_exists.mp (hresolved.2 (hP.target _ hself rfl))
      simp only [pointerTo, hu]
      exact .done ⟨hmembers, hparameters, hu ▸ hresolved.1⟩
    | union =>
      rw [resolveType]
      refine (meets_resolveFields hP members hmembers).andThen fun members hmembers => ?_
      exact .done ⟨hmembers, hparameters, hinner⟩
    | functionPointer =>
      rw [resolveType]
      refine (meets_resolveFields hP parameters hparameters).andThen fun parameters hparameters => ?_
      exact .done ⟨hmembers, hparameters, hinner⟩
termination_by structural t

theorem meets_resolveInner (hP : IsKept prefixes P) (t : Option CType)
    (h : CType.AllInner P (fun _ => True) t) :
    (resolveInner prefixes t).Meets
      (fun u => CType.AllInner P (fun _ => True) u ∧ (t.isSome → u.isSome))
      TransformError.IsInvariant := by
  match t with
  | none => exact .done ⟨h, nofun⟩
  | some t =>
    refine (meets_resolveType hP t (CType.allInner_some.mp h)).map fun u hu => ?_
    exact ⟨CType.allInner_some.mpr hu, fun _ => rfl⟩
termination_by structural t

theorem meets_resolveField (hP : IsKept prefixes P) (x : Field) (h : HoldsInField P x) :
    (resolveField prefixes x).Meets (HoldsInField P) TransformError.IsInvariant := by
  match x with
  | ⟨name, type, isOut, hasCount, isArray, isLength, isErased⟩ =>
    rw [resolveField]
    refine (meets_resolveType hP type (holdsInField_iff.mp h)).map fun u hu => ?_
    exact holdsInField_iff.mpr hu
termination_by structural x

theorem meets_resolveFields (hP : IsKept prefixes P) (xs : List Field) (h : HoldsInFields P xs) :
    (resolveFields prefixes xs).Meets (HoldsInFields P) TransformError.IsInvariant := by
  match xs with
  | [] => exact .done h
  | x :: xs =>
    obtain ⟨hx, hxs⟩ := Field.allOf_cons.mp h
    refine (meets_resolveField hP x hx).andThen fun y hy => ?_
    exact (meets_resolveFields hP xs hxs).map fun ys hys => Field.allOf_cons.mpr ⟨hy, hys⟩
termination_by structural xs

end

/-! ## Pairing -/

section

variable (hP : IsKept prefixes P) (owner : String)

include hP

/-- The element type of an array is there unless the array has too many indirections. -/
theorem isInvariant_of_elementType {array : Field} (h : HoldsInField P array)
    (hpointer : array.type.isPointer = true) {e : TransformError}
    (he : elementType prefixes owner array = .error e) : e.IsInvariant := by
  have hself : array.type.HasTarget := hP.target _ (CType.all_iff.mp (holdsInField_iff.mp h)).1
  obtain ⟨u, hu⟩ := Option.isSome_iff_exists.mp (hself (of_decide_eq_true hpointer))
  unfold elementType pointerTo at he
  simp only [hu] at he
  split at he
  · cases he
    trivial
  · cases he

/-- What holds in an array holds in it with the type of its elements. -/
theorem holdsInField_withElementType {array : Field} (h : HoldsInField P array)
    (hpointer : array.type.isPointer = true) {expr : String}
    (hexpr : elementType prefixes owner array = .ok expr) :
    HoldsInField P (withElementType array expr) := by
  obtain ⟨hself, hinside⟩ := CType.all_iff.mp (holdsInField_iff.mp h)
  have hshape : array.type.shape = .pointer := of_decide_eq_true hpointer
  unfold elementType at hexpr
  split at hexpr
  · cases hexpr
  · exact holdsInField_iff.mpr
      (CType.all_iff.mpr ⟨hP.element _ _ _ hself hshape hexpr, hinside⟩)

/-- A length and an array can be paired, and what holds in them still does. -/
theorem meets_pair {count array : Field} (hcount : HoldsInField P count)
    (harray : HoldsInField P array) (hpairable : isPairable array = true) :
    (pair prefixes owner count array).Meets (fun r => HoldsInField P r.1 ∧ HoldsInField P r.2)
      TransformError.IsInvariant := by
  have hpointer : array.type.isPointer = true := (Bool.and_eq_true_iff.mp hpairable).2
  have hlength (name : String) : HoldsInField P (asLength count name) := by
    have htype := holdsInField_iff.mp hcount
    exact holdsInField_iff.mpr htype
  unfold pair
  split
  · rename_i expr hexpr
    exact ⟨fun _ => ⟨hlength _, holdsInField_withElementType hP owner harray hpointer hexpr⟩, nofun⟩
  · rename_i ident herror
    exact (isInvariant_of_elementType hP owner harray hpointer herror).elim
  · rename_i e _ herror
    refine ⟨nofun, fun e' he' => ?_⟩
    cases he'
    exact isInvariant_of_elementType hP owner harray hpointer herror

omit hP in
/-- Something holds in a field, and in what pairing inside of it makes of it. -/
structure Inside.Holds (P : CType → Prop) (i : Inside) : Prop where
  /-- As it stands in its list. -/
  field : HoldsInField P i.field
  /-- After pairing inside it. -/
  change : i.change.Meets (HoldsInField P) TransformError.IsInvariant

/-- Dealing with a field keeps what holds in it and in its neighbours. -/
theorem meets_pairStep {previous next : Option Field} {current : Inside}
    (hprevious : ∀ x ∈ previous, HoldsInField P x) (hcurrent : current.Holds P)
    (hnext : ∀ x ∈ next, HoldsInField P x) :
    (pairStep prefixes owner previous current next).Meets
      (fun r => (∀ x ∈ r.1, HoldsInField P x) ∧ HoldsInField P r.2.1 ∧ ∀ x ∈ r.2.2, HoldsInField P x)
      TransformError.IsInvariant := by
  have hsame : (Change.done (previous, current.field, next) :
      Change TransformError Pairing (Option Field × Field × Option Field)).Meets
      (fun r => (∀ x ∈ r.1, HoldsInField P x) ∧ HoldsInField P r.2.1 ∧ ∀ x ∈ r.2.2, HoldsInField P x)
      TransformError.IsInvariant := .done ⟨hprevious, hcurrent.field, hnext⟩
  have hsome {x : Field} (hx : HoldsInField P x) : ∀ y ∈ some x, HoldsInField P y :=
    fun y hy => Option.mem_some.mp hy ▸ hx
  unfold pairStep
  extract_lets f
  split
  · exact hcurrent.change.map fun x hx => ⟨hprevious, hx, hnext⟩
  split
  · rename_i n _
    split
    · rename_i hpairable
      refine (meets_pair hP owner hcurrent.field (hnext n rfl) hpairable).map fun r hr => ?_
      exact ⟨hprevious, hr.1, hsome hr.2⟩
    · exact hsame
  · rename_i x _
    split
    · rename_i hpairable
      refine (meets_pair hP owner hcurrent.field (hprevious x rfl) hpairable).map fun r hr => ?_
      exact ⟨hsome hr.2, hr.1, hnext⟩
    · exact hsame
  · exact hsame

omit hP in
/-- Fields in front of a place and behind it. -/
theorem holdsInFields_toList_append {previous : Option Field} {xs : List Field}
    (hprevious : ∀ x ∈ previous, HoldsInField P x) (hxs : HoldsInFields P xs) :
    HoldsInFields P (previous.toList ++ xs) := by
  cases previous with
  | none => exact hxs
  | some x => exact Field.allOf_cons.mpr ⟨hprevious x rfl, hxs⟩

/-- A walk over fields keeps what holds in them. -/
theorem meets_pairWalk {previous : Option Field} {current : Inside} {rest : List Inside}
    (hprevious : ∀ x ∈ previous, HoldsInField P x) (hcurrent : current.Holds P)
    (hrest : ∀ i ∈ rest, i.Holds P) :
    (pairWalk prefixes owner previous current rest).Meets (HoldsInFields P)
      TransformError.IsInvariant := by
  induction rest generalizing previous current with
  | nil =>
    have hnext : ∀ x ∈ (none : Option Field), HoldsInField P x := nofun
    refine (meets_pairStep hP owner hprevious hcurrent hnext).map fun r hr => ?_
    exact holdsInFields_toList_append hr.1
      (Field.allOf_cons.mpr ⟨hr.2.1, Field.allOf_nil.mpr trivial⟩)
  | cons next rest ih =>
    obtain ⟨hnext, hrest⟩ := List.forall_mem_cons.mp hrest
    have hfield : ∀ x ∈ some next.field, HoldsInField P x :=
      fun x hx => Option.mem_some.mp hx ▸ hnext.field
    rw [pairWalk]
    refine (meets_pairStep hP owner hprevious hcurrent hfield).andThen fun r hr => ?_
    have hchanged : Inside.Holds P { next with field := r.2.2.getD next.field } := by
      refine ⟨?_, hnext.change⟩
      cases hn : r.2.2 with
      | none => exact hnext.field
      | some n => exact hr.2.2 n hn
    have hwalk := ih (fun x hx => Option.mem_some.mp hx ▸ hr.2.1) hchanged hrest
    exact hwalk.map fun ys hys => holdsInFields_toList_append hr.1 hys

/-- A whole list keeps what holds in it. -/
theorem meets_pairList {fields : List Inside} (h : ∀ i ∈ fields, i.Holds P) :
    (pairList prefixes owner fields).Meets (HoldsInFields P) TransformError.IsInvariant := by
  cases fields with
  | nil => exact .done (Field.allOf_nil.mpr trivial)
  | cons first rest =>
    obtain ⟨hfirst, hrest⟩ := List.forall_mem_cons.mp h
    exact meets_pairWalk hP owner nofun hfirst hrest

end

mutual

/-- What holds in a type holds in it after the parameters of a method are paired. -/
theorem meets_pairType (hP : IsKept prefixes P) (owner : String) (t : CType) (h : HoldsIn P t) :
    (pairType prefixes owner t).Meets (HoldsIn P) TransformError.IsInvariant := by
  match t with
  | ⟨shape, ident, expr, dimensions, members, name, parameters, depth, inner⟩ =>
    obtain ⟨hself, hmembers, hparameters, hinner⟩ := CType.all_iff.mp h
    cases shape with
    | functionPointer =>
      rw [pairType]
      refine (meets_pairList hP owner (holds_insideFields hP owner parameters hparameters)).map
        fun parameters hparameters => ?_
      exact CType.all_iff.mpr
        ⟨hP.inside _ members name parameters hself, hmembers, hparameters, hinner⟩
    | _ => exact .done h
termination_by structural t

theorem holds_insideField (hP : IsKept prefixes P) (owner : String) (x : Field) (h : HoldsInField P x) :
    (insideField prefixes owner x).Holds P := by
  match x with
  | ⟨name, type, isOut, hasCount, isArray, isLength, isErased⟩ =>
    rw [insideField]
    have htype := meets_pairType hP (owner ++ "." ++ name) type (holdsInField_iff.mp h)
    refine ⟨h, ?_⟩
    dsimp only
    exact htype.map fun u hu => holdsInField_iff.mpr hu
termination_by structural x

theorem holds_insideFields (hP : IsKept prefixes P) (owner : String) (xs : List Field) (h : HoldsInFields P xs) :
    ∀ i ∈ insideFields prefixes owner xs, i.Holds P := by
  match xs with
  | [] => exact nofun
  | x :: xs =>
    obtain ⟨hx, hxs⟩ := Field.allOf_cons.mp h
    exact List.forall_mem_cons.mpr ⟨holds_insideField hP owner x hx, holds_insideFields hP owner xs hxs⟩
termination_by structural xs

end

/-! ## Headers -/

section

variable (hP : IsKept prefixes P)

include hP

/-- Normalized tables keep what holds in them, however often a table is dealt with. -/
theorem holdsInFields_normalizeTables (f : String → String) (structs : List Struct)
    {tables : List Vtable} (h : ∀ t ∈ tables, HoldsInFields P t.fields) :
    ∀ t ∈ normalizeTables f structs tables, HoldsInFields P t.fields := by
  unfold normalizeTables
  induction structs generalizing tables with
  | nil => exact h
  | cons s structs ih =>
    refine ih ?_
    dsimp only
    cases s.vtable with
    | none => exact h
    | some i =>
      intro t ht
      obtain ⟨j, hj, hjt⟩ := List.mem_iff_getElem.mp ht
      rw [List.getElem_modify] at hjt
      have hplace : j < tables.length := by simpa using hj
      have hkept := h tables[j] (List.getElem_mem hplace)
      split at hjt
      · rw [← hjt]
        exact holdsInFields_normalizeFields f hP _ hkept
      · rwa [← hjt]

end

/-- Looking through constants stops only at one that is defined again with another value. -/
theorem isInvariant_of_keepFirst {file enum : String} {seen : Seen} {enumerators : List Enumerator}
    {e : TransformError} (h : (keepFirst file enum seen enumerators).failure = some e) :
    e.IsInvariant := by
  induction enumerators generalizing seen with
  | nil => cases h
  | cons c rest ih =>
    rw [keepFirst] at h
    split at h
    · exact ih h
    split at h
    · cases h
      trivial
    · exact ih h

/-- Dropping duplicate constants stops only there. -/
theorem meets_dedupEnums (file : String) (seen : Seen) (enums : List Enumeration) :
    (dedupEnums file seen enums).Meets (fun _ => True) TransformError.IsInvariant := by
  refine ⟨fun _ => trivial, fun e he => ?_⟩
  induction enums generalizing seen with
  | nil => cases he
  | cons enum rest ih =>
    rw [dedupEnums] at he
    split at he
    · rename_i failure hfailure
      cases he
      exact isInvariant_of_keepFirst hfailure
    · exact ih _ he

/-- Decomposing an identifier stops only at one that is not well formed. -/
theorem meets_decomposeStruct {Q : List Field → Prop} {s : Struct} (hs : Q s.fields) :
    (decomposeStruct s).Meets (fun s => Q s.fields) TransformError.IsInvariant := by
  unfold decomposeStruct
  split
  · exact .done hs
  split
  · exact .done hs
  · refine ⟨nofun, fun e he => ?_⟩
    cases he
    trivial

section

variable (hP : IsKept prefixes P)

include hP

/-- A pass over a header in whose types something holds stops only where it has no rule, and if it does
not stop that still holds. -/
theorem meets_apply (pass : Pass) {h : Header} (hh : h.EachList (HoldsInFields P)) :
    (pass.apply prefixes h).Meets (Header.EachList (HoldsInFields P)) TransformError.IsInvariant := by
  cases pass with
  | normalize =>
    refine .done ⟨fun fn hfn => ?_, fun s hs => ?_, ?_⟩
    · obtain ⟨g, hg, rfl⟩ := List.mem_map.mp hfn
      exact holdsInFields_normalizeFields _ hP _ (hh.parameters g hg)
    · obtain ⟨r, hr, rfl⟩ := List.mem_map.mp hs
      exact holdsInFields_normalizeFields _ hP _ (hh.members r hr)
    · exact holdsInFields_normalizeTables hP _ _ hh.entries
  | resolve =>
    have hmeets := Header.meets_changeFields (fun _ xs hxs => meets_resolveFields hP xs hxs) hh
    exact ⟨hmeets.value, hmeets.failure⟩
  | pair =>
    have hmeets := Header.meets_changeFields
      (fun owner xs hxs => meets_pairList hP owner (holds_insideFields hP owner xs hxs)) hh
    exact ⟨hmeets.value, hmeets.failure⟩
  | erase =>
    have herased : ∀ (owner : String) (xs : List Field), HoldsInFields P xs →
        (Change.done (eraseFields xs) : Change Empty Empty (List Field)).Meets (HoldsInFields P)
          fun _ => False :=
      fun _ xs hxs => .done (holdsInFields_eraseFields hP xs hxs)
    have hmeets := Header.meets_changeFields herased hh
    exact .done (hmeets.value (Option.eq_none_iff_forall_ne_some.mpr fun e => e.elim))
  | decompose =>
    have hmeets := Change.Meets.each (fun s => meets_decomposeStruct) hh.members
    exact ⟨fun hfailure => ⟨hh.parameters, hmeets.value hfailure, hh.entries⟩, hmeets.failure⟩
  | dedup =>
    exact ⟨fun _ => ⟨hh.parameters, hh.members, hh.entries⟩, (meets_dedupEnums _ _ _).failure⟩

/-- **Passes in a row.**  Passes in any order stop only where one of them has no rule. -/
theorem meets_applyAll (passes : List Pass) {h : Header} (hh : h.EachList (HoldsInFields P)) :
    (applyAll prefixes passes h).Meets (Header.EachList (HoldsInFields P))
      TransformError.IsInvariant := by
  induction passes generalizing h with
  | nil => exact .done hh
  | cons pass rest ih => exact (meets_apply hP pass hh).andThen fun h' hh' => ih hh'

/-- All passes together stop only where one of them has no rule. -/
theorem meets_transform {h : Header} (hh : h.EachList (HoldsInFields P)) :
    (transform prefixes h).Meets (Header.EachList (HoldsInFields P)) TransformError.IsInvariant :=
  (meets_applyAll hP Pass.order hh).andThen fun _ hh' => ⟨fun _ => hh', nofun⟩

end

/-! ## Pointers -/

/-- Declared pointers have something they point to. -/
theorem hasTarget_of_isDeclared {t : CType} (h : t.IsDeclared) : t.HasTarget := by
  intro hpointer
  obtain ⟨-, u, hinner, -⟩ := h.pointer hpointer
  rw [hinner]
  rfl

/-- They have it through all passes. -/
theorem isKept_hasTarget (prefixes : List String) : IsKept prefixes CType.HasTarget where
  target _ h := h
  inside _ _ _ _ h := h
  resolve t h _ hpointer := by
    have hshape : t.shape = .pointer := (resolveType_keeps prefixes t).1.symm.trans hpointer
    obtain ⟨shape, ident, expr, dimensions, members, name, parameters, depth, inner⟩ := t
    cases hshape
    obtain ⟨u, rfl⟩ := Option.isSome_iff_exists.mp (h rfl)
    simp only [resolveType, resolveInner, Change.andThen, Change.map, pointerTo]
    split <;> rfl
  element _ _ _ h _ _ := h

/-- An error of a declaration for which a pass has no rule is reported. -/
theorem report?_of_isInvariant {e : TransformError} (h : e.IsInvariant) :
    (Run.Failure.transform e).report? = some e.message := by
  cases e with
  | noInnerType ident => exact h.elim
  | _ => rfl

end Transform

namespace Grammar

/-- **Headers that are read can be transformed.**  In a header that has been read every type is as its
shape asks for, wherever it occurs, and no field is paired.  Whatever the prefixes, its passes either
come to their end or stop at a declaration for which they have no rule, which is reported; none of them
meets a pointer that leads nowhere. -/
theorem readHeader_transformable {strict : Bool} {file source : String} {s : Session} {h : Header}
    (hread : (readHeader strict file source s).1 = .ok h) :
    h.IsDeclared ∧ ∀ prefixes : List String,
      (Transform.transform prefixes h).failure = none ∨
        ∃ e, (Transform.transform prefixes h).failure = some e ∧ e.IsInvariant ∧
          (Run.Failure.transform e).report? = some e.message := by
  have hdeclared : h.IsDeclared := isDeclared_of_readHeader hread
  refine ⟨hdeclared, fun prefixes => ?_⟩
  have hpointed : h.EachList (Transform.HoldsInFields CType.HasTarget) :=
    hdeclared.fields.mono fun _ =>
      Transform.holdsInFields_of_areDeclared fun _ => Transform.hasTarget_of_isDeclared
  have hmeets := Transform.meets_transform (Transform.isKept_hasTarget prefixes) hpointed
  cases hfailure : (Transform.transform prefixes h).failure with
  | none => exact .inl rfl
  | some e =>
    have hinvariant := hmeets.failure e hfailure
    exact .inr ⟨e, rfl, hinvariant, Transform.report?_of_isInvariant hinvariant⟩

/-- A header with a table of methods, one of which takes an array of pointers with its length, and an
interface that the table belongs to, with a union of a name and an array of pointers. -/
def nestedSource : String :=
  "typedef struct IVtbl\x7bBEGIN_INTERFACE " ++
    "R(C*F)(I*This,UINT NumViews,__in_ecount(n)V*const*p);\x7dIVtbl;" ++
    "interface I\x7bunion\x7bA a;B*b[2];\x7d;\x7d"

/-- Such a header is read, and every type in it, however deeply, is as its shape asks for. -/
theorem readHeader_transformable_nested :
    ∃ h, (readHeader true "i.h" nestedSource .start).1 = .ok h ∧ h.structs.length = 1 ∧
      h.vtables.length = 1 ∧ h.IsDeclared ∧ ∀ prefixes : List String,
        (Transform.transform prefixes h).failure = none ∨
          ∃ e, (Transform.transform prefixes h).failure = some e ∧ e.IsInvariant ∧
            (Run.Failure.transform e).report? = some e.message := by
  have hlengths : (readHeader true "i.h" nestedSource .start).1.toOption.map
      (fun h => (h.structs.length, h.vtables.length)) = some (1, 1) := by
    -- evaluated from the characters of the text, so that the kernel builds no bytes
    have hsource : nestedSource.toList = _ :=
      Lexer.toList_append_eq (Lexer.toList_append_eq String.toList_ofList String.toList_ofList)
        String.toList_ofList
    rw [readHeader, header, Lexer.lex, hsource]
    decide +kernel
  obtain ⟨h, hread, hlengths⟩ := Option.map_eq_some_iff.mp hlengths
  have hread := eq_ok_of_toOption hread
  obtain ⟨hstructs, htables⟩ := Prod.mk.inj hlengths
  exact ⟨h, hread, hstructs, htables, readHeader_transformable hread⟩

end Grammar

end SdkBindings
