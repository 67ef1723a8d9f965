import SdkBindings.Proofs.Transform.Names
import SdkBindings.Proofs.Transform.Parameters
import SdkBindings.Proofs.Transform.TypeGrammar

/-!
# Reading resolved types

Resolution gives every type of a header the expression that its declaration asks for, at any depth
inside of unions and parameters of methods (`settles_fields`), whether a table of methods is dealt with
once or several times.  For a type whose text is a name, with or without the words that may stand in
front of one, this expression is that of a tree (`CType.reading`): the declared dimensions around as
many pointers as declared around the name.

The name is a platform type's, or the normalized one, under which normalization leaves the declaration
of the type as well.  Normalization may leave no name at all, and then the expression is none of the
grammar; otherwise the tree is the only way to read it (`resolve_readBack`).
-/

namespace SdkBindings

open Transform

/-! ## The types of fields -/

mutual
/-- The types of the fields inside a type: those of a method's parameters, or of a union's members. -/
def CType.inside (t : CType) : List CType :=
  match t with
  | ⟨shape, _, _, _, members, _, parameters, _, _⟩ =>
    match shape with
    | .functionPointer => Field.types parameters
    | .union => Field.types members
    | _ => []
termination_by structural t

/-- The type of a field and those inside it. -/
def Field.typesIn (x : Field) : List CType :=
  match x with
  | ⟨_, type, _, _, _, _, _⟩ => type :: CType.inside type
termination_by structural x

/-- The types of a list of fields and of the fields inside it. -/
def Field.types (xs : List Field) : List CType :=
  match xs with
  | [] => []
  | x :: xs => Field.typesIn x ++ Field.types xs
termination_by structural xs
end

section

variable {p : CType → Prop} {q : Field → Prop}

mutual

/-- What is said of all types inside a type is said of each of those in its fields. -/
theorem CType.all_inside {t : CType} (h : t.All p q) : ∀ u ∈ t.inside, u.All p q := by
  match t with
  | ⟨shape, ident, expr, dimensions, members, name, parameters, depth, inner⟩ =>
    obtain ⟨-, hmembers, hparameters, -⟩ := CType.all_iff.mp h
    cases shape with
    | functionPointer => exact Field.all_types hparameters
    | union => exact Field.all_types hmembers
    | _ => exact nofun
termination_by structural t

/-- What is said of all types inside a field is said of each of its types. -/
theorem Field.all_typesIn {x : Field} (h : x.All p q) : ∀ u ∈ x.typesIn, u.All p q := by
  match x with
  | ⟨name, type, isOut, hasCount, isArray, isLength, isErased⟩ =>
    obtain ⟨-, htype⟩ := Field.all_iff.mp h
    exact List.forall_mem_cons.mpr ⟨htype, CType.all_inside htype⟩
termination_by structural x

/-- What is said of all types inside a list of fields is said of each of its types. -/
theorem Field.all_types {xs : List Field} (h : Field.AllOf p q xs) :
    ∀ u ∈ Field.types xs, u.All p q := by
  match xs with
  | [] => exact nofun
  | x :: xs =>
    obtain ⟨hx, hxs⟩ := Field.allOf_cons.mp h
    exact List.forall_mem_append.mpr ⟨Field.all_typesIn hx, Field.all_types hxs⟩
termination_by structural xs

end

end

namespace Transform

section

variable {prefixes : List String}

/-! ## Resolved types -/

/-- The type `u` is the type `t` with the expression that its declaration asks for. -/
structure Settles (prefixes : List String) (t u : CType) : Prop where
  /-- The type leads to the same type. -/
  same : SameTarget t u
  /-- A pointer has its indirections. -/
  depth : u.depth = t.depth
  /-- It leads to what it led to. -/
  inner : t.shape = .pointer → ∀ v, t.inner = some v → ∃ w, u.inner = some w ∧ SameTarget v w
  /-- A name. -/
  basic : t.shape = .basic → u.expr = resolveName prefixes t.ident
  /-- An array. -/
  array : t.shape = .array → u.expr = wrapDimensions (resolveName prefixes t.ident) t.dimensions
  /-- A pointer. -/
  pointer : t.shape = .pointer → ∀ v, t.inner = some v → u.expr = innerPointer prefixes v t.depth

/-- Settling a type twice settles it. -/
theorem Settles.trans {t u v : CType} (h : Settles prefixes t u) (h' : Settles prefixes u v) :
    Settles prefixes t v where
  same := ⟨h'.same.1.trans h.same.1, h'.same.2.1.trans h.same.2.1, h'.same.2.2.trans h.same.2.2⟩
  depth := h'.depth.trans h.depth
  inner hshape w hw := by
    obtain ⟨x, hx, hwx⟩ := h.inner hshape w hw
    obtain ⟨y, hy, hxy⟩ := h'.inner (h.same.1.trans hshape) x hx
    exact ⟨y, hy, hxy.1.trans hwx.1, hxy.2.1.trans hwx.2.1, hxy.2.2.trans hwx.2.2⟩
  basic hshape := by rw [h'.basic (h.same.1.trans hshape), h.same.2.1]
  array hshape := by rw [h'.array (h.same.1.trans hshape), h.same.2.1, h.same.2.2]
  pointer hshape w hw := by
    obtain ⟨x, hx, hwx⟩ := h.inner hshape w hw
    rw [h'.pointer (h.same.1.trans hshape) x hx, h.depth, innerPointer_of_sameTarget hwx]

/-- Resolution that does not stop settles a type. -/
theorem settles_resolveType {t : CType} (h : (resolveType prefixes t).failure = none) :
    Settles prefixes t (resolveType prefixes t).value where
  same := sameTarget_resolveType t
  depth := (resolveType_keeps prefixes t).2.2
  inner hshape v hv := (pointer_resolveType h hshape hv).2
  basic hshape := by
    obtain ⟨shape, _⟩ := t
    cases hshape
    rfl
  array hshape := by
    obtain ⟨shape, _⟩ := t
    cases hshape
    rfl
  pointer hshape v hv := by
    rw [(pointer_resolveType h hshape hv).1, (resolveType_keeps prefixes t).2.2]

mutual

/-- Resolution settles the types inside a type. -/
theorem settles_inside (t : CType) (h : (resolveType prefixes t).failure = none) :
    List.Forall₂ (Settles prefixes) t.inside (resolveType prefixes t).value.inside := by
  match t with
  | ⟨shape, ident, expr, dimensions, members, name, parameters, depth, inner⟩ =>
    cases shape with
    | basic => exact .nil
    | array => exact .nil
    | pointer =>
      -- no fields are inside a pointer, before or after
      have hshape := (resolveType_keeps prefixes
        ⟨.pointer, ident, expr, dimensions, members, name, parameters, depth, inner⟩).1
      generalize (resolveType prefixes _).value = u at hshape
      obtain ⟨shape, _⟩ := u
      cases hshape
      exact .nil
    | union =>
      rw [resolveType] at h ⊢
      obtain ⟨hmembers, -, hvalue⟩ := andThen_failure_eq_none h
      rw [hvalue]
      exact settles_fields members hmembers
    | functionPointer =>
      rw [resolveType] at h ⊢
      obtain ⟨hparameters, -, hvalue⟩ := andThen_failure_eq_none h
      rw [hvalue]
      exact settles_fields parameters hparameters
termination_by structural t

/-- Resolution settles the types of a field. -/
theorem settles_field (x : Field) (h : (resolveField prefixes x).failure = none) :
    List.Forall₂ (Settles prefixes) x.typesIn (resolveField prefixes x).value.typesIn := by
  match x with
  | ⟨name, type, isOut, hasCount, isArray, isLength, isErased⟩ =>
    exact .cons (settles_resolveType h) (settles_inside type h)
termination_by structural x

/-- Resolution settles the types of a list of fields. -/
theorem settles_fields (xs : List Field) (h : (resolveFields prefixes xs).failure = none) :
    List.Forall₂ (Settles prefixes) (Field.types xs) (Field.types (resolveFields prefixes xs).value) := by
  match xs with
  | [] => exact .nil
  | x :: xs =>
    rw [resolveFields] at h ⊢
    obtain ⟨hx, hxs, hvalue⟩ := andThen_failure_eq_none h
    rw [hvalue]
    exact List.rel_append (settles_field x hx) (settles_fields xs hxs)
termination_by structural xs

end

variable (prefixes) in
/-- What a pointer leads to is there after resolution if it was. -/
theorem isSome_resolveInner (t : Option CType) :
    (resolveInner prefixes t).value.isSome = t.isSome := by
  cases t <;> rfl

mutual

/-- Types whose pointers lead somewhere are resolved. -/
theorem resolveType_failure (t : CType) (h : HoldsIn CType.HasTarget t) :
    (resolveType prefixes t).failure = none := by
  match t with
  | ⟨shape, ident, expr, dimensions, members, name, parameters, depth, inner⟩ =>
    obtain ⟨hself, hmembers, hparameters, hinner⟩ := CType.all_iff.mp h
    cases shape with
    | basic => rfl
    | array => rfl
    | pointer =>
      have hnone := resolveInner_failure inner hinner
      obtain ⟨u, hu⟩ := Option.isSome_iff_exists.mp ((isSome_resolveInner prefixes inner).trans (hself rfl))
      rw [resolveType, Change.andThen, hnone]
      simp only [pointerTo, hu]
      rfl
    | union =>
      rw [resolveType, Change.andThen, resolveFields_failure members hmembers]
      rfl
    | functionPointer =>
      rw [resolveType, Change.andThen, resolveFields_failure parameters hparameters]
      rfl
termination_by structural t

theorem resolveInner_failure (t : Option CType)
    (h : CType.AllInner CType.HasTarget (fun _ => True) t) :
    (resolveInner prefixes t).failure = none := by
  match t with
  | none => rfl
  | some t => exact resolveType_failure t (CType.allInner_some.mp h)
termination_by structural t

theorem resolveField_failure (x : Field) (h : HoldsInField CType.HasTarget x) :
    (resolveField prefixes x).failure = none := by
  match x with
  | ⟨name, type, isOut, hasCount, isArray, isLength, isErased⟩ =>
    exact resolveType_failure type (holdsInField_iff.mp h)
termination_by structural x

theorem resolveFields_failure (xs : List Field) (h : HoldsInFields CType.HasTarget xs) :
    (resolveFields prefixes xs).failure = none := by
  match xs with
  | [] => rfl
  | x :: xs =>
    obtain ⟨hx, hxs⟩ := Field.allOf_cons.mp h
    rw [resolveFields, Change.andThen, resolveField_failure x hx]
    exact resolveFields_failure xs hxs
termination_by structural xs

end

/-! ## Types among new names -/

/-- The type `u` differs from the type `t` in nothing but names and what is inside. -/
structure SameText (t u : CType) : Prop where
  /-- The type leads to the same type. -/
  same : SameTarget t u
  /-- A pointer has its indirections. -/
  depth : u.depth = t.depth
  /-- It leads to what it led to. -/
  inner : u.inner = t.inner
  /-- The expression stays. -/
  expr : u.expr = t.expr

/-- Other names leave a type settled. -/
theorem Settles.sameText {t u v : CType} (h : Settles prefixes t u) (h' : SameText u v) :
    Settles prefixes t v where
  same := ⟨h'.same.1.trans h.same.1, h'.same.2.1.trans h.same.2.1, h'.same.2.2.trans h.same.2.2⟩
  depth := h'.depth.trans h.depth
  inner hshape w hw := by
    rw [h'.inner]
    exact h.inner hshape w hw
  basic hshape := h'.expr.trans (h.basic hshape)
  array hshape := h'.expr.trans (h.array hshape)
  pointer hshape w hw := h'.expr.trans (h.pointer hshape w hw)

/-- Normalization changes names only. -/
theorem sameText_normalizeType (f : String → String) (t : CType) : SameText t (normalizeType f t) := by
  obtain ⟨shape, _⟩ := t
  cases shape <;> exact ⟨⟨rfl, rfl, rfl⟩, rfl, rfl, rfl⟩

mutual

/-- Normalization leaves the types inside a type as they are. -/
theorem sameText_inside (f : String → String) (t : CType) :
    List.Forall₂ SameText t.inside (normalizeType f t).inside := by
  match t with
  | ⟨shape, ident, expr, dimensions, members, name, parameters, depth, inner⟩ =>
    cases shape with
    | functionPointer => exact sameText_fields f parameters
    | union => exact sameText_fields f members
    | _ => exact .nil
termination_by structural t

/-- Normalization leaves the types of a field as they are. -/
theorem sameText_field (f : String → String) (x : Field) :
    List.Forall₂ SameText x.typesIn (normalizeField f x).typesIn := by
  match x with
  | ⟨name, type, isOut, hasCount, isArray, isLength, isErased⟩ =>
    exact .cons (sameText_normalizeType f type) (sameText_inside f type)
termination_by structural x

/-- Normalization leaves the types of fields as they are. -/
theorem sameText_fields (f : String → String) (xs : List Field) :
    List.Forall₂ SameText (Field.types xs) (Field.types (normalizeFields f xs)) := by
  match xs with
  | [] => exact .nil
  | x :: xs => exact List.rel_append (sameText_field f x) (sameText_fields f xs)
termination_by structural xs

end

end

/-! ## All lists of fields -/

/-- Two stages of a header: the parameters of functions, the members of structs and the entries of the
tables that structs refer to are related. -/
structure Throughout (R : List Field → List Field → Prop) (h h' : Header) : Prop
    extends Corresponds R h h' where
  /-- The members of structs. -/
  members : List.Forall₂ (fun s s' : Struct => R s.fields s'.fields) h.structs h'.structs

/-- Related items are related in a second way if that follows for the items of the first list. -/
theorem forall₂_imp_of_mem {α β : Type} {R S : α → β → Prop} {xs : List α} {ys : List β}
    (h : List.Forall₂ R xs ys) (hRS : ∀ x y, x ∈ xs → R x y → S x y) : List.Forall₂ S xs ys := by
  have hself : List.Forall₂ (fun x y : α => x = y ∧ x ∈ xs) xs xs :=
    List.forall₂_same.mpr fun x hx => ⟨rfl, hx⟩
  refine forall₂_trans (fun x y z hxy hyz => ?_) hself h
  obtain ⟨rfl, hx⟩ := hxy
  exact hRS x z hx hyz

/-- What is said of the lists of the first stage may be used to say more about two stages. -/
theorem Throughout.imp {R S : List Field → List Field → Prop} {P : List Field → Prop} {h h' : Header}
    (hRS : ∀ xs ys, P xs → R xs ys → S xs ys) (hP : h.EachList P) (hR : Throughout R h h') :
    Throughout S h h' where
  functions := by
    refine forall₂_imp_of_mem hR.functions fun x y hx hxy => ?_
    exact hRS _ _ (hP.parameters x hx) hxy
  places := hR.places
  count := hR.count
  tables i t hi ht := by
    obtain ⟨t', ht', hfields⟩ := hR.tables i t hi ht
    exact ⟨t', ht', hRS _ _ (hP.entries t (List.mem_of_getElem? ht)) hfields⟩
  members := by
    refine forall₂_imp_of_mem hR.members fun x y hx hxy => ?_
    exact hRS _ _ (hP.members x hx) hxy

/-- Structs that are changed one after the other without a stop. -/
theorem forall₂_changeStructs {ε ν : Type} {f : Header.FieldChange ε ν} {structs : List Struct}
    {tables : List Vtable} (hfailure : (Header.changeStructs f tables structs).failure = none) :
    List.Forall₂ (fun s s' : Struct => (f s.ident s.fields).failure = none ∧
      s'.fields = (f s.ident s.fields).value) structs
      (Header.changeStructs f tables structs).value.1 := by
  induction structs generalizing tables with
  | nil => exact .nil
  | cons s structs ih =>
    rw [Header.changeStructs, changeStruct_eq] at hfailure ⊢
    obtain ⟨hstruct, hrest, hvalue⟩ := andThen_failure_eq_none hfailure
    obtain ⟨hmembers, -, hstructValue⟩ := andThen_failure_eq_none hstruct
    rw [hstructValue] at hrest hvalue
    rw [hvalue]
    exact .cons ⟨hmembers, rfl⟩ (ih hrest)

section

variable {prefixes : List String} {h : Header}

/-- The types of a list of fields are settled. -/
def AreSettled (prefixes : List String) (xs ys : List Field) : Prop :=
  List.Forall₂ (Settles prefixes) (Field.types xs) (Field.types ys)

/-- Lists that have been resolved may be resolved again. -/
theorem AreSettled.resolve {xs ys : List Field} (h : AreSettled prefixes xs ys)
    (hfailure : (resolveFields prefixes ys).failure = none) :
    AreSettled prefixes xs (resolveFields prefixes ys).value :=
  forall₂_trans (fun _ _ _ hxy hyz => hxy.trans hyz) h (settles_fields ys hfailure)

/-- They may be given other names. -/
theorem AreSettled.normalize {xs ys : List Field} (h : AreSettled prefixes xs ys)
    (f : String → String) : AreSettled prefixes xs (normalizeFields f ys) :=
  forall₂_trans (fun _ _ _ hxy hyz => hxy.sameText hyz) h (sameText_fields f ys)

/-- **Resolution of a header.**  The types of a declared header are resolved, all of them. -/
theorem resolveHeader_settles (prefixes : List String) (hdeclared : h.IsDeclared) :
    (resolveHeader prefixes h).failure = none ∧
      Throughout (AreSettled prefixes) h (resolveHeader prefixes h).value := by
  have hpointed : h.EachList (HoldsInFields CType.HasTarget) :=
    hdeclared.fields.mono fun _ => holdsInFields_of_areDeclared fun _ => hasTarget_of_isDeclared
  have hmeets := Header.meets_changeFields (f := fun _ fields => resolveFields prefixes fields)
    (E := fun _ => False) (fun _ xs hxs =>
      ⟨(meets_resolveFields (isKept_hasTarget prefixes) xs hxs).value, fun e he => by
        rw [resolveFields_failure xs hxs] at he
        cases he⟩) hpointed
  have hfailure : (resolveHeader prefixes h).failure = none :=
    Option.eq_none_iff_forall_ne_some.mpr hmeets.failure
  have hself : Corresponds Eq h h := .refl (fun _ => rfl) h
  refine ⟨hfailure, ⟨hself.changeFields hfailure (fun _ xs ys hxy hok => ?_) fun _ xs ys hxy hok => ?_,
    ?_⟩⟩
  · rw [← hxy] at hok ⊢
    exact settles_fields xs hok
  · exact AreSettled.resolve hxy hok
  · unfold resolveHeader Header.changeFields at hfailure ⊢
    obtain ⟨-, hstructs, hvalue⟩ := andThen_failure_eq_none hfailure
    rw [hvalue]
    refine (forall₂_changeStructs hstructs).imp fun s s' hs => ?_
    rw [hs.2]
    exact settles_fields s.fields hs.1

/-- **Resolution after normalization.** -/
theorem resolve_normalize_settles (prefixes : List String) (hdeclared : h.IsDeclared) :
    (resolveHeader prefixes (normalizeHeader prefixes h)).failure = none ∧
      Throughout (AreSettled prefixes) h
        (resolveHeader prefixes (normalizeHeader prefixes h)).value := by
  obtain ⟨hfailure, hsettles⟩ := resolveHeader_settles prefixes hdeclared
  set f := normalize prefixes
  -- the types are those of the declared header, resolved and then put among new names
  have hexchange : resolveHeader prefixes (normalizeHeader prefixes h) =
      (resolveHeader prefixes h).map (normalizing f).apply := by
    rw [normalizeHeader_eq]
    exact changeFields_apply (normalizing_respects prefixes f) (normalizing_keepsPlaces f) h
  rw [hexchange]
  refine ⟨hfailure, ⟨hsettles.toCorresponds.apply (normalizing_keepsPlaces f)
    (fun xs x hx => AreSettled.normalize hx f) fun xs t ht => AreSettled.normalize ht f, ?_⟩⟩
  show List.Forall₂ _ h.structs ((resolveHeader prefixes h).value.structs.map (normalizing f).struct)
  rw [List.forall₂_map_right_iff]
  exact hsettles.members.imp fun s s' hs => AreSettled.normalize hs f

end

end Transform

/-! ## Reading a type -/

namespace CType

/-- The number of indirections. -/
def layers (t : CType) : Nat :=
  if t.shape = .pointer then t.depth.toNat else 0

/-- The dimensions, the outermost first.  What is declared as a pointer with dimensions is an array of
pointers. -/
def bounds (t : CType) : List Int :=
  match t.shape with
  | .array => t.dimensions
  | .pointer => (t.inner.map fun u => if u.shape = .array then u.dimensions else []).getD []
  | _ => []

/-- The expression of the first indirection and what it leads to, if there is one for both. -/
def shortcut? (t : CType) : Option String :=
  if t.shape = .pointer then pointerShortcut? t.ident else none

/-- What is read in the expression of a type with this name. -/
def reading (prefixes : List String) (t : CType) (name : String) : TypeExpr :=
  match t.shortcut? with
  | some expr => .arrays t.bounds (.pointers (t.layers - 1) (.name expr))
  | none => .arrays t.bounds (.pointers t.layers (.name (baseName prefixes name)))

/-- If the normalized name is used, it is one. -/
def KeepsName (prefixes : List String) (t : CType) (name : String) : Prop :=
  t.shortcut? = none → platformType? name = none → IsName (normalize prefixes name)

/-- The type has an expression made from its name. -/
def IsNamed (t : CType) : Prop :=
  t.shape = .basic ∨ t.shape = .array ∨ t.shape = .pointer

end CType

namespace Transform

section

variable {prefixes : List String} {t u : CType} {qualifier name : String}

/-- Shortcuts are names. -/
theorem isDotted_shortcut {expr : String} (h : t.shortcut? = some expr) : IsDotted expr.toList := by
  have hmodule : Lexer.isIdentifier "ctypes".toList = true := by decide
  rw [CType.shortcut?, pointerShortcut?, Option.ite_none_right_eq_some] at h
  obtain ⟨-, h⟩ := h
  split at h
  · cases h
    exact .member hmodule (.name (by decide))
  · rw [Option.ite_none_right_eq_some] at h
    obtain ⟨-, ⟨⟩⟩ := h
    exact .member hmodule (.name (by decide))

/-- The name that stands for a type is one unless normalization leaves none. -/
theorem isDotted_baseName_iff (hname : IsName name) : IsDotted (baseName prefixes name).toList ↔
    (platformType? name = none → IsName (normalize prefixes name)) := by
  unfold baseName
  cases hplatform : platformType? name with
  | some p => exact iff_of_true (isDotted_platformType hplatform) nofun
  | none =>
    have hwordy := isWordy_normalize prefixes (isName_iff.mp hname).1
    exact (isDotted_iff hwordy).trans ⟨fun h _ => h, fun h => h rfl⟩

/-- What is read in the expression of a type is one of the grammar if there is a name in it. -/
theorem isSentence_reading_iff (hname : IsName name) :
    (t.reading prefixes name).IsSentence ↔ t.KeepsName prefixes name := by
  unfold CType.reading CType.KeepsName TypeExpr.IsSentence
  cases hshortcut : t.shortcut? with
  | some expr =>
    rw [TypeExpr.base_arrays, TypeExpr.base_pointers]
    exact iff_of_true (isDotted_shortcut hshortcut) nofun
  | none =>
    rw [TypeExpr.base_arrays, TypeExpr.base_pointers]
    exact (isDotted_baseName_iff hname).trans ⟨fun h _ => h, fun h => h rfl⟩

/-- In any case it consists of characters of a name there. -/
theorem isLoose_reading (hname : IsName name) : (t.reading prefixes name).IsLoose := by
  unfold CType.reading TypeExpr.IsLoose
  cases hshortcut : t.shortcut? with
  | some expr =>
    rw [TypeExpr.base_arrays, TypeExpr.base_pointers]
    exact TypeExpr.isNamePart_of_isDotted (isDotted_shortcut hshortcut)
  | none =>
    rw [TypeExpr.base_arrays, TypeExpr.base_pointers, TypeExpr.base, baseName]
    cases hplatform : platformType? name with
    | some p => exact TypeExpr.isNamePart_of_isDotted (isDotted_platformType hplatform)
    | none =>
      intro c hc
      have hpart := isWordy_normalize prefixes (isName_iff.mp hname).1 c hc
      rw [TypeExpr.isNamePart, hpart, Bool.true_or]

/-- The expression of a settled type is written as it is read. -/
theorem expr_eq_text_reading (hdeclared : t.IsDeclared) (h : Settles prefixes t u)
    (hnamed : t.IsNamed) (hqualifier : qualifier ∈ qualifiers) (hname : IsName name)
    (hident : t.ident = qualifier ++ name) : u.expr = (t.reading prefixes name).text := by
  have hresolved : resolveName prefixes t.ident = baseName prefixes name := by
    rw [hident, resolveName_append prefixes hqualifier hname]
  rcases hnamed with hshape | hshape | hshape
  · have hreading : t.reading prefixes name = .name (baseName prefixes name) := by
      simp [CType.reading, CType.shortcut?, CType.bounds, CType.layers, hshape, TypeExpr.arrays,
        TypeExpr.pointers]
    rw [h.basic hshape, hresolved, hreading, TypeExpr.text_name]
  · have hreading : t.reading prefixes name =
        .arrays t.dimensions (.name (baseName prefixes name)) := by
      simp [CType.reading, CType.shortcut?, CType.bounds, CType.layers, hshape, TypeExpr.pointers]
    rw [h.array hshape, hresolved, hreading, TypeExpr.text_arrays, TypeExpr.text_name]
  · obtain ⟨hdepth, v, hv, -, hvident⟩ := hdeclared.pointer hshape
    have hfewer : (t.depth - 1).toNat = t.depth.toNat - 1 := by omega
    have hdimensions (expr : String) :
        wrapDimensions expr (if v.shape = .array then v.dimensions else []) =
          if v.shape = .array then wrapDimensions expr v.dimensions else expr := by
      split <;> rfl
    have hbounds : t.bounds = if v.shape = .array then v.dimensions else [] := by
      rw [CType.bounds, hshape, hv]
      rfl
    -- a pointer is called what it leads to, so the same shortcut is found for both
    rw [h.pointer hshape v hv, innerPointer, hvident, hresolved, if_pos (show 0 < t.depth from hdepth),
      CType.reading, CType.shortcut?, CType.layers, if_pos hshape, if_pos hshape, hbounds]
    cases pointerShortcut? t.ident with
    | some shortcut =>
      dsimp only
      rw [TypeExpr.text_arrays, TypeExpr.text_pointers, hdimensions, hfewer, TypeExpr.text_name]
    | none =>
      dsimp only
      rw [TypeExpr.text_arrays, TypeExpr.text_pointers, hdimensions, TypeExpr.text_name]

end

/-- The type `u` is the type `t` of a declaration with an expression that can be read back. -/
structure IsReadBack (prefixes : List String) (t u : CType) : Prop where
  /-- The type leads to the same type. -/
  same : SameTarget t u
  /-- Only a pointer has indirections, and it has as many as are declared. -/
  layers : t.shape = .pointer → 0 < t.layers ∧ (t.layers : Int) = t.depth
  /-- The expression of a type with a name has one reading if a name is left, and else none. -/
  reading : t.IsNamed → ∀ qualifier ∈ qualifiers, ∀ name, IsName name → t.ident = qualifier ++ name →
    ∀ e : TypeExpr, e.IsSentence ∧ e.text = u.expr ↔
      t.KeepsName prefixes name ∧ e = t.reading prefixes name

/-- Settled types can be read back. -/
theorem Settles.isReadBack {prefixes : List String} {t u : CType} (h : Settles prefixes t u)
    (hdeclared : t.IsDeclared) : IsReadBack prefixes t u where
  same := h.same
  layers hshape := by
    obtain ⟨hdepth, -⟩ := hdeclared.pointer hshape
    rw [CType.layers, if_pos hshape]
    omega
  reading hnamed qualifier hqualifier name hname hident e := by
    rw [expr_eq_text_reading hdeclared h hnamed hqualifier hname hident,
      TypeExpr.isSentence_and_text_eq_iff (isLoose_reading hname), isSentence_reading_iff hname]

/-- All types of a list of fields can be read back. -/
def AreReadBack (prefixes : List String) (xs ys : List Field) : Prop :=
  List.Forall₂ (IsReadBack prefixes) (Field.types xs) (Field.types ys)

/-- The types of declared fields can be read back once they are settled. -/
theorem AreSettled.areReadBack {prefixes : List String} {xs ys : List Field}
    (h : AreSettled prefixes xs ys) (hdeclared : Field.AreDeclared xs) : AreReadBack prefixes xs ys := by
  refine forall₂_imp_of_mem h fun t u ht htu => ?_
  exact htu.isReadBack (CType.all_iff.mp (Field.all_types hdeclared t ht)).1

/-! ## Declarations of types -/

/-- The header `h'` declares the types of the header `h` under their normalized names. -/
structure Renamed (prefixes : List String) (h h' : Header) : Prop where
  /-- The enumerations. -/
  enums : h'.enums.map Enumeration.ident = h.enums.map fun e => normalize prefixes e.ident
  /-- The aliases. -/
  aliases : h'.aliases.map Alias.ident = h.aliases.map fun a => normalize prefixes a.ident
  /-- The structs. -/
  structs : h'.structs.map Struct.ident = h.structs.map fun s => normalize prefixes s.ident
  /-- The tables of methods that one struct refers to. -/
  tables : ∀ (i : Nat) (s : Struct), h.structs[i]? = some s → h.sharers s = 1 →
    (h'.structs[i]?.bind h'.vtable?).map Vtable.ident =
      (h.vtable? s).map fun t => normalize prefixes t.ident

/-- Normalization renames declarations. -/
theorem renamed_normalizeHeader (prefixes : List String) (h : Header) :
    Renamed prefixes h (normalizeHeader prefixes h) where
  enums := by
    rw [normalizeHeader, List.map_map]
    rfl
  aliases := by
    rw [normalizeHeader, List.map_map]
    rfl
  structs := by
    rw [normalizeHeader, List.map_map]
    rfl
  tables i s hs hsole := by
    rw [normalizeHeader_eq]
    set f := normalize prefixes
    have hstruct : ((normalizing f).apply h).structs[i]? = some ((normalizing f).struct s) := by
      rw [Rewrite.apply, List.getElem?_map, hs]
      rfl
    rw [hstruct, Option.bind_some, Header.vtable?, Header.vtable?, normalizing_keepsPlaces f s]
    cases hplace : s.vtable with
    | none => rfl
    | some j =>
      rw [Header.sharers, hplace] at hsole
      rw [Option.bind_some, Option.bind_some, Rewrite.apply, getElem?_modifyTables, hsole,
        Function.iterate_one, Option.map_map]
      rfl

/-- **Types and their declarations.**  In every header that is read all types are resolved, at any depth.
The expression of a type whose text is a name, which words may stand in front of, has exactly one
reading: the dimensions, from the outermost in, around the pointers around the name that stands for the
type, unless this is the normalized name and normalization leaves none; then it has no reading.  The
normalized name is the one under which normalization leaves the declaration. -/
theorem resolve_readBack (prefixes : List String) :
    (∀ strict file source session h, (Grammar.readHeader strict file source session).1 = .ok h →
      (resolveHeader prefixes (normalizeHeader prefixes h)).failure = none ∧
        Throughout (AreReadBack prefixes) h
          (resolveHeader prefixes (normalizeHeader prefixes h)).value) ∧
    ∀ h, Renamed prefixes h (normalizeHeader prefixes h) := by
  refine ⟨fun strict file source session h hread => ?_, renamed_normalizeHeader prefixes⟩
  have hdeclared : h.IsDeclared := Grammar.isDeclared_of_readHeader hread
  obtain ⟨hfailure, hsettles⟩ := resolve_normalize_settles prefixes hdeclared
  exact ⟨hfailure, hsettles.imp (fun xs ys hxs hxy => hxy.areReadBack hxs) hdeclared.fields⟩

/-- A struct with an array of pointers to a struct. -/
def boxesSource : String :=
  "typedef struct D3D11_SET\x7bstruct D3D11_BOX*const boxes[2][3];\x7dD3D11_SET;"

/-- The boxes are read as two arrays of three pointers each. -/
theorem resolve_readBack_boxes :
    ∃ h s s' t u, (Grammar.readHeader false "a.h" boxesSource .start).1 = .ok h ∧
      h.structs[0]? = some s ∧ (Field.types s.fields)[0]? = some t ∧
      (resolveHeader Settings.default.stripPrefixes
        (normalizeHeader Settings.default.stripPrefixes h)).value.structs[0]? = some s' ∧
      (Field.types s'.fields)[0]? = some u ∧
      Renamed Settings.default.stripPrefixes h (normalizeHeader Settings.default.stripPrefixes h) ∧
      ∀ e : TypeExpr, e.IsSentence ∧ e.text = u.expr ↔
        e = .array (.array (.pointer (.name "BOX")) 3) 2 := by
  have hread : (Grammar.readHeader false "a.h" boxesSource .start).1.toOption.bind (fun h =>
      (h.structs[0]?.bind fun s => (Field.types s.fields)[0]?).map fun t =>
        (t.shape, t.ident, t.reading Settings.default.stripPrefixes "D3D11_BOX")) =
      some (.pointer, "struct D3D11_BOX", .array (.array (.pointer (.name "BOX")) 3) 2) := by
    -- evaluated from the characters of the text, so that the kernel builds no bytes
    have hsource : boxesSource.toList = _ := String.toList_ofList
    rw [Grammar.readHeader, Grammar.header, Lexer.lex, hsource]
    decide +kernel
  obtain ⟨h, hh, hread⟩ := Option.bind_eq_some_iff.mp hread
  obtain ⟨t, ht, hread⟩ := Option.map_eq_some_iff.mp hread
  obtain ⟨s, hs, ht⟩ := Option.bind_eq_some_iff.mp ht
  have hh := eq_ok_of_toOption hh
  obtain ⟨hshape, hread⟩ := Prod.mk.inj hread
  obtain ⟨hident, hreading⟩ := Prod.mk.inj hread
  obtain ⟨hheaders, hrenamed⟩ := resolve_readBack Settings.default.stripPrefixes
  obtain ⟨-, hthroughout⟩ := hheaders false "a.h" boxesSource .start h hh
  obtain ⟨s', hs', hfields⟩ := exists_getElem?_of_forall₂ hthroughout.members hs
  obtain ⟨u, hu, hback⟩ := exists_getElem?_of_forall₂ hfields ht
  refine ⟨h, s, s', t, u, hh, hs, ht, hs', hu, hrenamed h, fun e => ?_⟩
  have hstruct : "struct " ∈ qualifiers := by decide
  have hkept : t.KeepsName Settings.default.stripPrefixes "D3D11_BOX" := fun _ _ => by decide +kernel
  rw [hback.reading (.inr (.inr hshape)) "struct " hstruct "D3D11_BOX" (by decide) hident e, hreading,
    and_iff_right hkept]

/-- A struct with a pointer to a type of which no name is left. -/
def digitSource : String :=
  "typedef struct S\x7bD3D11_2D*plane;\x7dS;"

/-- An interface that is declared twice, with the table of methods that both declarations refer to. -/
def sharedSource : String :=
  "typedef struct DD3D113D11Vtbl\x7bBEGIN_INTERFACE R(C*F)(DD3D113D11*This);\x7dDD3D113D11Vtbl;" ++
    "interface DD3D113D11\x7bCONST_VTBL struct DD3D113D11Vtbl*lpVtbl;\x7d" ++
    "interface DD3D113D11\x7bCONST_VTBL struct DD3D113D11Vtbl*lpVtbl;\x7d"

/-- The expressions of the members of all structs of a resolved header, and the names of the tables that
the structs refer to. -/
def memberExprs (h : Header) : List (List String × Option String) :=
  h.structs.map fun s => (s.fields.map fun x => x.type.expr, (h.vtable? s).map Vtable.ident)

/-- Where normalization leaves no name the expression is none of the grammar, and a table that two
structs refer to is not called what they call it. -/
theorem resolve_notReadBack :
    ((Grammar.readHeader false "a.h" digitSource .start).1.toOption.map fun h =>
        memberExprs (resolveHeader Settings.default.stripPrefixes
          (normalizeHeader Settings.default.stripPrefixes h)).value) =
      some [(["ctypes.POINTER(2D)"], none)] ∧
    (∀ e : TypeExpr, ¬ (e.IsSentence ∧ e.text = "ctypes.POINTER(2D)")) ∧
    ((Grammar.readHeader false "a.h" sharedSource .start).1.toOption.map fun h =>
        memberExprs (resolveHeader Settings.default.stripPrefixes
          (normalizeHeader Settings.default.stripPrefixes h)).value) =
      some [(["ctypes.POINTER(D3D11Vtbl)"], some "Vtbl"), (["ctypes.POINTER(D3D11Vtbl)"], some "Vtbl")] := by
  have hshared : sharedSource.toList = _ :=
    Lexer.toList_append_eq (Lexer.toList_append_eq String.toList_ofList String.toList_ofList)
      String.toList_ofList
  refine ⟨by decide +kernel, fun e h => ?_, by
    rw [Grammar.readHeader, Grammar.header, Lexer.lex, hshared]
    decide +kernel⟩
  have hloose : (TypeExpr.pointer (.name "2D")).IsLoose :=
    List.all_eq_true.mp (show "2D".toList.all TypeExpr.isNamePart = true by decide)
  obtain ⟨hsentence, -⟩ := (TypeExpr.isSentence_and_text_eq_iff hloose).mp h
  have hwordy : IsWordy "2D" :=
    List.all_eq_true.mp (show "2D".toList.all Lexer.isIdentPart = true by decide)
  exact absurd ((isDotted_iff hwordy).mp hsentence) (by decide)

end Transform

end SdkBindings
