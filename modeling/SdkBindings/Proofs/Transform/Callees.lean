import Mathlib.Data.List.Forall2
import SdkBindings.Proofs.Declared.Types
import SdkBindings.Proofs.Transform.Matching
import SdkBindings.Proofs.Transform.Passes

/-!
# What is called, and how passes reach its parameters

Functions and the methods in tables are what a module calls (`Callee`).  A pass over the fields of a
header meets the parameters of a function once, but those of a method once for every struct that refers
to its table.  So what a pass establishes about a list of fields is worth something only if it stays
when the pass is repeated.

`Corresponds R` relates two stages of a header list by list, for any relation `R` of lists.  A change
of fields leads from one relation to another if one application does, and if another application
keeps what the first one has led to (`Corresponds.changeFields`).  A relation that also holds inside of
methods (`InDepth`) is one of the parameters of every callee (`Corresponds.parameters?`).
-/

namespace SdkBindings

/-- What is called: a function of a header, or an entry in the table of methods of a struct. -/
inductive Callee where
  /-- The function at a place. -/
  | function (place : Nat)
  /-- The method in an entry of the table of the struct at a place. -/
  | method (place entry : Nat)
  deriving DecidableEq, Repr

namespace Header

/-- The method in an entry of the table of the struct at a place, with that struct. -/
def method? (h : Header) (place entry : Nat) : Option (Struct × Field) := do
  let s ← h.structs[place]?
  let t ← h.vtable? s
  let f ← t.fields[entry]?
  if f.type.shape = .functionPointer then some (s, f) else none

/-- The parameters of a callee, the receiver of a method included. -/
def parameters? (h : Header) : Callee → Option (List Field)
  | .function place => h.functions[place]?.map Function.parameters
  | .method place entry => (h.method? place entry).map fun (_, f) => f.type.parameters

/-- A method is an entry of the shape of a method in a table that a struct refers to. -/
theorem method?_eq_some_iff {h : Header} {place entry : Nat} {s : Struct} {f : Field} :
    h.method? place entry = some (s, f) ↔ h.structs[place]? = some s ∧
      ∃ i t, s.vtable = some i ∧ h.vtables[i]? = some t ∧ t.fields[entry]? = some f ∧
        f.type.shape = .functionPointer := by
  simp only [method?, vtable?, bind, Option.bind_eq_some_iff, Option.ite_none_right_eq_some,
    Option.some.injEq, Prod.mk.injEq]
  constructor
  · rintro ⟨s, hs, t, ⟨i, hi, ht⟩, f, hf, hshape, rfl, rfl⟩
    exact ⟨hs, i, t, hi, ht, hf, hshape⟩
  · rintro ⟨hs, i, t, hi, ht, hf, hshape⟩
    exact ⟨s, hs, t, ⟨i, hi, ht⟩, f, hf, hshape, rfl, rfl⟩

end Header

namespace Transform

/-! ## Related lists -/

section

variable {α β : Type} {R : α → β → Prop}

/-- In related lists an item is related to the one in its place. -/
theorem exists_getElem?_of_forall₂ {xs : List α} {ys : List β} (h : List.Forall₂ R xs ys) {i : Nat}
    {x : α} (hx : xs[i]? = some x) : ∃ y, ys[i]? = some y ∧ R x y := by
  induction h generalizing i with
  | nil => cases hx
  | cons hxy _ ih =>
    cases i with
    | zero =>
      cases hx
      exact ⟨_, rfl, hxy⟩
    | succ i => exact ih hx

/-- An item of the second list is related to the one in its place in the first. -/
theorem exists_getElem?_of_forall₂_right {xs : List α} {ys : List β} (h : List.Forall₂ R xs ys)
    {i : Nat} {y : β} (hy : ys[i]? = some y) : ∃ x, xs[i]? = some x ∧ R x y :=
  exists_getElem?_of_forall₂ (R := flip R) h.flip hy

/-- Lists that are related to lists in between are related. -/
theorem forall₂_trans {γ : Type} {S : β → γ → Prop} {T : α → γ → Prop}
    (hT : ∀ x y z, R x y → S y z → T x z) {xs : List α} {ys : List β} {zs : List γ}
    (h : List.Forall₂ R xs ys) (h' : List.Forall₂ S ys zs) : List.Forall₂ T xs zs := by
  induction h generalizing zs with
  | nil =>
    cases h'
    exact .nil
  | cons hxy _ ih =>
    obtain _ | ⟨hyz, hrest⟩ := h'
    exact .cons (hT _ _ _ hxy hyz) (ih hrest)

end

/-- The fields of two lists have the same shapes. -/
def SameShapes (xs ys : List Field) : Prop :=
  List.Forall₂ (fun x y => y.type.shape = x.type.shape) xs ys

/-- Two lists of fields are related, and so are the parameters of each method in them. -/
def InDepth (R : List Field → List Field → Prop) (xs ys : List Field) : Prop :=
  R xs ys ∧ ∀ (i : Nat) (x y : Field), xs[i]? = some x → ys[i]? = some y →
    x.type.shape = .functionPointer → R x.type.parameters y.type.parameters

/-! ## Stages of a header -/

/-- Two stages of a header: the parameters of functions and the entries of the tables that structs
refer to are related. -/
structure Corresponds (R : List Field → List Field → Prop) (h h' : Header) : Prop where
  /-- The parameters of functions. -/
  functions : List.Forall₂ (fun x y : Function => R x.parameters y.parameters) h.functions h'.functions
  /-- Structs refer to the same tables. -/
  places : h'.structs.map Struct.vtable = h.structs.map Struct.vtable
  /-- There are as many tables. -/
  count : h'.vtables.length = h.vtables.length
  /-- The entries of the tables that structs refer to. -/
  tables : ∀ i t, some i ∈ h.structs.map Struct.vtable → h.vtables[i]? = some t →
    ∃ t', h'.vtables[i]? = some t' ∧ R t.fields t'.fields

variable {R S : List Field → List Field → Prop} {h h' : Header}

/-- A header corresponds to itself. -/
theorem Corresponds.refl (hR : ∀ xs, R xs xs) (h : Header) : Corresponds R h h :=
  ⟨List.forall₂_same.mpr fun x _ => hR x.parameters, rfl, rfl, fun _ t _ ht => ⟨t, ht, hR t.fields⟩⟩

/-- What is said of the lists of a header becomes something to say of the lists of a later stage. -/
theorem Corresponds.target {P : List Field → Prop} (hc : Corresponds R h h') (hP : h.EachList P)
    (hS : ∀ xs ys, P xs → R xs ys → S ys ys) : Corresponds S h' h' where
  functions := by
    refine List.forall₂_same.mpr fun y hy => ?_
    obtain ⟨i, hy⟩ := List.mem_iff_getElem?.mp hy
    obtain ⟨x, hx, hxy⟩ := exists_getElem?_of_forall₂_right hc.functions hy
    exact hS _ _ (hP.parameters x (List.mem_of_getElem? hx)) hxy
  places := rfl
  count := rfl
  tables i t' hi ht' := by
    rw [hc.places] at hi
    obtain ⟨hlt, -⟩ := List.getElem?_eq_some_iff.mp ht'
    rw [hc.count] at hlt
    have ht := List.getElem?_eq_getElem hlt
    obtain ⟨t'', ht'', hR⟩ := hc.tables i _ hi ht
    cases ht'.symm.trans ht''
    exact ⟨t', ht', hS _ _ (hP.entries _ (List.mem_of_getElem? ht)) hR⟩

/-- Where lists are related in depth, the parameters of a callee are related. -/
theorem Corresponds.parameters? (hc : Corresponds (InDepth R) h h')
    (hshapes : ∀ xs ys, R xs ys → SameShapes xs ys) {callee : Callee} {xs : List Field}
    (hxs : h.parameters? callee = some xs) : ∃ ys, h'.parameters? callee = some ys ∧ R xs ys := by
  cases callee with
  | function place =>
    obtain ⟨x, hx, rfl⟩ := Option.map_eq_some_iff.mp hxs
    obtain ⟨y, hy, hxy⟩ := exists_getElem?_of_forall₂ hc.functions hx
    exact ⟨y.parameters, by rw [Header.parameters?, hy, Option.map_some], hxy.1⟩
  | method place entry =>
    obtain ⟨⟨s, f⟩, hmethod, rfl⟩ := Option.map_eq_some_iff.mp hxs
    obtain ⟨hs, i, t, hi, ht, hf, hshape⟩ := Header.method?_eq_some_iff.mp hmethod
    -- the struct in that place refers to the same table
    have hplace : (h'.structs.map Struct.vtable)[place]? = some (some i) := by
      rw [hc.places, List.getElem?_map, hs, Option.map_some, hi]
    rw [List.getElem?_map] at hplace
    obtain ⟨s', hs', hi'⟩ := Option.map_eq_some_iff.mp hplace
    have hmem : some i ∈ h.structs.map Struct.vtable :=
      List.mem_map.mpr ⟨s, List.mem_of_getElem? hs, hi⟩
    obtain ⟨t', ht', hR, hparameters⟩ := hc.tables i t hmem ht
    obtain ⟨f', hf', hshape'⟩ := exists_getElem?_of_forall₂ (hshapes _ _ hR) hf
    have hmethod' : h'.method? place entry = some (s', f') :=
      Header.method?_eq_some_iff.mpr ⟨hs', i, t', hi', ht', hf', hshape'.trans hshape⟩
    refine ⟨f'.type.parameters, ?_, hparameters entry f f' hf hf' hshape⟩
    rw [Header.parameters?, hmethod', Option.map_some]

/-! ## Rewritings -/

/-- What is said of a table can be said of it after rewriting it any number of times. -/
theorem exists_modifyTables {P : Vtable → Prop} {g : Vtable → Vtable} (hg : ∀ t, P t → P (g t))
    (places : List (Option Nat)) {tables : List Vtable} {i : Nat}
    (h : ∃ t, tables[i]? = some t ∧ P t) : ∃ t, (modifyTables g places tables)[i]? = some t ∧ P t := by
  induction places generalizing tables with
  | nil => exact h
  | cons place places ih =>
    cases place with
    | none => exact ih h
    | some j =>
      refine ih ?_
      obtain ⟨t, ht, hP⟩ := h
      rw [List.getElem?_modify, ht]
      refine ⟨_, rfl, ?_⟩
      split
      · exact hg t hP
      · exact hP

/-- Rewriting tables keeps their number. -/
theorem length_modifyTables (g : Vtable → Vtable) (places : List (Option Nat)) (tables : List Vtable) :
    (modifyTables g places tables).length = tables.length := by
  induction places generalizing tables with
  | nil => rfl
  | cons place places ih =>
    cases place with
    | none => exact ih tables
    | some j => exact (ih _).trans (List.length_modify ..)

/-- A rewriting keeps what it keeps about each function and each table. -/
theorem Corresponds.apply {r : Rewrite} (hplaces : r.KeepsPlaces)
    (hfunction : ∀ xs x, R xs x.parameters → R xs (r.function x).parameters)
    (htable : ∀ xs t, R xs t.fields → R xs (r.table t).fields) (hc : Corresponds R h h') :
    Corresponds R h (r.apply h') where
  functions := by
    rw [Rewrite.apply, List.forall₂_map_right_iff]
    exact hc.functions.imp fun x y hxy => hfunction _ _ hxy
  places := (hplaces.map h'.structs).trans hc.places
  count := (length_modifyTables ..).trans hc.count
  tables i t hi ht := exists_modifyTables (htable t.fields) _ (hc.tables i t hi ht)

/-! ## Changes of fields -/

section

variable {ε ν : Type} {f : Header.FieldChange ε ν}

/-- Items that are changed one after the other without a stop. -/
theorem forall₂_each {α : Type} {g : α → Change ε ν α} {xs : List α}
    (hfailure : (Change.each g xs).failure = none) :
    List.Forall₂ (fun x y => (g x).failure = none ∧ y = (g x).value) xs (Change.each g xs).value := by
  induction xs with
  | nil => exact .nil
  | cons x xs ih =>
    rw [Change.each] at hfailure ⊢
    obtain ⟨hx, hxs, hvalue⟩ := andThen_failure_eq_none hfailure
    rw [hvalue]
    exact .cons ⟨hx, rfl⟩ (ih hxs)

/-- The change of the table at a place changes that table, if it does not stop, and no other one. -/
theorem getElem?_changeTableAt {place : Option Nat} {tables : List Vtable}
    (hfailure : (changeTableAt f place tables).failure = none) {i : Nat} {t : Vtable}
    (ht : tables[i]? = some t) :
    (place ≠ some i ∧ (changeTableAt f place tables).value[i]? = some t) ∨
    ((f t.ident t.fields).failure = none ∧
      (changeTableAt f place tables).value[i]? =
        some { t with fields := (f t.ident t.fields).value }) := by
  unfold changeTableAt at hfailure ⊢
  cases place with
  | none => exact .inl ⟨(Option.some_ne_none i).symm, ht⟩
  | some j =>
    by_cases hij : j = i
    · subst hij
      simp only [ht] at hfailure ⊢
      obtain ⟨hlt, -⟩ := List.getElem?_eq_some_iff.mp ht
      exact .inr ⟨hfailure, List.getElem?_set_self hlt⟩
    · refine .inl ⟨fun h => hij (Option.some.inj h), ?_⟩
      dsimp only
      split
      · exact ht
      · exact (List.getElem?_set_ne hij).trans ht

/-- The change of a table keeps the number of tables. -/
theorem length_changeTableAt (place : Option Nat) (tables : List Vtable) :
    (changeTableAt f place tables).value.length = tables.length := by
  unfold changeTableAt
  cases place with
  | none => rfl
  | some i =>
    dsimp only
    split
    · rfl
    · exact List.length_set

/-- A change of structs that does not stop keeps the number of tables, and a table is in the second
relation after it if it was before, or if it was in the first one and a struct refers to it. -/
theorem tables_changeStructs
    (hfirst : ∀ owner xs ys, R xs ys → (f owner ys).failure = none → S xs (f owner ys).value)
    (hagain : ∀ owner xs ys, S xs ys → (f owner ys).failure = none → S xs (f owner ys).value)
    {structs : List Struct} {tables : List Vtable}
    (hfailure : (Header.changeStructs f tables structs).failure = none) :
    (Header.changeStructs f tables structs).value.2.length = tables.length ∧
    ∀ i t xs, tables[i]? = some t →
      (S xs t.fields ∨ some i ∈ structs.map Struct.vtable ∧ R xs t.fields) →
      ∃ t', (Header.changeStructs f tables structs).value.2[i]? = some t' ∧ S xs t'.fields := by
  induction structs generalizing tables with
  | nil =>
    refine ⟨rfl, fun i t xs ht hrel => ⟨t, ht, hrel.resolve_right fun h => ?_⟩⟩
    exact List.not_mem_nil h.1
  | cons s structs ih =>
    rw [Header.changeStructs, changeStruct_eq] at hfailure ⊢
    obtain ⟨hstruct, hrest, hvalue⟩ := andThen_failure_eq_none hfailure
    obtain ⟨-, hat, hstructValue⟩ := andThen_failure_eq_none hstruct
    rw [hstructValue] at hrest hvalue
    rw [hvalue]
    obtain ⟨hlength, hothers⟩ := ih hrest
    refine ⟨hlength.trans (length_changeTableAt ..), fun i t xs ht hrel => ?_⟩
    obtain ⟨hne, hsame⟩ | ⟨hf, hchanged⟩ := getElem?_changeTableAt hat ht
    · refine hothers i t xs hsame (hrel.imp_right fun h => ⟨?_, h.2⟩)
      exact (List.mem_cons.mp h.1).resolve_left fun h => hne h.symm
    · refine hothers i _ xs hchanged (.inl ?_)
      exact hrel.elim (fun hS => hagain _ _ _ hS hf) fun h => hfirst _ _ _ h.2 hf

/-- **Changes of fields.**  A change that does not stop leads from one relation to another, if it does
for each list and keeps what it has led to when it is repeated. -/
theorem Corresponds.changeFields (hc : Corresponds R h h')
    (hfailure : (h'.changeFields f).failure = none)
    (hfirst : ∀ owner xs ys, R xs ys → (f owner ys).failure = none → S xs (f owner ys).value)
    (hagain : ∀ owner xs ys, S xs ys → (f owner ys).failure = none → S xs (f owner ys).value) :
    Corresponds S h (h'.changeFields f).value := by
  have hplaces : (h'.changeFields f).value.structs.map Struct.vtable = h'.structs.map Struct.vtable :=
    map_changeFields (fun _ _ => rfl) h'
  unfold Header.changeFields at hfailure hplaces ⊢
  obtain ⟨hfunctions, hstructs, hvalue⟩ := andThen_failure_eq_none hfailure
  rw [hvalue] at hplaces ⊢
  obtain ⟨hlength, htables⟩ := tables_changeStructs hfirst hagain hstructs
  refine ⟨?_, hplaces.trans hc.places, hlength.trans hc.count, fun i t hi ht => ?_⟩
  · refine forall₂_trans (fun x y z hxy hz => ?_) hc.functions (forall₂_each hfunctions)
    rw [hz.2]
    exact hfirst _ _ _ hxy hz.1
  · obtain ⟨t', ht', hR⟩ := hc.tables i t hi ht
    exact htables i t' t.fields ht' (.inr ⟨hc.places ▸ hi, hR⟩)

/-- A change of lists of a kind deals with the parameters of each method as with any other list. -/
def GoesInside (f : Header.FieldChange ε ν) (D : List Field → Prop) : Prop :=
  ∀ (owner : String) (ys : List Field) (i : Nat) (y : Field), D ys → (f owner ys).failure = none →
    ys[i]? = some y → y.type.shape = .functionPointer →
    ∃ owner' z, (f owner ys).value[i]? = some z ∧ (f owner' y.type.parameters).failure = none ∧
      z.type.parameters = (f owner' y.type.parameters).value

/-- A step on lists that goes inside of methods is one in depth. -/
theorem GoesInside.inDepth {D : List Field → Prop} (hf : GoesInside f D)
    (hD : ∀ xs ys, R xs ys → D ys) (hshapes : ∀ xs ys, R xs ys → SameShapes xs ys)
    (hstep : ∀ owner xs ys, R xs ys → (f owner ys).failure = none → S xs (f owner ys).value)
    (owner : String) (xs ys : List Field) (hR : InDepth R xs ys)
    (hfailure : (f owner ys).failure = none) : InDepth S xs (f owner ys).value := by
  refine ⟨hstep owner xs ys hR.1 hfailure, fun i x z hx hz hshape => ?_⟩
  obtain ⟨y, hy, hsame⟩ := exists_getElem?_of_forall₂ (hshapes _ _ hR.1) hx
  obtain ⟨owner', z', hz', hinside, hparameters⟩ :=
    hf owner ys i y (hD _ _ hR.1) hfailure hy (hsame.trans hshape)
  cases hz.symm.trans hz'
  rw [hparameters]
  exact hstep owner' _ _ (hR.2 i x y hx hy hshape) hinside

/-- **Changes in depth.**  The same for relations in depth, if the change goes inside of methods. -/
theorem Corresponds.changeFields_inDepth {D : List Field → Prop} (hc : Corresponds (InDepth R) h h')
    (hfailure : (h'.changeFields f).failure = none) (hf : GoesInside f D)
    (hR : ∀ xs ys, R xs ys → D ys ∧ SameShapes xs ys)
    (hS : ∀ xs ys, S xs ys → D ys ∧ SameShapes xs ys)
    (hfirst : ∀ owner xs ys, R xs ys → (f owner ys).failure = none → S xs (f owner ys).value)
    (hagain : ∀ owner xs ys, S xs ys → (f owner ys).failure = none → S xs (f owner ys).value) :
    Corresponds (InDepth S) h (h'.changeFields f).value :=
  hc.changeFields hfailure
    (hf.inDepth (fun xs ys h => (hR xs ys h).1) (fun xs ys h => (hR xs ys h).2) hfirst)
    (hf.inDepth (fun xs ys h => (hS xs ys h).1) (fun xs ys h => (hS xs ys h).2) hagain)

end

end Transform

end SdkBindings
