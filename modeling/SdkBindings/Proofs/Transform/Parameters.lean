import SdkBindings.Proofs.Declared.Passes
import SdkBindings.Proofs.Transform.Settling

/-!
# What the passes make of the parameters of a callee

The parameters that a wrapper is written for are those that a header declares, after six passes.  This
module puts together what each of them settles (`corresponds_transform`) and reads off what has become
of a pointer among the parameters (`IsPrepared`): whether it is a length or an array follows from the
names that the parameters have after normalization, everything else from the declaration.
-/

namespace SdkBindings.Transform

/-! ## Declared parameters -/

/-- What is said of all lists of fields of a header is said of the parameters of its callees. -/
theorem allOf_parameters? {p : CType → Prop} {q : Field → Prop} {h : Header}
    (hh : h.EachList (Field.AllOf p q)) {callee : Callee} {ds : List Field}
    (hds : h.parameters? callee = some ds) : Field.AllOf p q ds := by
  cases callee with
  | function place =>
    obtain ⟨f, hf, rfl⟩ := Option.map_eq_some_iff.mp hds
    exact hh.parameters f (List.mem_of_getElem? hf)
  | method place entry =>
    obtain ⟨⟨s, f⟩, hmethod, rfl⟩ := Option.map_eq_some_iff.mp hds
    obtain ⟨-, i, t, -, ht, hf, -⟩ := Header.method?_eq_some_iff.mp hmethod
    have hentry := Field.allOf_iff.mp (hh.entries t (List.mem_of_getElem? ht)) f
      (List.mem_of_getElem? hf)
    exact (CType.all_iff.mp (Field.all_iff.mp hentry).2).2.2.1

/-- The parameters of the callees of a declared header are declared. -/
theorem areDeclared_parameters? {h : Header} (hdeclared : h.IsDeclared) {callee : Callee}
    {ds : List Field} (hds : h.parameters? callee = some ds) : Field.AreDeclared ds :=
  allOf_parameters? hdeclared.fields hds

/-- Declared fields are not paired, and neither are the parameters of the methods among them. -/
theorem isUnpaired_of_areDeclared {xs : List Field} (h : Field.AreDeclared xs) {x : Field}
    (hx : x ∈ xs) : x.IsUnpaired ∧ Field.AreDeclared x.type.parameters := by
  obtain ⟨hunpaired, htype⟩ := Field.all_iff.mp (Field.allOf_iff.mp h x hx)
  exact ⟨hunpaired, (CType.all_iff.mp htype).2.2.1⟩

/-! ## From pass to pass -/

section

variable {prefixes : List String} {h h' : Header}

/-- A header and its normalized stage. -/
theorem corresponds_normalizeHeader (prefixes : List String) (h : Header) :
    Corresponds (InDepth (List.Forall₂ Renames)) h (normalizeHeader prefixes h) := by
  have hrefl (xs : List Field) : List.Forall₂ Renames xs xs :=
    List.forall₂_same.mpr fun x _ => .refl x
  have hself (xs : List Field) : InDepth (List.Forall₂ Renames) xs xs := by
    refine ⟨hrefl xs, fun i x y hx hy _ => ?_⟩
    cases hx.symm.trans hy
    exact hrefl x.type.parameters
  have hstep (owner : String) (xs ys : List Field) (hxy : List.Forall₂ Renames xs ys)
      (_ : (normalizeChange (normalize prefixes) owner ys).failure = none) :
      List.Forall₂ Renames xs (normalizeFields (normalize prefixes) ys) := by
    have hys : List.Forall₂ Renames ys (normalizeFields (normalize prefixes) ys) := by
      rw [normalizeFields_eq_map, List.forall₂_map_right_iff]
      exact List.forall₂_same.mpr fun y _ => renames_normalizeField _ y
    exact forall₂_trans (fun _ _ _ hxy hyz => hxy.trans hyz) hxy hys
  have hdepth (xs ys : List Field) (hxy : InDepth (List.Forall₂ Renames) xs ys) :
      InDepth (List.Forall₂ Renames) xs (normalizeFields (normalize prefixes) ys) :=
    (goesInside_normalize (normalize prefixes)).inDepth (fun _ _ _ => trivial)
      (fun _ _ => sameShapes_of_forall₂ fun _ _ h => h.type) hstep "" xs ys hxy rfl
  rw [normalizeHeader_eq]
  exact (Corresponds.refl hself h).apply (normalizing_keepsPlaces _) (fun xs x => hdepth xs x.parameters)
    fun xs t => hdepth xs t.fields

/-- A list of fields without marks, before anything has been done to it. -/
def IsFresh (xs ys : List Field) : Prop :=
  ys = xs ∧ ∀ x ∈ xs, x.IsUnpaired

/-- A list of fields without marks, with resolved types. -/
def AreResolved (prefixes : List String) (xs ys : List Field) : Prop :=
  (∀ x ∈ xs, x.IsUnpaired) ∧ List.Forall₂ (Resolves prefixes) xs ys

/-- A list of fields with resolved types, with lengths and arrays. -/
def AreResolvedAndPaired (prefixes : List String) (xs zs : List Field) : Prop :=
  ∃ ys, AreResolved prefixes xs ys ∧ ArePaired ys zs

/-- A list of fields as all passes have left it. -/
def ArePrepared (prefixes : List String) (xs ws : List Field) : Prop :=
  ∃ zs, AreResolvedAndPaired prefixes xs zs ∧ List.Forall₂ Erases zs ws

/-- Nothing has been done to a normalized header. -/
theorem corresponds_fresh (hdeclared : h.IsDeclared) :
    Corresponds (InDepth IsFresh) (normalizeHeader prefixes h) (normalizeHeader prefixes h) := by
  have hfresh {xs ys : List Field} (hxs : Field.AreDeclared xs) (hxy : List.Forall₂ Renames xs ys) :
      IsFresh ys ys := by
    refine ⟨rfl, fun y hy => ?_⟩
    obtain ⟨i, hy⟩ := List.mem_iff_getElem?.mp hy
    obtain ⟨x, hx, hrenames⟩ := exists_getElem?_of_forall₂_right hxy hy
    obtain ⟨hunpaired, -⟩ := isUnpaired_of_areDeclared hxs (List.mem_of_getElem? hx)
    rw [hrenames.same]
    exact ⟨hunpaired.isArray, hunpaired.isLength⟩
  refine (corresponds_normalizeHeader prefixes h).target hdeclared.fields fun xs ys hxs hxy => ?_
  refine ⟨hfresh hxs hxy.1, fun i y y' hy hy' hshape => ?_⟩
  cases hy.symm.trans hy'
  obtain ⟨x, hx, hrenames⟩ := exists_getElem?_of_forall₂_right hxy.1 hy
  obtain ⟨-, hparameters⟩ := isUnpaired_of_areDeclared hxs (List.mem_of_getElem? hx)
  exact hfresh hparameters (hxy.2 i x y hx hy (hrenames.type.1.symm.trans hshape))

/-- Resolution. -/
theorem Corresponds.resolve (hc : Corresponds (InDepth IsFresh) h h')
    (hfailure : (resolveHeader prefixes h').failure = none) :
    Corresponds (InDepth (AreResolved prefixes)) h (resolveHeader prefixes h').value := by
  refine hc.changeFields_inDepth hfailure goesInside_resolve (fun xs ys hR => ?_) (fun xs ys hS => ?_)
    (fun owner xs ys hR hok => ?_) fun owner xs ys hS hok => ?_
  · obtain ⟨rfl, -⟩ := hR
    exact ⟨trivial, List.forall₂_same.mpr fun _ _ => rfl⟩
  · exact ⟨trivial, sameShapes_of_forall₂ (fun _ _ h => h.type) hS.2⟩
  · obtain ⟨rfl, hunpaired⟩ := hR
    exact ⟨hunpaired, resolves_resolveFields hok⟩
  · exact ⟨hS.1, forall₂_trans (fun _ _ _ hxy hyz => hxy.trans hyz) hS.2 (resolves_resolveFields hok)⟩

/-- Fields with resolved types have no marks if they had none. -/
theorem AreResolved.isUnpaired {xs ys : List Field} (hxy : AreResolved prefixes xs ys) :
    ∀ y ∈ ys, y.IsUnpaired := by
  intro y hy
  obtain ⟨i, hy⟩ := List.mem_iff_getElem?.mp hy
  obtain ⟨x, hx, hresolves⟩ := exists_getElem?_of_forall₂_right hxy.2 hy
  obtain ⟨harray, hlength⟩ := hxy.1 x (List.mem_of_getElem? hx)
  rw [hresolves.same]
  exact ⟨harray, hlength⟩

/-- Paired lists have the same shapes. -/
theorem AreResolvedAndPaired.sameShapes {xs zs : List Field}
    (h : AreResolvedAndPaired prefixes xs zs) : SameShapes xs zs := by
  obtain ⟨ys, hresolved, hpaired⟩ := h
  exact forall₂_trans (fun _ _ _ hxy hyz => hyz.trans hxy)
    (sameShapes_of_forall₂ (fun _ _ h => h.type) hresolved.2)
    (sameShapes_of_forall₂ (fun _ _ h => h.type) hpaired.retains)

/-- Pairing. -/
theorem Corresponds.pair (hc : Corresponds (InDepth (AreResolved prefixes)) h h')
    (hfailure : (pairHeader prefixes h').failure = none) :
    Corresponds (InDepth (AreResolvedAndPaired prefixes)) h (pairHeader prefixes h').value := by
  refine hc.changeFields_inDepth hfailure goesInside_pair (fun xs ys hR => ?_) (fun xs zs hS => ?_)
    (fun owner xs ys hR hok => ?_) fun owner xs zs hS hok => ?_
  · exact ⟨trivial, sameShapes_of_forall₂ (fun _ _ h => h.type) hR.2⟩
  · exact ⟨trivial, hS.sameShapes⟩
  · exact ⟨ys, hR, arePaired_pairFields hR.isUnpaired hok⟩
  · obtain ⟨ys, hresolved, hpaired⟩ := hS
    exact ⟨ys, hresolved, hpaired.again hok⟩

/-- Prepared lists have the same shapes. -/
theorem ArePrepared.sameShapes {xs ws : List Field} (h : ArePrepared prefixes xs ws) :
    SameShapes xs ws := by
  obtain ⟨zs, hpaired, herased⟩ := h
  exact forall₂_trans (fun _ _ _ hxy hyz => hyz.trans hxy) hpaired.sameShapes
    (sameShapes_of_forall₂ (fun _ _ h => h.type) herased)

/-- Erasure. -/
theorem Corresponds.erase (hc : Corresponds (InDepth (AreResolvedAndPaired prefixes)) h h') :
    Corresponds (InDepth (ArePrepared prefixes)) h (eraseHeader h') := by
  have hnone : (h'.changeFields eraseChange).failure = none :=
    Option.eq_none_iff_forall_ne_some.mpr fun e => e.elim
  refine hc.changeFields_inDepth hnone goesInside_erase (fun xs zs hR => ⟨trivial, hR.sameShapes⟩)
    (fun xs ws hS => ⟨trivial, hS.sameShapes⟩) (fun owner xs zs hR _ => ?_) fun owner xs ws hS _ => ?_
  · exact ⟨zs, hR, erases_eraseFields zs⟩
  · obtain ⟨zs, hpaired, herased⟩ := hS
    exact ⟨zs, hpaired, forall₂_trans (fun _ _ _ hxy hyz => hxy.trans hyz) herased (erases_eraseFields ws)⟩

/-- Decomposition of identifiers has nothing to do with fields. -/
theorem Corresponds.decompose {R : List Field → List Field → Prop} (hc : Corresponds R h h')
    (hfailure : (decomposeHeader h').failure = none) :
    Corresponds R h (decomposeHeader h').value := by
  obtain ⟨hiff, hvalue⟩ := decomposeHeader_spec h'
  rw [hvalue (hiff.mp hfailure)]
  exact hc.apply decomposing_keepsPlaces (fun _ _ h => h) fun _ _ h => h

/-- Neither has the removal of duplicate constants. -/
theorem Corresponds.dedup {R : List Field → List Field → Prop} (hc : Corresponds R h h') :
    Corresponds R h (dedupHeader h').value := by
  rw [dedupHeader_value]
  exact hc.apply deduplicating_keepsPlaces (fun _ _ h => h) fun _ _ h => h

/-- Passes that are gone through in a row, from the first one on. -/
theorem applyAll_cons_of_none {pass : Pass} {rest : List Pass} {x : Header}
    (hfailure : (applyAll prefixes (pass :: rest) x).failure = none) :
    (pass.apply prefixes x).failure = none ∧
      (applyAll prefixes rest (pass.apply prefixes x).value).failure = none ∧
      (applyAll prefixes (pass :: rest) x).value =
        (applyAll prefixes rest (pass.apply prefixes x).value).value :=
  andThen_failure_eq_none hfailure

/-- **All passes.**  The lists of a header that all passes go through are prepared. -/
theorem corresponds_transform (hdeclared : h.IsDeclared)
    (hfailure : (transform prefixes h).failure = none) :
    Corresponds (InDepth (ArePrepared prefixes)) (normalizeHeader prefixes h)
      (transform prefixes h).value := by
  obtain ⟨hpasses, -, hvalue⟩ := andThen_failure_eq_none hfailure
  have hall : (transform prefixes h).value = (applyAll prefixes Pass.order h).value := hvalue
  obtain ⟨-, hpasses, hnormalized⟩ := applyAll_cons_of_none hpasses
  obtain ⟨hresolve, hpasses, hresolved⟩ := applyAll_cons_of_none hpasses
  obtain ⟨hpair, hpasses, hpaired⟩ := applyAll_cons_of_none hpasses
  obtain ⟨-, hpasses, herased⟩ := applyAll_cons_of_none hpasses
  obtain ⟨hdecompose, hpasses, hdecomposed⟩ := applyAll_cons_of_none hpasses
  obtain ⟨-, -, hdeduplicated⟩ := applyAll_cons_of_none hpasses
  rw [hall, Pass.order, hnormalized, hresolved, hpaired, herased, hdecomposed, hdeduplicated]
  exact ((((corresponds_fresh hdeclared).resolve hresolve).pair hpair).erase.decompose hdecompose).dedup

end

/-! ## Pointers among the parameters -/

section

variable {prefixes : List String}

/-- A field may be the length of the same neighbour, and an array, whether its type is resolved or not. -/
theorem Resolves.pairs {x y : Field} (h : Resolves prefixes x y) :
    companionSide? y = companionSide? x ∧ isPairable y = isPairable x := by
  rw [companionSide?, companionSide?, isPairable, isPairable, CType.isPointer, CType.isPointer,
    h.type.1, h.same]
  exact ⟨rfl, rfl⟩

/-- A list has the same pairs whether its types are resolved or not. -/
theorem takes_iff_of_resolves {xs ys : List Field} (h : List.Forall₂ (Resolves prefixes) xs ys)
    (i j : Nat) : Takes ys i j ↔ Takes xs i j := by
  constructor
  · refine fun htakes => htakes.transfer (fun y side hy hside => ?_) fun y hy hpairable => ?_
    · obtain ⟨x, hx, hxy⟩ := exists_getElem?_of_forall₂_right h hy
      exact ⟨x, hx, hxy.pairs.1.symm.trans hside⟩
    · obtain ⟨x, hx, hxy⟩ := exists_getElem?_of_forall₂_right h hy
      exact ⟨x, hx, hxy.pairs.2.symm.trans hpairable⟩
  · refine fun htakes => htakes.transfer (fun x side hx hside => ?_) fun x hx hpairable => ?_
    · obtain ⟨y, hy, hxy⟩ := exists_getElem?_of_forall₂ h hx
      exact ⟨y, hy, hxy.pairs.1.trans hside⟩
    · obtain ⟨y, hy, hxy⟩ := exists_getElem?_of_forall₂ h hx
      exact ⟨y, hy, hxy.pairs.2.trans hpairable⟩

/-- A field of a list is the length of another one. -/
def IsCount (fields : List Field) (i : Nat) : Prop :=
  ∃ j, Takes fields i j

/-- A field of a list is an array that another one is the length of. -/
def IsCounted (fields : List Field) (i : Nat) : Prop :=
  ∃ j, Takes fields j i

/-- What has become of a pointer `d` in its place among the parameters of a callee, whose normalized
stage is `xs`. -/
structure IsPrepared (prefixes : List String) (xs : List Field) (i : Nat) (d w : Field) : Prop where
  /-- It still is a pointer. -/
  shape : w.type.shape = .pointer
  /-- It has its indirections. -/
  depth : w.type.depth = d.type.depth
  /-- It is an output if it was declared as one. -/
  isOut : w.isOut = d.isOut
  /-- Its type is given up if the rules say so. -/
  isErased : w.isErased = isGivenUp d
  /-- It is a length if it is one by the names of the parameters. -/
  isLength : w.isLength = true ↔ IsCount xs i
  /-- So for an array. -/
  isArray : w.isArray = true ↔ IsCounted xs i
  /-- It has its normalized name, unless it is a length. -/
  name : ∃ x, xs[i]? = some x ∧ (w.isLength = false → w.name = x.name)
  /-- If it is no array, it has the expression for what it points to. -/
  expr : w.isArray = false → ∀ u, d.type.inner = some u →
    w.type.expr = innerPointer prefixes u d.type.depth

/-- What the stages of a pointer in its place come to. -/
theorem isPrepared_of_stages {ds xs ys zs ws : List Field} (hrenamed : List.Forall₂ Renames ds xs)
    (hresolved : AreResolved prefixes xs ys) (hpaired : ArePaired ys zs)
    (herased : List.Forall₂ Erases zs ws) {i : Nat} {d : Field} (hd : ds[i]? = some d)
    (hshape : d.type.shape = .pointer) : ∃ w, ws[i]? = some w ∧ IsPrepared prefixes xs i d w := by
  obtain ⟨x, hx, hdx⟩ := exists_getElem?_of_forall₂ hrenamed hd
  obtain ⟨y, hy, hxy⟩ := exists_getElem?_of_forall₂ hresolved.2 hx
  obtain ⟨z, hz, hyz⟩ := exists_getElem?_of_forall₂ hpaired.retains hy
  obtain ⟨w, hw, hzw⟩ := exists_getElem?_of_forall₂ herased hz
  have hdz : Keeps d.type z.type := (hdx.type.trans hxy.type).trans hyz.type
  have hxshape : x.type.shape = .pointer := hdx.type.1.trans hshape
  have hzshape : z.type.shape = .pointer := hdz.1.trans hshape
  have htype : w.type = z.type := hzw.pointer hzshape
  have hdxsame := hdx.pointer hshape
  refine ⟨w, hw, htype ▸ hzshape, htype ▸ hdz.2.2, ?_, ?_, ?_, ?_, ⟨x, hx, fun hlength => ?_⟩,
    fun harray u hu => ?_⟩
  · rw [hzw.same, hyz.same, hxy.same, hdx.same]
  · have hgiven : isGivenUp z = isGivenUp d := by
      rw [isGivenUp, isGivenUp, CType.isPointer, CType.isPointer, hdz.1, hdz.2.1, hdz.2.2, hyz.same,
        hxy.same, hdx.same]
    rw [hzw.same, hgiven]
  · rw [hzw.same]
    exact (hpaired.isLength i z hz).trans (exists_congr fun j => takes_iff_of_resolves hresolved.2 i j)
  · rw [hzw.same]
    exact (hpaired.isArray i z hz).trans (exists_congr fun j => takes_iff_of_resolves hresolved.2 j i)
  · rw [hzw.same] at hlength ⊢
    rw [hpaired.name i y z hy hz hlength, hxy.same]
  · rw [hzw.same] at harray
    have hu' : x.type.inner = some u := (congrArg CType.inner hdxsame).trans hu
    obtain ⟨hexpr, -⟩ := hxy.pointer hxshape u hu'
    rw [htype, (hyz.expr harray).2, hexpr, hxy.type.2.2, hdxsame]

/-- **Prepared parameters.**  What the passes make of the pointers among the parameters of a callee. -/
theorem exists_prepared {h : Header} (hdeclared : h.IsDeclared)
    (hfailure : (transform prefixes h).failure = none) {callee : Callee} {ds : List Field}
    (hds : h.parameters? callee = some ds) :
    ∃ xs ws, (normalizeHeader prefixes h).parameters? callee = some xs ∧
      (transform prefixes h).value.parameters? callee = some ws ∧
      ∀ i d, ds[i]? = some d → d.type.shape = .pointer →
        ∃ w, ws[i]? = some w ∧ IsPrepared prefixes xs i d w := by
  obtain ⟨xs, hxs, hrenamed⟩ := (corresponds_normalizeHeader prefixes h).parameters?
    (fun _ _ => sameShapes_of_forall₂ fun _ _ h => h.type) hds
  obtain ⟨ws, hws, zs, ⟨ys, hresolved, hpaired⟩, herased⟩ :=
    (corresponds_transform hdeclared hfailure).parameters? (fun _ _ => ArePrepared.sameShapes) hxs
  exact ⟨xs, ws, hxs, hws, fun i d hd hshape =>
    isPrepared_of_stages hrenamed hresolved hpaired herased hd hshape⟩

end

end SdkBindings.Transform
