import SdkBindings.Proofs.Transform.Passes

/-!
# The order of the passes

Pairing goes by normalized names and replaces expressions that resolution has given, and constants are
the same when their normalized names are: so normalization has to come before pairing and before the
removal of duplicates, and resolution before pairing (`Pass.precedes`).  Nothing else about the order
matters.  In every order that respects these three requirements the passes come to the same header
with the same number of pairs, or every one of these orders stops (`outcome?_applyAll`).

Two passes of which neither has to come before the other can be exchanged on every header
(`commutes_of_free`).  Any two admissible orders are then the same by moving the first pass of one of
them to the front of the other (`outcome?_applyAll_perm`).
-/

namespace SdkBindings.Transform

/-! ## Orders and outcomes -/

/-- Whether a pass has to come before another. -/
def Pass.precedes : Pass → Pass → Bool
  | .normalize, .pair => true
  | .normalize, .dedup => true
  | .resolve, .pair => true
  | _, _ => false

/-- An order of passes without one that comes before another which has to precede it. -/
def Ordered (order : List Pass) : Prop :=
  order.Pairwise fun p q => q.precedes p = false

instance (order : List Pass) : Decidable (Ordered order) :=
  inferInstanceAs (Decidable (List.Pairwise _ _))

/-- An order of all passes in which those come first that have to. -/
structure Admissible (order : List Pass) : Prop where
  /-- Every pass is applied once. -/
  perm : order.Perm Pass.order
  /-- No pass comes before one that has to precede it. -/
  ordered : Ordered order

/-- What a change comes to if it does not stop: the header and the number of pairs. -/
def outcome? (c : Change TransformError Note Header) : Option (Header × Nat) :=
  match c.failure with
  | none => some (c.value, pairCount c.notes)
  | some _ => none

/-- The outcome of going on is decided by the outcomes on the way. -/
theorem outcome?_andThen (c : Change TransformError Note Header)
    (f : Header → Change TransformError Note Header) :
    outcome? (c.andThen f id) =
      (outcome? c).bind fun (h, n) => (outcome? (f h)).map fun (h', m) => (h', n + m) := by
  obtain ⟨h, notes, failure⟩ := c
  cases failure with
  | some e => rfl
  | none =>
    simp only [Change.andThen, outcome?, Option.bind_some]
    cases (f h).failure with
    | some e => rfl
    | none => rw [pairCount, List.countP_append]; rfl

/-- Two passes come to the same in either order. -/
def Commutes (prefixes : List String) (p q : Pass) : Prop :=
  ∀ h, outcome? ((p.apply prefixes h).andThen (q.apply prefixes) id) =
    outcome? ((q.apply prefixes h).andThen (p.apply prefixes) id)

variable {prefixes : List String}

/-- Exchanging two passes can be read either way. -/
theorem Commutes.symm {p q : Pass} (h : Commutes prefixes p q) : Commutes prefixes q p :=
  fun x => (h x).symm

/-! ## Passes that are rewritings -/

/-- A pass that is a rewriting wherever it does not stop, and finds no pairs. -/
structure Pass.Rewrites (prefixes : List String) (q : Pass) (r : Rewrite) (ok : Header → Prop) :
    Prop where
  /-- It stops unless the condition holds. -/
  failure : ∀ h, (q.apply prefixes h).failure = none ↔ ok h
  /-- If the condition holds, it rewrites. -/
  value : ∀ h, ok h → (q.apply prefixes h).value = r.apply h
  /-- It finds no pairs. -/
  count : ∀ h, pairCount (q.apply prefixes h).notes = 0

/-- Normalization rewrites. -/
theorem rewrites_normalize :
    Pass.normalize.Rewrites prefixes (normalizing (normalize prefixes)) fun _ => True :=
  ⟨fun _ => ⟨fun _ => trivial, fun _ => rfl⟩, fun h _ => normalizeHeader_eq prefixes h,
    fun _ => rfl⟩

/-- Erasure rewrites. -/
theorem rewrites_erase : Pass.erase.Rewrites prefixes erasing fun _ => True :=
  ⟨fun _ => ⟨fun _ => trivial, fun _ => rfl⟩, fun h _ => eraseHeader_eq h, fun _ => rfl⟩

/-- Decomposition rewrites a header all of whose identifiers can be decomposed. -/
theorem rewrites_decompose : Pass.decompose.Rewrites prefixes decomposing AllDecomposable :=
  ⟨fun h => (decomposeHeader_spec h).1, fun h => (decomposeHeader_spec h).2, fun _ => rfl⟩

/-- The removal of duplicates rewrites a header without redefinitions. -/
theorem rewrites_dedup : Pass.dedup.Rewrites prefixes deduplicating
    fun h => (dedupEnums h.file [] h.enums).failure = none := by
  refine ⟨fun _ => Iff.rfl, fun h _ => dedupHeader_value h, fun h => ?_⟩
  refine List.countP_eq_zero.mpr fun note hnote => ?_
  obtain ⟨entry, -, rfl⟩ := List.mem_map.mp hnote
  exact Bool.false_ne_true

/-- A pass can be exchanged with a rewriting that it goes through unchanged and whose condition it
keeps. -/
theorem Pass.Rewrites.commutes {p q : Pass} {r : Rewrite} {ok : Header → Prop}
    (hq : q.Rewrites prefixes r ok)
    (happly : ∀ h, p.apply prefixes (r.apply h) = (p.apply prefixes h).map r.apply)
    (hok : ∀ h, ok (p.apply prefixes h).value ↔ ok h) : Commutes prefixes p q := by
  intro h
  rw [outcome?_andThen, outcome?_andThen]
  by_cases hcond : ok h
  · have hfirst : outcome? (q.apply prefixes h) = some (r.apply h, 0) := by
      rw [outcome?, (hq.failure h).mpr hcond, hq.value h hcond, hq.count]
    rw [hfirst, Option.bind_some]
    dsimp only
    rw [happly]
    unfold outcome?
    dsimp only [Change.map]
    cases (p.apply prefixes h).failure with
    | some e => rfl
    | none =>
      have hlater := (hok h).mpr hcond
      simp only [Option.bind_some, Option.map_some, (hq.failure _).mpr hlater, hq.value _ hlater,
        hq.count, Nat.add_comm]
  · have hfirst : outcome? (q.apply prefixes h) = none := by
      unfold outcome?
      cases hfailure : (q.apply prefixes h).failure with
      | none => exact absurd ((hq.failure h).mp hfailure) hcond
      | some e => rfl
    have hlater : outcome? (q.apply prefixes (p.apply prefixes h).value) = none := by
      unfold outcome?
      cases hfailure : (q.apply prefixes (p.apply prefixes h).value).failure with
      | none => exact absurd ((hok h).mp ((hq.failure _).mp hfailure)) hcond
      | some e => rfl
    rw [hfirst, Option.bind_none]
    rw [outcome?]
    cases (p.apply prefixes h).failure with
    | some e => rfl
    | none =>
      simp only [Option.bind_some, hlater, Option.map_none]

/-! ## Which passes can be exchanged -/

/-- Resolution goes through a rewriting that it can be exchanged with on fields. -/
theorem resolve_apply {r : Rewrite} (h : r.Respects fun _ fields => resolveFields prefixes fields)
    (hplaces : r.KeepsPlaces) (x : Header) :
    Pass.resolve.apply prefixes (r.apply x) = (Pass.resolve.apply prefixes x).map r.apply :=
  congrArg silent (changeFields_apply h hplaces x)

/-- Pairing goes through a rewriting that it can be exchanged with on fields. -/
theorem pair_apply {r : Rewrite} (h : r.Respects (pairFields prefixes)) (hplaces : r.KeepsPlaces)
    (x : Header) : Pass.pair.apply prefixes (r.apply x) = (Pass.pair.apply prefixes x).map r.apply :=
  congrArg (withNotes .pairing) (changeFields_apply h hplaces x)

/-- Erasure goes through a rewriting that it can be exchanged with part by part. -/
theorem erase_apply {r : Rewrite} (h : erasing.Exchanges r) (hplaces : r.KeepsPlaces) (x : Header) :
    Pass.erase.apply prefixes (r.apply x) = (Pass.erase.apply prefixes x).map r.apply := by
  have hcomm := Rewrite.apply_comm erasing_keepsPlaces hplaces h x
  rw [← eraseHeader_eq, ← eraseHeader_eq] at hcomm
  exact congrArg Change.done hcomm

/-- Normalization goes through decomposition. -/
theorem normalize_apply_decomposing (x : Header) :
    Pass.normalize.apply prefixes (decomposing.apply x) =
      (Pass.normalize.apply prefixes x).map decomposing.apply := by
  have hparts : (normalizing (normalize prefixes)).Exchanges decomposing :=
    ⟨fun _ => rfl, fun _ => rfl, fun _ => rfl, fun _ => rfl, fun _ _ => rfl⟩
  have hcomm := Rewrite.apply_comm (normalizing_keepsPlaces _) decomposing_keepsPlaces hparts x
  rw [← normalizeHeader_eq, ← normalizeHeader_eq] at hcomm
  exact congrArg Change.done hcomm

/-- Decomposition goes through the removal of duplicates. -/
theorem decompose_apply_deduplicating (x : Header) :
    Pass.decompose.apply prefixes (deduplicating.apply x) =
      (Pass.decompose.apply prefixes x).map deduplicating.apply := by
  change silent (decomposeHeader _) = silent ((decomposeHeader x).map deduplicating.apply)
  rw [decomposeHeader, decomposeHeader, Change.map_map]
  simp only [Rewrite.apply, deduplicating, modifyTables_id, List.map_id]

/-- Whether all identifiers can be decomposed depends on the identifiers only. -/
theorem allDecomposable_iff {x y : Header}
    (h : y.structs.map Struct.guid = x.structs.map Struct.guid) :
    AllDecomposable y ↔ AllDecomposable x := by
  rw [AllDecomposable, h, AllDecomposable]

/-- A change of fields keeps the identifiers. -/
theorem allDecomposable_changeFields {ε ν : Type} {f : Header.FieldChange ε ν} (x : Header) :
    AllDecomposable (x.changeFields f).value ↔ AllDecomposable x :=
  allDecomposable_iff (map_changeFields (fun _ _ => rfl) x)

/-- A change of fields keeps the constants. -/
theorem dedup_changeFields {ε ν : Type} {f : Header.FieldChange ε ν} (x : Header) :
    (dedupEnums (x.changeFields f).value.file [] (x.changeFields f).value.enums).failure = none ↔
      (dedupEnums x.file [] x.enums).failure = none := by
  rw [(enums_changeFields x).1, (enums_changeFields x).2]

/-- Normalization keeps the identifiers. -/
theorem allDecomposable_normalizeHeader (x : Header) :
    AllDecomposable (normalizeHeader prefixes x) ↔ AllDecomposable x := by
  refine allDecomposable_iff ?_
  rw [normalizeHeader, List.map_map]
  rfl

/-- Resolution can be exchanged with every pass that it does not have to precede. -/
theorem resolve_commutes {q : Pass} (h : Pass.resolve.precedes q = false) :
    Commutes prefixes .resolve q := by
  cases q with
  | normalize =>
    exact rewrites_normalize.commutes
      (resolve_apply (normalizing_respects prefixes _) (normalizing_keepsPlaces _)) fun _ => Iff.rfl
  | resolve => exact fun _ => rfl
  | pair => cases h
  | erase =>
    exact rewrites_erase.commutes
      (resolve_apply (erasing_respects_resolve prefixes) erasing_keepsPlaces) fun _ => Iff.rfl
  | decompose =>
    exact rewrites_decompose.commutes
      (resolve_apply (decomposing_respects _) decomposing_keepsPlaces) allDecomposable_changeFields
  | dedup =>
    exact rewrites_dedup.commutes
      (resolve_apply (deduplicating_respects _) deduplicating_keepsPlaces) dedup_changeFields

/-- Pairing can be exchanged with every pass that does not have to precede it. -/
theorem pair_commutes {q : Pass} (h : q.precedes .pair = false) : Commutes prefixes .pair q := by
  cases q with
  | normalize => cases h
  | resolve => cases h
  | pair => exact fun _ => rfl
  | erase =>
    exact rewrites_erase.commutes
      (pair_apply (erasing_respects_pair prefixes) erasing_keepsPlaces) fun _ => Iff.rfl
  | decompose =>
    exact rewrites_decompose.commutes
      (pair_apply (decomposing_respects _) decomposing_keepsPlaces) allDecomposable_changeFields
  | dedup =>
    exact rewrites_dedup.commutes
      (pair_apply (deduplicating_respects _) deduplicating_keepsPlaces) dedup_changeFields

/-- Erasure can be exchanged with every pass. -/
theorem erase_commutes (q : Pass) : Commutes prefixes .erase q := by
  cases q with
  | normalize =>
    exact rewrites_normalize.commutes
      (erase_apply (erasing_exchanges_normalizing _) (normalizing_keepsPlaces _)) fun _ => Iff.rfl
  | resolve => exact (resolve_commutes rfl).symm
  | pair => exact (pair_commutes rfl).symm
  | erase => exact fun _ => rfl
  | decompose =>
    exact rewrites_decompose.commutes
      (erase_apply ⟨fun _ => rfl, fun _ => rfl, fun _ => rfl, fun _ => rfl, fun _ _ => rfl⟩
        decomposing_keepsPlaces) allDecomposable_changeFields
  | dedup =>
    exact rewrites_dedup.commutes
      (erase_apply ⟨fun _ => rfl, fun _ => rfl, fun _ => rfl, fun _ => rfl, fun _ _ => rfl⟩
        deduplicating_keepsPlaces) dedup_changeFields

/-- Decomposition can be exchanged with every pass. -/
theorem decompose_commutes (q : Pass) : Commutes prefixes .decompose q := by
  cases q with
  | normalize =>
    have hnormalize : Commutes prefixes .normalize .decompose :=
      rewrites_decompose.commutes normalize_apply_decomposing allDecomposable_normalizeHeader
    exact hnormalize.symm
  | resolve => exact (resolve_commutes rfl).symm
  | pair => exact (pair_commutes rfl).symm
  | erase => exact (erase_commutes .decompose).symm
  | decompose => exact fun _ => rfl
  | dedup => exact rewrites_dedup.commutes decompose_apply_deduplicating fun _ => Iff.rfl

/-- Passes of which neither has to come before the other can be exchanged. -/
theorem commutes_of_free {p q : Pass} (hpq : p.precedes q = false) (hqp : q.precedes p = false) :
    Commutes prefixes p q := by
  cases p with
  | resolve => exact resolve_commutes hpq
  | pair => exact pair_commutes hqp
  | erase => exact erase_commutes q
  | decompose => exact decompose_commutes q
  -- the other two are not free of each other
  | normalize =>
    cases q with
    | normalize => exact fun _ => rfl
    | resolve => exact (resolve_commutes rfl).symm
    | pair => cases hpq
    | erase => exact (erase_commutes .normalize).symm
    | decompose => exact (decompose_commutes .normalize).symm
    | dedup => cases hpq
  | dedup =>
    cases q with
    | normalize => cases hqp
    | resolve => exact (resolve_commutes rfl).symm
    | pair => exact (pair_commutes rfl).symm
    | erase => exact (erase_commutes .dedup).symm
    | decompose => exact (decompose_commutes .dedup).symm
    | dedup => exact fun _ => rfl

/-! ## Any admissible order -/

/-- Passes that come to the same come to the same after a pass in front. -/
theorem outcome?_applyAll_cons {xs ys : List Pass}
    (h : ∀ x, outcome? (applyAll prefixes xs x) = outcome? (applyAll prefixes ys x)) (p : Pass)
    (x : Header) :
    outcome? (applyAll prefixes (p :: xs) x) = outcome? (applyAll prefixes (p :: ys) x) := by
  rw [applyAll, applyAll, outcome?_andThen, outcome?_andThen]
  simp only [h]

/-- Two passes in front that can be exchanged. -/
theorem outcome?_applyAll_swap {p q : Pass} (h : Commutes prefixes p q) (rest : List Pass)
    (x : Header) :
    outcome? (applyAll prefixes (p :: q :: rest) x) =
      outcome? (applyAll prefixes (q :: p :: rest) x) := by
  have htwo (p q : Pass) : applyAll prefixes (p :: q :: rest) x =
      ((p.apply prefixes x).andThen (q.apply prefixes) id).andThen (applyAll prefixes rest) id := by
    rw [Change.andThen_assoc]
    rfl
  rw [htwo, htwo, outcome?_andThen, h, ← outcome?_andThen]

/-- A pass moves to the front past passes that it can be exchanged with. -/
theorem outcome?_applyAll_move {front : List Pass} {p : Pass}
    (h : ∀ q ∈ front, Commutes prefixes q p) (back : List Pass) (x : Header) :
    outcome? (applyAll prefixes (front ++ p :: back) x) =
      outcome? (applyAll prefixes (p :: (front ++ back)) x) := by
  induction front generalizing x with
  | nil => rfl
  | cons q front ih =>
    have hfront : ∀ q ∈ front, Commutes prefixes q p :=
      fun q' hq' => h q' (List.mem_cons_of_mem q hq')
    rw [List.cons_append, outcome?_applyAll_cons (ih hfront),
      outcome?_applyAll_swap (h q List.mem_cons_self)]
    rfl

/-- Two orders of the same passes come to the same if both respect what has to come first. -/
theorem outcome?_applyAll_perm {xs ys : List Pass} (hperm : xs.Perm ys) (hxs : Ordered xs)
    (hys : Ordered ys) (x : Header) :
    outcome? (applyAll prefixes xs x) = outcome? (applyAll prefixes ys x) := by
  induction xs generalizing ys x with
  | nil => rw [List.nil_perm.mp hperm]
  | cons p xs ih =>
    obtain ⟨front, back, rfl⟩ := List.append_of_mem (hperm.mem_iff.mp List.mem_cons_self)
    have hrest : xs.Perm (front ++ back) := (hperm.trans List.perm_middle).cons_inv
    obtain ⟨hfirst, hxs⟩ := List.pairwise_cons.mp hxs
    have hbefore : ∀ q ∈ front, p.precedes q = false :=
      fun q hq => (List.pairwise_append.mp hys).2.2 q hq p List.mem_cons_self
    have hfree : ∀ q ∈ front, Commutes prefixes q p := by
      intro q hq
      have hmem : q ∈ xs := hrest.mem_iff.mpr (List.mem_append_left back hq)
      exact commutes_of_free (hfirst q hmem) (hbefore q hq)
    have hordered : Ordered (front ++ back) :=
      hys.sublist ((List.sublist_cons_self p back).append_left front)
    rw [outcome?_applyAll_move hfree]
    exact outcome?_applyAll_cons (ih hrest hxs hordered) p x

/-- The passes in their own order respect what has to come first. -/
theorem ordered_order : Ordered Pass.order := by decide

/-- In every admissible order the passes come to the same header with the same number of pairs as in
their own, and they stop in it exactly if they stop in their own. -/
theorem outcome?_applyAll (prefixes : List String) (h : Header) {order : List Pass}
    (horder : Admissible order) :
    outcome? (applyAll prefixes order h) = outcome? (transform prefixes h) := by
  have hreport : outcome? (transform prefixes h) = outcome? (applyAll prefixes Pass.order h) := by
    rw [transform, outcome?_andThen]
    cases outcome? (applyAll prefixes Pass.order h) with
    | none => rfl
    | some result => rfl
  rw [hreport]
  exact outcome?_applyAll_perm horder.perm horder.ordered ordered_order h

/-- An interface with a method that takes an array and, under a name with a prefix, its length. -/
def viewHeader : Header :=
  { Header.empty "d3d11.h" with
    structs := [⟨"ID3D11Context", [], "c0bfa96c-e089-44fb-8eaf-26f8796190da", some 0, none⟩]
    vtables := [⟨"ID3D11ContextVtbl",
      [.plain "SetViews" (.functionPointer "SetViews"
        [.plain "D3D11_NumViews" (.basic "UINT"),
          { Field.plain "ppViews" (.pointer "ID3D11View" 2 (.basic "ID3D11View")) with
            hasCount := true }] "void")], "", none, none⟩] }

/-- With resolution before normalization and pairing last, the array of a method is still paired
with its length. -/
theorem outcome?_applyAll_views :
    Admissible [.decompose, .resolve, .erase, .normalize, .dedup, .pair] ∧
      outcome? (applyAll ["D3D11_"] [.decompose, .resolve, .erase, .normalize, .dedup, .pair]
        viewHeader) = outcome? (transform ["D3D11_"] viewHeader) ∧
      (outcome? (transform ["D3D11_"] viewHeader)).map Prod.snd = some 1 := by
  have horder : Admissible [.decompose, .resolve, .erase, .normalize, .dedup, .pair] :=
    ⟨by decide, by decide⟩
  exact ⟨horder, outcome?_applyAll ["D3D11_"] viewHeader horder, by decide +kernel⟩

end SdkBindings.Transform
