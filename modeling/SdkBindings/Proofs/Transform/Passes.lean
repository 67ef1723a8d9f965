import SdkBindings.Proofs.Transform.Fields
import SdkBindings.Proofs.Transform.Rewrite

/-!
# The passes as changes and rewritings

Four of the six passes are rewritings: normalization and erasure always (`normalizeHeader_eq`,
`eraseHeader_eq`), the decomposition of identifiers if every identifier can be decomposed
(`decomposeHeader_spec`), and the removal of duplicate constants if no constant is redefined.  The
other two, resolution and pairing, are changes of fields.  So what a rewriting does to fields decides
whether it can be exchanged with them.
-/

namespace SdkBindings.Transform

/-! ## Normalization -/

/-- Normalization, part by part. -/
def normalizing (f : String → String) : Rewrite where
  function x := { x with ident := f x.ident, parameters := normalizeFields f x.parameters }
  struct x := { x with ident := f x.ident, fields := normalizeFields f x.fields }
  table := normalizeTable f
  aliases xs := xs.map fun x => ⟨f x.ident, f x.target⟩
  enums _ xs := xs.map (normalizeEnum f)

/-- Normalization is a rewriting. -/
theorem normalizeHeader_eq (prefixes : List String) (h : Header) :
    normalizeHeader prefixes h = (normalizing (normalize prefixes)).apply h := by
  rw [normalizeHeader, Rewrite.apply, modifyTables, List.foldl_map]
  rfl

/-- Normalization does not move tables. -/
theorem normalizing_keepsPlaces (f : String → String) : (normalizing f).KeepsPlaces :=
  fun _ => rfl

/-- Resolution can be exchanged with normalization. -/
theorem normalizing_respects (prefixes : List String) (f : String → String) :
    (normalizing f).Respects fun _ fields => resolveFields prefixes fields := by
  constructor <;> intro x <;>
    simp only [changeFunction, changeMembers, changeTable, normalizing, normalizeTable,
      resolveFields_normalizeFields, Change.map_map]

/-! ## Erasure -/

/-- Erasure, part by part. -/
def erasing : Rewrite where
  function x := { x with parameters := eraseFields x.parameters }
  struct x := { x with fields := eraseFields x.fields }
  table x := { x with fields := eraseFields x.fields }
  aliases := id
  enums _ := id

/-- Erasure does not move tables. -/
theorem erasing_keepsPlaces : erasing.KeepsPlaces :=
  fun _ => rfl

/-- Erasure of a list of fields as a change. -/
abbrev eraseChange : Header.FieldChange Empty Empty := fun _ fields => .done (eraseFields fields)

/-- The table at a place is erased there. -/
theorem changeTableAt_erase (place : Option Nat) (tables : List Vtable) :
    changeTableAt eraseChange place tables = .done (modifyTables erasing.table [place] tables) := by
  cases place with
  | none => rfl
  | some i =>
    change _ = Change.done (tables.modify i erasing.table)
    simp only [changeTableAt]
    cases htable : tables[i]? with
    | none => rw [List.modify_eq_self (List.getElem?_eq_none_iff.mp htable)]
    | some t =>
      rw [List.modify_eq_set, htable]
      rfl

/-- Structs are erased one after the other. -/
theorem changeStructs_erase (structs : List Struct) (tables : List Vtable) :
    Header.changeStructs eraseChange tables structs =
      .done (structs.map erasing.struct,
        modifyTables erasing.table (structs.map Struct.vtable) tables) := by
  induction structs generalizing tables with
  | nil => rfl
  | cons s structs ih =>
    have hmembers : changeMembers eraseChange s = .done (erasing.struct s) := rfl
    rw [Header.changeStructs, changeStruct_eq, changeTableAt_erase, hmembers, Change.done_andThen]
    change (Change.done (erasing.struct s, _)).andThen _ _ = _
    rw [Change.done_andThen]
    dsimp only
    rw [ih]
    rfl

/-- Erasure is a rewriting. -/
theorem eraseHeader_eq (h : Header) : eraseHeader h = erasing.apply h := by
  have hfunctions : Change.each (changeFunction eraseChange) h.functions =
      .done (h.functions.map erasing.function) := Change.each_done erasing.function h.functions
  change ((Change.each (changeFunction eraseChange) h.functions).andThen (fun functions =>
    (Header.changeStructs eraseChange h.vtables h.structs).map _) _).value = _
  rw [hfunctions, changeStructs_erase]
  rfl

/-- Resolution can be exchanged with erasure. -/
theorem erasing_respects_resolve (prefixes : List String) :
    erasing.Respects fun _ fields => resolveFields prefixes fields := by
  constructor <;> intro x <;>
    simp only [changeFunction, changeMembers, changeTable, erasing, resolveFields_eraseFields,
      Change.map_map]

/-- Pairing can be exchanged with erasure. -/
theorem erasing_respects_pair (prefixes : List String) : erasing.Respects (pairFields prefixes) := by
  constructor <;> intro x <;>
    simp only [changeFunction, changeMembers, changeTable, erasing, pairFields_eraseFields,
      Change.map_map]

/-- Erasure can be exchanged with normalization. -/
theorem erasing_exchanges_normalizing (f : String → String) :
    erasing.Exchanges (normalizing f) where
  function x := by simp only [erasing, normalizing, normalizeFields_eraseFields]
  struct x := by simp only [erasing, normalizing, normalizeFields_eraseFields]
  table x := by simp only [erasing, normalizing, normalizeTable, normalizeFields_eraseFields]
  aliases _ := rfl
  enums _ _ := rfl

/-! ## Decomposition -/

/-- An interface identifier that decomposition does not stop at. -/
def IsDecomposable (guid : String) : Prop :=
  guid = "" ∨ ∃ parts, decomposeGuid guid = .ok parts

/-- The parts of a struct after decomposition. -/
def partsOf (guid : String) (parts : Option GuidParts) : Option GuidParts :=
  if guid = "" then parts
  else
    match decomposeGuid guid with
    | .ok parts => some parts
    | .error _ => parts

/-- Decomposition, part by part. -/
def decomposing : Rewrite where
  function := id
  struct x := { x with guidParts := partsOf x.guid x.guidParts }
  table := id
  aliases := id
  enums _ := id

/-- Decomposition does not move tables. -/
theorem decomposing_keepsPlaces : decomposing.KeepsPlaces :=
  fun _ => rfl

/-- What decomposition does to one struct, and whether it stops there. -/
theorem decomposeStruct_spec (s : Struct) :
    (decomposeStruct s).value = decomposing.struct s ∧
      ((decomposeStruct s).failure = none ↔ IsDecomposable s.guid) := by
  unfold decomposeStruct
  split
  · rename_i hguid
    refine ⟨?_, fun _ => .inl hguid, fun _ => rfl⟩
    rw [decomposing]
    simp only [partsOf, if_pos hguid]
    rfl
  · rename_i hguid
    split
    · rename_i parts hparts
      refine ⟨?_, fun _ => .inr ⟨parts, hparts⟩, fun _ => rfl⟩
      rw [decomposing]
      simp only [partsOf, if_neg hguid, hparts]
      rfl
    · rename_i e he
      refine ⟨?_, fun h => (by cases h), fun h => ?_⟩
      · rw [decomposing]
        simp only [partsOf, if_neg hguid, he]
        rfl
      · rcases h with h | ⟨parts, hparts⟩
        · exact absurd h hguid
        · cases he.symm.trans hparts

/-- Decomposition of structs in a row stops unless all their identifiers can be decomposed, and goes
struct by struct if they can. -/
theorem each_decomposeStruct (structs : List Struct) :
    ((Change.each decomposeStruct structs).failure = none ↔
      ∀ guid ∈ structs.map Struct.guid, IsDecomposable guid) ∧
    ((∀ guid ∈ structs.map Struct.guid, IsDecomposable guid) →
      (Change.each decomposeStruct structs).value = structs.map decomposing.struct) := by
  induction structs with
  | nil => exact ⟨⟨fun _ _ hguid => absurd hguid List.not_mem_nil, fun _ => rfl⟩, fun _ => rfl⟩
  | cons s structs ih =>
    obtain ⟨hvalue, hfailure⟩ := decomposeStruct_spec s
    rw [List.map_cons, List.forall_mem_cons, Change.each]
    unfold Change.andThen
    cases hs : (decomposeStruct s).failure with
    | some e =>
      have hnot : ¬ IsDecomposable s.guid := fun h => by
        cases hs.symm.trans (hfailure.mpr h)
      exact ⟨⟨fun h => (by cases h), fun h => absurd h.1 hnot⟩, fun h => absurd h.1 hnot⟩
    | none =>
      refine ⟨⟨fun h => ⟨hfailure.mp hs, ih.1.mp h⟩, fun h => ih.1.mpr h.2⟩, fun h => ?_⟩
      change _ :: _ = _
      rw [hvalue, ih.2 h.2]
      rfl

/-- All identifiers of a header can be decomposed. -/
def AllDecomposable (h : Header) : Prop :=
  ∀ guid ∈ h.structs.map Struct.guid, IsDecomposable guid

/-- Decomposition stops unless all identifiers can be decomposed, and is a rewriting if they can. -/
theorem decomposeHeader_spec (h : Header) :
    ((decomposeHeader h).failure = none ↔ AllDecomposable h) ∧
      (AllDecomposable h → (decomposeHeader h).value = decomposing.apply h) := by
  refine ⟨(each_decomposeStruct h.structs).1, fun hall => ?_⟩
  change ({ h with structs := (Change.each decomposeStruct h.structs).value } : Header) = _
  rw [(each_decomposeStruct h.structs).2 hall, Rewrite.apply]
  simp only [decomposing, modifyTables_id, List.map_id]
  rfl

/-- Every change of fields can be exchanged with decomposition. -/
theorem decomposing_respects {ε ν : Type} (f : Header.FieldChange ε ν) : decomposing.Respects f :=
  ⟨fun _ => rfl, fun _ => rfl, fun _ => rfl⟩

/-! ## Removal of duplicates -/

/-- Removal of duplicate constants, part by part. -/
def deduplicating : Rewrite where
  function := id
  struct := id
  table := id
  aliases := id
  enums file xs := (dedupEnums file [] xs).value

/-- Removal of duplicates does not move tables. -/
theorem deduplicating_keepsPlaces : deduplicating.KeepsPlaces :=
  fun _ => rfl

/-- Removal of duplicates is a rewriting. -/
theorem dedupHeader_value (h : Header) : (dedupHeader h).value = deduplicating.apply h := by
  rw [Rewrite.apply]
  simp only [deduplicating, modifyTables_id, List.map_id]
  rfl

/-- Every change of fields can be exchanged with the removal of duplicates. -/
theorem deduplicating_respects {ε ν : Type} (f : Header.FieldChange ε ν) :
    deduplicating.Respects f :=
  ⟨fun _ => rfl, fun _ => rfl, fun _ => rfl⟩

end SdkBindings.Transform
