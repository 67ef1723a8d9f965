import SdkBindings.Proofs.Binding.Items

/-!
# Attaching identifiers and tables of methods

While a header is read, its interface identifiers and tables of methods are collected by name.  If no
name occurs twice, they are those of the items that have been read, in order (`guids_draftOf`,
`tables_draftOf`).  At the end each struct gets what belongs to it by name (`finish_spec`).

A table is attached through its place in a list that grows from struct to struct.  That the list grows
at its end only keeps the places that have been given out.
-/

namespace SdkBindings.Grammar

/-! ## What items are -/

/-- The members are those of a table of methods. -/
def isTable (members : List Field) : Bool :=
  members.head?.any fun first => first.name = tableMarker

/-- An interface identifier with the name of its interface. -/
def Item.identifier? : Item → Option (String × String)
  | .identifier name guid => some (name, guid)
  | _ => none

/-- A table of methods, without its marker, with its name. -/
def Item.table? : Item → Option (String × Vtable)
  | .struct ident members =>
    if isTable members then some (ident, ⟨ident, members.tail, "", none, none⟩) else none
  | _ => none

/-- A struct or interface: its name and its members. -/
def Item.struct? : Item → Option (String × List Field)
  | .struct ident members => if isTable members then none else some (ident, members)
  | .interface ident members => some (ident, members)
  | _ => none

/-- Only an interface identifier is one. -/
theorem Item.identifier?_eq_some {item : Item} {name guid : String} :
    item.identifier? = some (name, guid) ↔ item = .identifier name guid := by
  constructor
  · intro h
    cases item with
    | identifier name' guid' =>
      cases h
      rfl
    | _ => cases h
  · rintro rfl
    rfl

/-- Only a struct can be a table of methods. -/
theorem Item.table?_eq_some {item : Item} {name : String} {table : Vtable} :
    item.table? = some (name, table) ↔
      ∃ members, item = .struct name members ∧ isTable members ∧
        table = ⟨name, members.tail, "", none, none⟩ := by
  constructor
  · intro h
    cases item with
    | struct ident members =>
      rw [Item.table?] at h
      by_cases hmarked : isTable members = true
      · rw [if_pos hmarked] at h
        cases h
        exact ⟨members, rfl, hmarked, rfl⟩
      · rw [if_neg hmarked] at h
        cases h
    | _ => cases h
  · rintro ⟨members, rfl, hmarked, rfl⟩
    rw [Item.table?, if_pos hmarked]

/-- A table of methods is kept apart from the structs. -/
theorem addStruct_eq (draft : Draft) (ident : String) (members : List Field) :
    draft.addStruct ident members =
      if isTable members then
        { draft with
          tables := Entries.set ident ⟨ident, members.tail, "", none, none⟩ draft.tables }
      else
        { draft with header := { draft.header with
          structs := draft.header.structs ++ [plainStruct ident members] } } := by
  unfold Draft.addStruct isTable
  cases members with
  | nil => rfl
  | cons first rest => simp

/-! ## Collecting -/

/-- An item leaves the name of the header alone. -/
theorem file_add (draft : Draft) (item : Item) :
    (draft.add item).header.file = draft.header.file := by
  cases item with
  | struct ident members =>
    rw [Draft.add, addStruct_eq]
    split <;> rfl
  | _ => rfl

/-- A struct or interface comes behind the others. -/
theorem structs_add (draft : Draft) (item : Item) :
    (draft.add item).header.structs =
      draft.header.structs ++ (item.struct?.map fun p => plainStruct p.1 p.2).toList := by
  cases item with
  | struct ident members =>
    rw [Draft.add, addStruct_eq, Item.struct?]
    split
    · exact (List.append_nil _).symm
    · rfl
  | interface ident members => rfl
  | _ => exact (List.append_nil _).symm

/-- Entries that items set one after the other are those of the items in order, if no name occurs
twice. -/
theorem foldl_add_entries {α : Type} (entryOf : Item → Option (String × α))
    (entries : Draft → List (String × α))
    (hadd : ∀ draft item, entries (draft.add item) =
      (entryOf item).elim (entries draft) fun p => Entries.set p.1 p.2 (entries draft))
    (draft : Draft) (items : List Item)
    (hnodup : ((entries draft ++ items.filterMap entryOf).map Prod.fst).Nodup) :
    entries (items.foldl Draft.add draft) = entries draft ++ items.filterMap entryOf := by
  induction items generalizing draft with
  | nil => exact (List.append_nil _).symm
  | cons item items ih =>
    rw [List.foldl_cons]
    rw [List.filterMap_cons] at hnodup ⊢
    cases hentry : entryOf item with
    | none =>
      have hsame : entries (draft.add item) = entries draft := by rw [hadd, hentry, Option.elim]
      rw [hentry] at hnodup
      rw [ih _ (by rw [hsame]; exact hnodup), hsame]
    | some p =>
      obtain ⟨name, value⟩ := p
      rw [hentry, List.append_cons] at hnodup
      have hnew : name ∉ (entries draft).map Prod.fst := by
        rw [List.map_append, List.map_append, List.nodup_append, List.nodup_append] at hnodup
        exact fun hmem => hnodup.1.2.2 name hmem name List.mem_cons_self rfl
      have hset : entries (draft.add item) = entries draft ++ [(name, value)] := by
        rw [hadd, hentry, Option.elim, Entries.set_of_not_mem value hnew]
      rw [ih _ (by rw [hset]; exact hnodup), hset]
      exact (List.append_cons ..).symm

/-- What has been read once all items have been. -/
def draftOf (file : String) (items : List Item) : Draft :=
  items.foldl Draft.add ⟨.empty file, [], []⟩

/-- The name of the header does not change. -/
theorem file_draftOf (file : String) (items : List Item) : (draftOf file items).header.file = file := by
  have hfile (draft : Draft) : (items.foldl Draft.add draft).header.file = draft.header.file := by
    induction items generalizing draft with
    | nil => rfl
    | cons item items ih => exact (ih (draft.add item)).trans (file_add draft item)
  exact hfile _

/-- The structs are those of the items, in order. -/
theorem structs_draftOf (file : String) (items : List Item) :
    (draftOf file items).header.structs =
      (items.filterMap Item.struct?).map fun p => plainStruct p.1 p.2 := by
  have hstructs (draft : Draft) : (items.foldl Draft.add draft).header.structs =
      draft.header.structs ++ (items.filterMap Item.struct?).map fun p => plainStruct p.1 p.2 := by
    induction items generalizing draft with
    | nil => exact (List.append_nil _).symm
    | cons item items ih =>
      rw [List.foldl_cons, ih, structs_add, List.append_assoc, List.filterMap_cons]
      cases item.struct? <;> rfl
  exact hstructs _

/-- The identifiers are those of the items. -/
theorem guids_draftOf (file : String) {items : List Item}
    (h : ((items.filterMap Item.identifier?).map Prod.fst).Nodup) :
    (draftOf file items).guids = items.filterMap Item.identifier? := by
  refine foldl_add_entries Item.identifier? Draft.guids (fun draft item => ?_) _ items h
  cases item with
  | struct ident members =>
    rw [Draft.add, addStruct_eq]
    split <;> rfl
  | _ => rfl

/-- The tables are those of the items. -/
theorem tables_draftOf (file : String) {items : List Item}
    (h : ((items.filterMap Item.table?).map Prod.fst).Nodup) :
    (draftOf file items).tables = items.filterMap Item.table? := by
  refine foldl_add_entries Item.table? Draft.tables (fun draft item => ?_) _ items h
  cases item with
  | struct ident members =>
    rw [Draft.add, addStruct_eq, Item.table?]
    split <;> rfl
  | _ => rfl

/-- Where no identifier is given twice, the one of a name is given by some declaration. -/
theorem lookup_identifier {items : List Item}
    (h : ((items.filterMap Item.identifier?).map Prod.fst).Nodup) (name guid : String) :
    (items.filterMap Item.identifier?).lookup name = some guid ↔ Item.identifier name guid ∈ items := by
  rw [Entries.lookup_eq_some_iff h, List.mem_filterMap]
  simp only [Item.identifier?_eq_some, exists_eq_right]

/-- Where no table is declared twice, the one of a name is declared by some struct. -/
theorem lookup_table {items : List Item}
    (h : ((items.filterMap Item.table?).map Prod.fst).Nodup) (name : String) (table : Vtable) :
    (items.filterMap Item.table?).lookup name = some table ↔
      ∃ members, Item.struct name members ∈ items ∧ isTable members ∧
        table = ⟨name, members.tail, "", none, none⟩ := by
  rw [Entries.lookup_eq_some_iff h, List.mem_filterMap]
  simp only [Item.table?_eq_some]
  constructor
  · rintro ⟨_, hmem, members, rfl, hmarked, rfl⟩
    exact ⟨members, hmem, hmarked, rfl⟩
  · rintro ⟨members, hmem, hmarked, rfl⟩
    exact ⟨_, hmem, members, rfl, hmarked, rfl⟩

/-! ## Attaching -/

/-- What is attached are tables of the header under their names. -/
def Draft.IsAttached (draft : Draft) (attached : List (String × Vtable)) : Prop :=
  ∀ p ∈ attached, draft.tables.lookup p.1 = some p.2

/-- A table gets a place, and the places of the others stay. -/
theorem attach_spec {draft : Draft} {name : String} {table : Vtable}
    (htable : draft.tables.lookup name = some table) {attached : List (String × Vtable)}
    (h : draft.IsAttached attached) :
    draft.IsAttached (attach name table attached).2 ∧ attached <+: (attach name table attached).2 ∧
      (attach name table attached).2[(attach name table attached).1]? = some (name, table) := by
  unfold attach
  split
  · rename_i i hfound
    obtain ⟨hlt, hname, -⟩ := List.findIdx?_eq_some_iff_getElem.mp hfound
    have hname : attached[i].1 = name := of_decide_eq_true hname
    have hentry := h attached[i] (List.getElem_mem hlt)
    rw [hname, htable] at hentry
    refine ⟨h, List.prefix_rfl, ?_⟩
    rw [List.getElem?_eq_getElem hlt, ← hname, Option.some.inj hentry]
  · refine ⟨fun p hp => ?_, List.prefix_append _ _, ?_⟩
    · rcases List.mem_append.mp hp with hp | hp
      · exact h p hp
      · rw [List.mem_singleton.mp hp]
        exact htable
    · simp

/-- A list that grows at its end keeps what it has in a place. -/
theorem getElem?_grown {α : Type} {l l' : List α} (h : l <+: l') {i : Nat} {a : α}
    (hi : l[i]? = some a) : l'[i]? = some a := by
  obtain ⟨t, rfl⟩ := h
  obtain ⟨hlt, -⟩ := List.getElem?_eq_some_iff.mp hi
  rw [List.getElem?_append_left hlt, hi]

/-- The table at a place. -/
def tableAt (attached : List (String × Vtable)) (place : Option Nat) : Option Vtable :=
  (place.bind fun i => attached[i]?).map Prod.snd

/-- A struct gets what belongs to it. -/
theorem complete_spec (draft : Draft) {s : Struct} (hs : s.vtable = none)
    {attached : List (String × Vtable)} (h : draft.IsAttached attached) :
    draft.IsAttached (draft.complete s attached).2 ∧ attached <+: (draft.complete s attached).2 ∧
      ((draft.complete s attached).1.ident, (draft.complete s attached).1.fields) =
        (s.ident, s.fields) ∧
      (draft.complete s attached).1.guid = (draft.guids.lookup s.ident).getD "" ∧
      ∀ later, (draft.complete s attached).2 <+: later →
        tableAt later (draft.complete s attached).1.vtable =
          draft.tables.lookup (s.ident ++ tableSuffix) := by
  unfold Draft.complete
  dsimp only
  cases htable : draft.tables.lookup (s.ident ++ tableSuffix) with
  | none => exact ⟨h, List.prefix_rfl, rfl, rfl, fun later _ => by rw [hs]; rfl⟩
  | some table =>
    obtain ⟨hattached, hgrows, hplace⟩ := attach_spec htable h
    refine ⟨hattached, hgrows, rfl, rfl, fun later hlater => ?_⟩
    show (later[(attach _ table attached).1]?).map Prod.snd = some table
    rw [getElem?_grown hlater hplace]
    rfl

/-- The first struct is completed before the others. -/
theorem completeAll_cons (draft : Draft) (s : Struct) (rest : List Struct)
    (attached : List (String × Vtable)) :
    draft.completeAll (s :: rest) attached =
      ((draft.complete s attached).1 ::
          (draft.completeAll rest (draft.complete s attached).2).1,
        (draft.completeAll rest (draft.complete s attached).2).2) :=
  rfl

/-- All structs get what belongs to them, and nothing but tables of the header is attached. -/
theorem completeAll_spec (draft : Draft) {structs : List Struct} (hs : ∀ s ∈ structs, s.vtable = none)
    {attached : List (String × Vtable)} (h : draft.IsAttached attached) :
    draft.IsAttached (draft.completeAll structs attached).2 ∧
      attached <+: (draft.completeAll structs attached).2 ∧
      (draft.completeAll structs attached).1.map (fun S => (S.ident, S.fields)) =
        structs.map (fun s => (s.ident, s.fields)) ∧
      ∀ S ∈ (draft.completeAll structs attached).1,
        S.guid = (draft.guids.lookup S.ident).getD "" ∧
          tableAt (draft.completeAll structs attached).2 S.vtable =
            draft.tables.lookup (S.ident ++ tableSuffix) := by
  induction structs generalizing attached with
  | nil => exact ⟨h, List.prefix_rfl, rfl, fun S hS => absurd hS List.not_mem_nil⟩
  | cons s rest ih =>
    obtain ⟨hattached, hgrows, hsame, hguid, htable⟩ := complete_spec draft (hs s List.mem_cons_self) h
    obtain ⟨hattached', hgrows', hrest, hall⟩ := ih (fun t ht => hs t (List.mem_cons_of_mem s ht)) hattached
    rw [completeAll_cons]
    refine ⟨hattached', hgrows.trans hgrows', ?_, fun S hS => ?_⟩
    · rw [List.map_cons, hsame, hrest, List.map_cons]
    · rcases List.mem_cons.mp hS with hS | hS
      · have hident : S.ident = s.ident := hS ▸ congrArg Prod.fst hsame
        rw [hident, hS]
        exact ⟨hguid, htable _ hgrows'⟩
      · exact hall S hS

/-- **Attaching.**  The finished header has the structs that have been read, in order, each with the
identifier and the table of methods that belong to it by name. -/
theorem finish_spec (draft : Draft) (hs : ∀ s ∈ draft.header.structs, s.vtable = none) :
    draft.finish.structs.map (fun S => (S.ident, S.fields)) =
        draft.header.structs.map (fun s => (s.ident, s.fields)) ∧
      ∀ S ∈ draft.finish.structs, S.guid = (draft.guids.lookup S.ident).getD "" ∧
        draft.finish.vtable? S = draft.tables.lookup (S.ident ++ tableSuffix) := by
  have hnone : draft.IsAttached [] := fun p hp => absurd hp List.not_mem_nil
  obtain ⟨-, -, hsame, hall⟩ := completeAll_spec draft hs hnone
  refine ⟨hsame, fun S hS => ⟨(hall S hS).1, ?_⟩⟩
  rw [← (hall S hS).2, tableAt, Header.vtable?]
  cases S.vtable with
  | none => rfl
  | some i => exact List.getElem?_map ..

end SdkBindings.Grammar
