import SdkBindings.Transform.Pipeline

/-!
# Rewriting a header part by part

Most passes treat every function, struct, table of methods and enumeration by itself and cannot stop,
or can be told beforehand to go through.  Such a pass is a rewriting (`Rewrite`).  A change of the
lists of fields can be exchanged with a rewriting as soon as it can be exchanged with it on each
function, struct and table (`changeFields_apply`), and two rewritings can be exchanged when their
parts can (`Rewrite.apply_comm`).

A table of methods is dealt with once for every struct that refers to it.  Two steps on tables are
steps on different tables or on the same one, so they can be exchanged whichever structs share a
table.
-/

namespace SdkBindings.Transform

/-! ## Steps on tables -/

/-- Rewrites the table at each of the places, as often as it is named. -/
def modifyTables (g : Vtable → Vtable) (places : List (Option Nat)) (tables : List Vtable) :
    List Vtable :=
  places.foldl (fun tables place =>
    match place with
    | some i => tables.modify i g
    | none => tables) tables

/-- Rewriting tables with nothing to do leaves them as they are. -/
theorem modifyTables_id (places : List (Option Nat)) (tables : List Vtable) :
    modifyTables id places tables = tables := by
  induction places with
  | nil => rfl
  | cons place places ih =>
    cases place with
    | none => exact ih
    | some i =>
      change modifyTables id places (tables.modify i id) = tables
      rw [List.modify_id, ih]

/-- Exchangeable steps on one table each can be exchanged, whichever tables they are for. -/
theorem modify_modify_comm {g g' : Vtable → Vtable} (h : ∀ t, g (g' t) = g' (g t)) (i j : Nat)
    (tables : List Vtable) :
    (tables.modify j g').modify i g = (tables.modify i g).modify j g' := by
  by_cases hij : j = i
  · subst hij
    have hcomp : g ∘ g' = g' ∘ g := funext h
    rw [List.modify_modify_eq, List.modify_modify_eq, hcomp]
  · exact List.modify_modify_ne g' g tables hij

/-- A step that can be exchanged with one step on a table can be exchanged with many. -/
theorem modifyTables_comm {F : List Vtable → List Vtable} {g : Vtable → Vtable}
    (h : ∀ i tables, F (tables.modify i g) = (F tables).modify i g) (places : List (Option Nat))
    (tables : List Vtable) : F (modifyTables g places tables) = modifyTables g places (F tables) := by
  induction places generalizing tables with
  | nil => rfl
  | cons place places ih =>
    cases place with
    | none => exact ih tables
    | some i =>
      change F (modifyTables g places (tables.modify i g)) =
        modifyTables g places ((F tables).modify i g)
      rw [ih, h]

/-! ## Rewritings -/

/-- What is done to the parts of a header. -/
structure Rewrite where
  /-- What is done to a function. -/
  function : Function → Function
  /-- What is done to a struct. -/
  struct : Struct → Struct
  /-- What is done to a table of methods. -/
  table : Vtable → Vtable
  /-- What is done to the aliases. -/
  aliases : List Alias → List Alias
  /-- What is done to the enumerations of the header of this name. -/
  enums : String → List Enumeration → List Enumeration

/-- A header after a rewriting. -/
def Rewrite.apply (r : Rewrite) (h : Header) : Header :=
  { h with
    functions := h.functions.map r.function
    structs := h.structs.map r.struct
    vtables := modifyTables r.table (h.structs.map Struct.vtable) h.vtables
    aliases := r.aliases h.aliases
    enums := r.enums h.file h.enums }

/-- A rewriting does not move tables between structs. -/
def Rewrite.KeepsPlaces (r : Rewrite) : Prop :=
  ∀ s, (r.struct s).vtable = s.vtable

/-- Structs refer to the same tables after a rewriting. -/
theorem Rewrite.KeepsPlaces.map {r : Rewrite} (h : r.KeepsPlaces) (structs : List Struct) :
    (structs.map r.struct).map Struct.vtable = structs.map Struct.vtable := by
  rw [List.map_map]
  exact List.map_congr_left fun s _ => h s

/-- Two rewritings can be exchanged part by part. -/
structure Rewrite.Exchanges (r q : Rewrite) : Prop where
  /-- On functions. -/
  function : ∀ x, r.function (q.function x) = q.function (r.function x)
  /-- On structs. -/
  struct : ∀ x, r.struct (q.struct x) = q.struct (r.struct x)
  /-- On tables. -/
  table : ∀ x, r.table (q.table x) = q.table (r.table x)
  /-- On aliases. -/
  aliases : ∀ x, r.aliases (q.aliases x) = q.aliases (r.aliases x)
  /-- On enumerations. -/
  enums : ∀ file x, r.enums file (q.enums file x) = q.enums file (r.enums file x)

/-- Two rewritings that can be exchanged part by part can be exchanged. -/
theorem Rewrite.apply_comm {r q : Rewrite} (hr : r.KeepsPlaces) (hq : q.KeepsPlaces)
    (h : r.Exchanges q) (x : Header) : r.apply (q.apply x) = q.apply (r.apply x) := by
  have hmap {α : Type} {f g : α → α} (hfg : ∀ x, f (g x) = g (f x)) (xs : List α) :
      (xs.map g).map f = (xs.map f).map g := by
    rw [List.map_map, List.map_map]
    exact List.map_congr_left fun x _ => hfg x
  have htables : modifyTables r.table (x.structs.map Struct.vtable)
      (modifyTables q.table (x.structs.map Struct.vtable) x.vtables) =
        modifyTables q.table (x.structs.map Struct.vtable)
          (modifyTables r.table (x.structs.map Struct.vtable) x.vtables) := by
    refine modifyTables_comm (fun i tables => ?_) _ _
    exact (modifyTables_comm (fun j tables => modify_modify_comm (fun t => (h.table t).symm) i j tables)
      _ tables).symm
  simp only [Rewrite.apply, hq.map, hr.map, htables, hmap h.function, hmap h.struct, h.aliases, h.enums]

/-! ## Changes of fields and rewritings -/

section

variable {ε ν : Type} (f : Header.FieldChange ε ν)

/-- The change of the parameters of a function. -/
def changeFunction (x : Function) : Change ε ν Function :=
  (f x.ident x.parameters).map fun parameters => { x with parameters }

/-- The change of the members of a struct. -/
def changeMembers (x : Struct) : Change ε ν Struct :=
  (f x.ident x.fields).map fun fields => { x with fields }

/-- The change of the entries of a table of methods. -/
def changeTable (x : Vtable) : Change ε ν Vtable :=
  (f x.ident x.fields).map fun fields => { x with fields }

/-- The change of the table of methods at a place, if there is one. -/
def changeTableAt (place : Option Nat) (tables : List Vtable) : Change ε ν (List Vtable) :=
  match place with
  | none => .done tables
  | some i =>
    match tables[i]? with
    | none => .done tables
    | some t => (changeTable f t).map (tables.set i ·)

/-- A struct is changed in its members and then in its table of methods. -/
theorem changeStruct_eq (s : Struct) (tables : List Vtable) :
    Header.changeStruct f s tables =
      (changeMembers f s).andThen
        (fun s' => (changeTableAt f s.vtable tables).map fun tables => (s', tables))
        (fun s' => (s', tables)) := by
  refine Change.andThen_congr ?_ rfl
  unfold changeTableAt
  dsimp only [Change.map]
  cases s.vtable with
  | none => rfl
  | some i =>
    dsimp only [Option.bind_some]
    cases tables[i]? <;> rfl

/-- A change of fields can be exchanged with a rewriting on each function, struct and table. -/
structure Rewrite.Respects (r : Rewrite) : Prop where
  /-- On functions. -/
  function : ∀ x, changeFunction f (r.function x) = (changeFunction f x).map r.function
  /-- On structs. -/
  struct : ∀ x, changeMembers f (r.struct x) = (changeMembers f x).map r.struct
  /-- On tables. -/
  table : ∀ x, changeTable f (r.table x) = (changeTable f x).map r.table

variable {f}

/-- Putting a table at a place can be exchanged with a step on a table, which at the same place is
done to what is put there. -/
theorem set_modify (g : Vtable → Vtable) (i j : Nat) (x : Vtable) (tables : List Vtable) :
    (tables.set i x).modify j g = (tables.modify j g).set i (if j = i then g x else x) := by
  apply List.ext_getElem?
  intro k
  by_cases hik : i = k
  · subst hik
    simp only [List.getElem?_modify, List.getElem?_set, List.length_modify, Option.map_eq_map, if_true]
    by_cases hlt : i < tables.length
    · simp only [if_pos hlt, Option.map_some]
    · simp only [if_neg hlt, Option.map_none]
  · simp only [List.getElem?_modify, List.getElem?_set, if_neg hik]

/-- The change of a table can be exchanged with a step on a table. -/
theorem changeTableAt_modify {g : Vtable → Vtable}
    (h : ∀ t, changeTable f (g t) = (changeTable f t).map g) (place : Option Nat) (j : Nat)
    (tables : List Vtable) :
    changeTableAt f place (tables.modify j g) =
      (changeTableAt f place tables).map (List.modify · j g) := by
  cases place with
  | none => rfl
  | some i =>
    simp only [changeTableAt, List.getElem?_modify]
    cases htable : tables[i]? with
    | none => rfl
    | some t =>
      simp only [Option.map_eq_map, Option.map_some, Change.map_map, set_modify]
      split
      · rw [h, Change.map_map]
      · rfl

/-- The change of a table can be exchanged with steps on many tables. -/
theorem changeTableAt_modifyTables {g : Vtable → Vtable}
    (h : ∀ t, changeTable f (g t) = (changeTable f t).map g) (place : Option Nat)
    (places : List (Option Nat)) (tables : List Vtable) :
    changeTableAt f place (modifyTables g places tables) =
      (changeTableAt f place tables).map (modifyTables g places) := by
  induction places generalizing tables with
  | nil => rfl
  | cons next places ih =>
    cases next with
    | none => exact ih tables
    | some j =>
      change changeTableAt f place (modifyTables g places (tables.modify j g)) = _
      rw [ih, changeTableAt_modify h, Change.map_map]
      rfl

variable {r : Rewrite}

/-- A struct is changed after a rewriting as before it. -/
theorem changeStruct_rewrite (h : r.Respects f) (hplaces : r.KeepsPlaces) (places : List (Option Nat))
    (s : Struct) (tables : List Vtable) :
    Header.changeStruct f (r.struct s) (modifyTables r.table places tables) =
      (Header.changeStruct f s tables).map
        fun (s, tables) => (r.struct s, modifyTables r.table places tables) := by
  rw [changeStruct_eq, changeStruct_eq, h.struct, hplaces, changeTableAt_modifyTables h.table,
    Change.map_andThen, Change.andThen_map]
  rfl

/-- Structs are changed after a rewriting as before it. -/
theorem changeStructs_rewrite (h : r.Respects f) (hplaces : r.KeepsPlaces) (places : List (Option Nat))
    (structs : List Struct) (tables : List Vtable) :
    Header.changeStructs f (modifyTables r.table places tables) (structs.map r.struct) =
      (Header.changeStructs f tables structs).map
        fun (structs, tables) => (structs.map r.struct, modifyTables r.table places tables) := by
  induction structs generalizing tables with
  | nil => rfl
  | cons s structs ih =>
    rw [List.map_cons, Header.changeStructs, Header.changeStructs, changeStruct_rewrite h hplaces,
      Change.map_andThen, Change.andThen_map]
    refine Change.andThen_congr ?_ rfl
    dsimp only
    rw [ih, Change.map_map, Change.map_map]
    rfl

/-- What a change of fields leaves alone in a struct it leaves alone in a list of them. -/
theorem map_changeStructs {β : Type} {part : Struct → β}
    (hpart : ∀ s fields, part { s with fields } = part s) (structs : List Struct)
    (tables : List Vtable) :
    (Header.changeStructs f tables structs).value.1.map part = structs.map part := by
  have hstruct (s : Struct) (tables : List Vtable) :
      part (Header.changeStruct f s tables).value.1 = part s := by
    rw [changeStruct_eq]
    unfold Change.andThen
    split <;> exact hpart s _
  induction structs generalizing tables with
  | nil => rfl
  | cons s structs ih =>
    rw [Header.changeStructs]
    unfold Change.andThen
    split
    · exact congrArg (· :: structs.map part) (hstruct s tables)
    · simp only [Change.map, List.map_cons, hstruct, ih]

/-- A change of fields leaves alone what it leaves alone in a struct. -/
theorem map_changeFields {β : Type} {part : Struct → β}
    (hpart : ∀ s fields, part { s with fields } = part s) (x : Header) :
    (x.changeFields f).value.structs.map part = x.structs.map part := by
  unfold Header.changeFields Change.andThen
  split
  · rfl
  · exact map_changeStructs hpart x.structs x.vtables

/-- A change of fields leaves the enumerations alone. -/
theorem enums_changeFields (x : Header) :
    (x.changeFields f).value.file = x.file ∧ (x.changeFields f).value.enums = x.enums := by
  unfold Header.changeFields Change.andThen
  split <;> exact ⟨rfl, rfl⟩

/-- A change of fields can be exchanged with a rewriting that it can be exchanged with on each
function, struct and table. -/
theorem changeFields_apply (h : r.Respects f) (hplaces : r.KeepsPlaces) (x : Header) :
    (r.apply x).changeFields f = (x.changeFields f).map r.apply := by
  have hfunctions : Change.each (changeFunction f) (x.functions.map r.function) =
      (Change.each (changeFunction f) x.functions).map (List.map r.function) :=
    Change.each_map h.function x.functions
  have hstructs := changeStructs_rewrite h hplaces (x.structs.map Struct.vtable) x.structs x.vtables
  have hkept : (Header.changeStructs f x.vtables x.structs).value.1.map Struct.vtable =
      x.structs.map Struct.vtable := map_changeStructs (fun _ _ => rfl) x.structs x.vtables
  unfold Header.changeFields
  rw [Change.andThen_map]
  change (Change.each (changeFunction f) (x.functions.map r.function)).andThen _ _ =
    (Change.each (changeFunction f) x.functions).andThen _ _
  rw [hfunctions, Change.map_andThen]
  refine Change.andThen_congr ?_ rfl
  dsimp only [Rewrite.apply]
  rw [hstructs, Change.map_map, Change.map_map]
  refine Change.map_congr ?_
  dsimp only [Rewrite.apply]
  rw [hkept]

end

end SdkBindings.Transform
