import SdkBindings.Proofs.Module.Hygiene
import SdkBindings.Proofs.Transform.Passes
import SdkBindings.Proofs.Transform.Prefixes
import SdkBindings.Proofs.Transform.Settling

/-!
# Names after normalization

The names that a header carries are listed together with the number of times that normalization deals
with them (`Header.nameRounds`): once, or, for a table of methods and what is inside it, once for every
struct that refers to the table.  Normalization goes through this list (`names_normalizeHeader`) and does
nothing else to names.

In a header that has been read all names are identifiers, so what becomes of one is decided in the last
round: with the vendor's prefixes it is an identifier again, and can be written in the generated module,
unless it loses its start then (`normalize_identifiers`).
-/

namespace SdkBindings

open Transform

/-! ## The names of a header -/

mutual
/-- The names inside a type: those of a method and its parameters, or of the members of a union. -/
def CType.names (t : CType) : List String :=
  match t with
  | ⟨shape, _, _, _, members, name, parameters, _, _⟩ =>
    match shape with
    | .functionPointer => name :: Field.namesOf parameters
    | .union => Field.namesOf members
    | _ => []
termination_by structural t

/-- The name of a field, which a union does not have, and the names inside its type. -/
def Field.names (x : Field) : List String :=
  match x with
  | ⟨name, type, _, _, _, _, _⟩ =>
    if type.shape = .union then CType.names type else name :: CType.names type
termination_by structural x

/-- The names of a list of fields. -/
def Field.namesOf (xs : List Field) : List String :=
  match xs with
  | [] => []
  | x :: xs => Field.names x ++ Field.namesOf xs
termination_by structural xs
end

/-- The names of an enumeration and of its constants. -/
def Enumeration.names (e : Enumeration) : List String :=
  e.ident :: e.enumerators.map Enumerator.ident

/-- The names of a function and of its parameters. -/
def Function.names (f : Function) : List String :=
  f.ident :: Field.namesOf f.parameters

/-- The names of a struct and of its members. -/
def Struct.names (s : Struct) : List String :=
  s.ident :: Field.namesOf s.fields

/-- The names of a table of methods and of its entries. -/
def Vtable.names (t : Vtable) : List String :=
  t.ident :: Field.namesOf t.fields

namespace Header

/-- The number of structs that refer to the same table. -/
def sharers (h : Header) (s : Struct) : Nat :=
  (h.structs.map Struct.vtable).count s.vtable

/-- The names of the table of a struct. -/
def tableNames (h : Header) (s : Struct) : List String :=
  ((h.vtable? s).map Vtable.names).getD []

/-- The names of a header, macros apart, and how often normalization deals with each. -/
def nameRounds (h : Header) : List (String × Nat) :=
  let once (names : List String) : List (String × Nat) := names.map fun name => (name, 1)
  once (h.enums.flatMap Enumeration.names) ++ once (h.functions.flatMap Function.names) ++
    (h.structs.flatMap fun s =>
      once s.names ++ (h.tableNames s).map fun name => (name, h.sharers s)) ++
    once (h.aliases.map Alias.ident)

/-- The names of a header, macros apart. -/
def names (h : Header) : List String :=
  h.nameRounds.map Prod.fst

end Header

/-! ## Normalization of names -/

mutual

/-- The names inside a type are normalized. -/
theorem CType.names_normalizeType (f : String → String) (t : CType) :
    (normalizeType f t).names = t.names.map f := by
  match t with
  | ⟨shape, ident, expr, dimensions, members, name, parameters, depth, inner⟩ =>
    cases shape with
    | functionPointer =>
      simp only [normalizeType, CType.names, Field.namesOf_normalizeFields f parameters, List.map_cons]
    | union => simp only [normalizeType, CType.names, Field.namesOf_normalizeFields f members]
    | _ => simp only [normalizeType, CType.names, List.map_nil]
termination_by structural t

/-- The names of a field are normalized. -/
theorem Field.names_normalizeField (f : String → String) (x : Field) :
    (normalizeField f x).names = x.names.map f := by
  match x with
  | ⟨name, type, isOut, hasCount, isArray, isLength, isErased⟩ =>
    have hshape : (normalizeType f type).shape = type.shape := by
      obtain ⟨shape, _⟩ := type
      cases shape <;> rfl
    rw [normalizeField, Field.names, Field.names, hshape, CType.names_normalizeType f type]
    split <;> rfl
termination_by structural x

/-- The names of fields are normalized. -/
theorem Field.namesOf_normalizeFields (f : String → String) (xs : List Field) :
    Field.namesOf (normalizeFields f xs) = (Field.namesOf xs).map f := by
  match xs with
  | [] => rfl
  | x :: xs =>
    rw [normalizeFields, Field.namesOf, Field.namesOf, Field.names_normalizeField f x,
      Field.namesOf_normalizeFields f xs, List.map_append]
termination_by structural xs

end

/-- The names of a table are normalized in each round. -/
theorem Vtable.names_iterate (f : String → String) (k : Nat) (t : Vtable) :
    ((normalizeTable f)^[k] t).names = t.names.map f^[k] := by
  induction k generalizing t with
  | zero => exact (List.map_id _).symm
  | succ k ih =>
    have hnames : (normalizeTable f t).names = t.names.map f := by
      rw [normalizeTable, Vtable.names, Vtable.names, Field.namesOf_normalizeFields, List.map_cons]
    rw [Function.iterate_succ_apply, ih, hnames, List.map_map, Function.iterate_succ]

namespace Transform

/-- A table is rewritten as often as its place is named. -/
theorem getElem?_modifyTables (g : Vtable → Vtable) (places : List (Option Nat)) (tables : List Vtable)
    (i : Nat) : (modifyTables g places tables)[i]? = tables[i]?.map g^[places.count (some i)] := by
  induction places generalizing tables with
  | nil => exact (congrFun Option.map_id _).symm
  | cons place places ih =>
    cases place with
    | none =>
      have hother : (none : Option Nat) ≠ some i := nofun
      rw [List.count_cons_of_ne hother]
      exact ih tables
    | some j =>
      rw [show modifyTables g (some j :: places) tables = modifyTables g places (tables.modify j g)
        from rfl, ih, List.getElem?_modify]
      by_cases hji : j = i
      · rw [hji, List.count_cons_self, Function.iterate_succ, ← Option.map_map]
        simp
      · rw [List.count_cons_of_ne (by simpa using hji)]
        simp [hji]

/-- The names of the table of a struct after normalization. -/
theorem tableNames_normalizing (f : String → String) (h : Header) (s : Struct) :
    ((normalizing f).apply h).tableNames ((normalizing f).struct s) =
      (h.tableNames s).map f^[h.sharers s] := by
  simp only [Header.tableNames, Header.sharers, Header.vtable?, Rewrite.apply,
    normalizing_keepsPlaces f s]
  cases s.vtable with
  | none => rfl
  | some i =>
    rw [Option.bind_some, Option.bind_some, getElem?_modifyTables]
    cases h.vtables[i]? with
    | none => rfl
    | some t => exact Vtable.names_iterate f _ t

/-- **Normalization goes through the names of a header.** -/
theorem names_normalizeHeader (prefixes : List String) (h : Header) :
    (normalizeHeader prefixes h).names =
      h.nameRounds.map fun entry => (normalize prefixes)^[entry.2] entry.1 := by
  rw [normalizeHeader_eq]
  set f := normalize prefixes
  have hpart {α : Type} {g : α → List String} {r : α → α} (hr : ∀ x, g (r x) = (g x).map f)
      (xs : List α) : (xs.map r).flatMap g = xs.flatMap fun x => (g x).map f := by
    rw [List.flatMap_map]
    exact List.flatMap_congr fun x _ => hr x
  have henums : ((normalizing f).apply h).enums.flatMap Enumeration.names =
      h.enums.flatMap fun e => e.names.map f :=
    hpart (fun e => by simp [normalizeEnum, Enumeration.names, Function.comp_def]) h.enums
  have hfunctions : ((normalizing f).apply h).functions.flatMap Function.names =
      h.functions.flatMap fun x => x.names.map f :=
    hpart (fun x => by simp [normalizing, Function.names, Field.namesOf_normalizeFields]) h.functions
  have hstruct (s : Struct) : ((normalizing f).struct s).names = s.names.map f := by
    simp [normalizing, Struct.names, Field.namesOf_normalizeFields]
  have hstructs : (((normalizing f).apply h).structs.flatMap fun s =>
      s.names ++ ((normalizing f).apply h).tableNames s) =
        h.structs.flatMap fun s => s.names.map f ++ (h.tableNames s).map f^[h.sharers s] := by
    rw [Rewrite.apply, List.flatMap_map]
    refine List.flatMap_congr fun s _ => ?_
    rw [hstruct, ← tableNames_normalizing]
    rfl
  have haliases : ((normalizing f).apply h).aliases.map Alias.ident =
      h.aliases.map fun a => f a.ident := by
    simp [Rewrite.apply, normalizing, Function.comp_def]
  simp only [Header.names, Header.nameRounds, List.map_append, List.map_map, List.map_flatMap,
    Function.comp_def, Function.iterate_one, List.map_id']
  rw [henums, hfunctions, hstructs, haliases]

end Transform

/-! ## Names of a header that has been read -/

section

variable {p : String → Prop}

mutual

/-- What is said of all names is said of those inside a type. -/
theorem CType.forall_names {t : CType} (h : t.All (CType.HasName p) (Field.HasName p)) :
    ∀ name ∈ t.names, p name := by
  match t with
  | ⟨shape, ident, expr, dimensions, members, name, parameters, depth, inner⟩ =>
    obtain ⟨hself, hmembers, hparameters, -⟩ := CType.all_iff.mp h
    cases shape with
    | functionPointer =>
      rw [CType.names, List.forall_mem_cons]
      exact ⟨hself rfl, Field.forall_namesOf hparameters⟩
    | union => exact Field.forall_namesOf hmembers
    | _ => exact nofun
termination_by structural t

/-- What is said of all names is said of those of a field. -/
theorem Field.forall_names {x : Field} (h : x.All (CType.HasName p) (Field.HasName p)) :
    ∀ name ∈ x.names, p name := by
  match x with
  | ⟨name, type, isOut, hasCount, isArray, isLength, isErased⟩ =>
    obtain ⟨hself, htype⟩ := Field.all_iff.mp h
    rw [Field.names]
    split
    · exact CType.forall_names htype
    · rename_i hshape
      exact List.forall_mem_cons.mpr ⟨hself.other hshape, CType.forall_names htype⟩
termination_by structural x

/-- What is said of all names is said of those of fields. -/
theorem Field.forall_namesOf {xs : List Field} (h : Field.HaveNames p xs) :
    ∀ name ∈ Field.namesOf xs, p name := by
  match xs with
  | [] => exact nofun
  | x :: xs =>
    obtain ⟨hx, hxs⟩ := Field.allOf_cons.mp h
    exact List.forall_mem_append.mpr ⟨Field.forall_names hx, Field.forall_namesOf hxs⟩
termination_by structural xs

end

/-- Every name is dealt with, and what is said of all names is said of it. -/
theorem Header.HasNames.of_mem_nameRounds {h : Header} (hnames : h.HasNames p)
    (haliases : ∀ a ∈ h.aliases, p a.ident) {name : String} {rounds : Nat}
    (hmem : (name, rounds) ∈ h.nameRounds) : p name ∧ 0 < rounds := by
  have honce {names : List String} (hp : ∀ name ∈ names, p name)
      (h : (name, rounds) ∈ names.map fun name => (name, 1)) : p name ∧ 0 < rounds := by
    obtain ⟨other, hother, heq⟩ := List.mem_map.mp h
    cases heq
    exact ⟨hp name hother, Nat.one_pos⟩
  simp only [Header.nameRounds, List.mem_append, or_assoc] at hmem
  rcases hmem with henum | hfunction | hstruct | halias
  · refine honce (fun name hname => ?_) henum
    obtain ⟨e, he, hname⟩ := List.mem_flatMap.mp hname
    have hhere := hnames.enums e he
    refine List.forall_mem_cons.mpr ⟨hhere.ident, ?_⟩ name hname
    exact List.forall_mem_map.mpr hhere.enumerators
  · refine honce (fun name hname => ?_) hfunction
    obtain ⟨f, hf, hname⟩ := List.mem_flatMap.mp hname
    obtain ⟨hident, hparameters⟩ := hnames.functions f hf
    exact List.forall_mem_cons.mpr ⟨hident, Field.forall_namesOf hparameters⟩ name hname
  · obtain ⟨s, hs, hmem⟩ := List.mem_flatMap.mp hstruct
    rcases List.mem_append.mp hmem with hself | htable
    · obtain ⟨hident, hfields⟩ := hnames.structs s hs
      exact honce (List.forall_mem_cons.mpr ⟨hident, Field.forall_namesOf hfields⟩) hself
    · obtain ⟨_, hname, heq⟩ := List.mem_map.mp htable
      cases heq
      refine ⟨?_, List.count_pos_iff.mpr (List.mem_map_of_mem hs)⟩
      rw [Header.tableNames] at hname
      cases htable? : h.vtable? s with
      | none =>
        rw [htable?] at hname
        cases hname
      | some t =>
        rw [htable?] at hname
        obtain ⟨i, -, ht⟩ := Option.bind_eq_some_iff.mp htable?
        obtain ⟨hident, hfields⟩ := hnames.tables t (List.mem_of_getElem? ht)
        exact List.forall_mem_cons.mpr ⟨hident, Field.forall_namesOf hfields⟩ name hname
  · exact honce (List.forall_mem_map.mpr haliases) halias

end

namespace Module

/-- A name can be written in the generated module, with an underscore if it is a keyword there. -/
def IsWritable (name : String) : Prop :=
  IsName (safeName name) ∧ safeName name ∉ keywords

/-- Names can be written, and nothing else can. -/
theorem isWritable_iff {name : String} : IsWritable name ↔ IsName name := by
  unfold IsWritable
  by_cases hkeyword : name ∈ keywords
  · have hall : ∀ name ∈ keywords, IsName name ∧ IsName (safeName name) ∧ safeName name ∉ keywords := by
      decide +kernel
    obtain ⟨hname, hsafe⟩ := hall name hkeyword
    exact iff_of_true hsafe hname
  · have hself : safeName name = name := if_neg (by simpa using hkeyword)
    rw [hself, and_iff_left hkeyword]

end Module

namespace Transform

open Grammar

/-- Several rounds leave characters of a name. -/
theorem isWordy_iterate (prefixes : List String) (rounds : Nat) {name : String} (h : IsWordy name) :
    IsWordy ((normalize prefixes)^[rounds] name) := by
  induction rounds generalizing name with
  | zero => exact h
  | succ rounds ih => exact ih (isWordy_normalize prefixes h)

/-- **Normalization and identifiers.**  With the vendor's prefixes an identifier stays one unless nothing
or a digit follows a part of it that vanishes.  So every name that a header carries after normalization
can be written in the generated module unless it lost its start in the last round. -/
theorem normalize_identifiers :
    (∀ name, IsName name → (IsName (normalize Settings.default.stripPrefixes name) ↔
      ¬ LosesStart Settings.default.stripPrefixes name)) ∧
    ∀ strict file source session h, (readHeader strict file source session).1 = .ok h →
      (∀ a ∈ h.aliases, IsName a.ident) →
      (normalizeHeader Settings.default.stripPrefixes h).names = h.nameRounds.map
        (fun entry => (normalize Settings.default.stripPrefixes)^[entry.2] entry.1) ∧
      ∀ name rounds, (name, rounds) ∈ h.nameRounds → 0 < rounds ∧
        (Module.IsWritable ((normalize Settings.default.stripPrefixes)^[rounds] name) ↔
          ¬ LosesStart Settings.default.stripPrefixes
            ((normalize Settings.default.stripPrefixes)^[rounds - 1] name)) := by
  refine ⟨fun name hname => isName_normalize_iff areVendorParts_default (isName_iff.mp hname).1, ?_⟩
  intro strict file source session h hread haliases
  refine ⟨names_normalizeHeader _ h, fun name rounds hmem => ?_⟩
  obtain ⟨hname, hrounds⟩ := (hasNames_of_readHeader hread).2.of_mem_nameRounds haliases hmem
  refine ⟨hrounds, ?_⟩
  obtain ⟨before, rfl⟩ := Nat.exists_eq_add_one_of_ne_zero hrounds.ne'
  have hwordy := isWordy_iterate Settings.default.stripPrefixes before (isName_iff.mp hname).1
  rw [Module.isWritable_iff, Function.iterate_succ_apply', Nat.add_sub_cancel]
  exact isName_normalize_iff areVendorParts_default hwordy

/-- An enumeration and a struct of the vendor. -/
def vendorSource : String :=
  "typedef enum D3D11_KIND { D3D11_KIND_NONE = 0 } D3D11_KIND;\n" ++
    "typedef struct D3D11_BOX { UINT left; } D3D11_BOX;\n"

/-- They keep names that can be written. -/
theorem normalize_identifiers_vendor :
    (IsName (normalize Settings.default.stripPrefixes "ID3D11Device") ↔
      ¬ LosesStart Settings.default.stripPrefixes "ID3D11Device") ∧
    ∃ h, (readHeader false "a.h" vendorSource .start).1 = .ok h ∧
      h.nameRounds = [("D3D11_KIND", 1), ("D3D11_KIND_NONE", 1), ("D3D11_BOX", 1), ("left", 1)] ∧
      (normalizeHeader Settings.default.stripPrefixes h).names = h.nameRounds.map
        (fun entry => (normalize Settings.default.stripPrefixes)^[entry.2] entry.1) ∧
      ∀ name rounds, (name, rounds) ∈ h.nameRounds → 0 < rounds ∧
        (Module.IsWritable ((normalize Settings.default.stripPrefixes)^[rounds] name) ↔
          ¬ LosesStart Settings.default.stripPrefixes
            ((normalize Settings.default.stripPrefixes)^[rounds - 1] name)) := by
  refine ⟨normalize_identifiers.1 _ (by decide), ?_⟩
  have hread : (readHeader false "a.h" vendorSource .start).1.toOption.any (fun h =>
      decide (h.nameRounds =
        [("D3D11_KIND", 1), ("D3D11_KIND_NONE", 1), ("D3D11_BOX", 1), ("left", 1)] ∧ h.aliases = [])) =
      true := by
    -- evaluated from the characters of the text, so that the kernel builds no bytes
    have hsource : vendorSource.toList = _ :=
      Lexer.toList_append_eq String.toList_ofList String.toList_ofList
    rw [readHeader, header, Lexer.lex, hsource]
    decide +kernel
  obtain ⟨h, hsome, hdecided⟩ := (Option.any_eq_true ..).mp hread
  have hok := eq_ok_of_toOption hsome
  obtain ⟨hrounds, haliases⟩ := of_decide_eq_true hdecided
  exact ⟨h, hok, hrounds, normalize_identifiers.2 _ _ _ _ h hok
    (by rw [haliases]; exact List.forall_mem_nil _)⟩

/-- Behind a prefix that is removed a digit may stand. -/
theorem normalize_losesStart :
    IsName "D3D11_2D" ∧ "D3D11_2D" ∉ Settings.default.stripPrefixes ∧
      ¬ IsName (normalize Settings.default.stripPrefixes "D3D11_2D") := by
  decide +kernel

end Transform

end SdkBindings
