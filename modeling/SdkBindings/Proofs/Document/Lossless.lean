import SdkBindings.Declaration.Document
import SdkBindings.Proofs.Document.RoundTrip

/-!
# The dump of a header loses nothing

The document of a header is read back from its dump, whatever the indentation (`dump_lossless`).  The
document determines the declarations: every part of every record is a member of its object, shapes
have different names, and what is absent is `null`, which no object is.  So headers with the same dump
declare the same things.

A struct refers to its table of methods by the place of the table, and the document shows the table.
Headers are therefore compared by what they declare once each struct stands beside its table
(`Header.Declared`).
-/

namespace SdkBindings

open Json (ofOption)

/-! ## Parts of a document -/

/-- A shape is known by its name. -/
theorem Shape.name_injective : Function.Injective Shape.name := by
  intro s t h
  cases s <;> cases t <;> first | rfl | exact absurd h (by decide)

/-- What may be absent is known by its value. -/
theorem ofOption_injective {α : Type} {f : α → Json} (hf : Function.Injective f)
    (hnull : ∀ a, f a ≠ .null) : Function.Injective (ofOption f) := by
  intro a b h
  cases a with
  | none =>
    cases b with
    | none => rfl
    | some b => exact absurd h.symm (hnull b)
  | some a =>
    cases b with
    | none => exact absurd h (hnull a)
    | some b => exact congrArg some (hf h)

/-- Records of a list are written one by one. -/
theorem array_injective {α : Type} {f : α → Json} (hf : Function.Injective f) :
    Function.Injective fun xs : List α => Json.array (xs.map f) :=
  fun _ _ h => List.map_injective_iff.mpr hf (Json.array.inj h)

/-! ## Types and fields -/

/-- A type is not absent. -/
theorem CType.toJson_ne_null (t : CType) : t.toJson ≠ .null := by
  cases t
  rw [CType.toJson]
  exact Json.noConfusion

mutual
/-- A type is known by its document. -/
theorem CType.toJson_injective (t t' : CType) (h : t.toJson = t'.toJson) : t = t' := by
  match t, t' with
  | ⟨shape, ident, expr, dimensions, members, name, parameters, depth, inner⟩,
    ⟨shape', ident', expr', dimensions', members', name', parameters', depth', inner'⟩ =>
    simp only [CType.toJson, Json.object.injEq, List.cons.injEq, Prod.mk.injEq, true_and, and_true,
      Json.string.injEq, Json.int.injEq, Json.array.injEq] at h
    obtain ⟨hshape, rfl, rfl, hdimensions, hmembers, rfl, hparameters, rfl, hinner⟩ := h
    have hdimensions := List.map_injective_iff.mpr (fun _ _ => Json.int.inj) hdimensions
    have hmembers := Field.listToJson_injective members members' hmembers
    have hparameters := Field.listToJson_injective parameters parameters' hparameters
    have hinner := CType.optionToJson_injective inner inner' hinner
    rw [Shape.name_injective hshape, hdimensions, hmembers, hparameters, hinner]

/-- So is the inner type of a pointer. -/
theorem CType.optionToJson_injective (t t' : Option CType)
    (h : CType.optionToJson t = CType.optionToJson t') : t = t' := by
  match t, t' with
  | none, none => rfl
  | none, some t' => exact absurd h.symm t'.toJson_ne_null
  | some t, none => exact absurd h t.toJson_ne_null
  | some t, some t' => exact congrArg some (CType.toJson_injective t t' h)

/-- So is a field. -/
theorem Field.toJson_injective (f f' : Field) (h : f.toJson = f'.toJson) : f = f' := by
  match f, f' with
  | ⟨name, type, isOut, hasCount, isArray, isLength, isErased⟩,
    ⟨name', type', isOut', hasCount', isArray', isLength', isErased'⟩ =>
    simp only [Field.toJson, Json.object.injEq, List.cons.injEq, Prod.mk.injEq, true_and, and_true,
      Json.string.injEq, Json.bool.injEq] at h
    obtain ⟨rfl, htype, rfl, rfl, rfl, rfl, rfl⟩ := h
    rw [CType.toJson_injective type type' htype]

/-- So are the fields of a list. -/
theorem Field.listToJson_injective (fields fields' : List Field)
    (h : Field.listToJson fields = Field.listToJson fields') : fields = fields' := by
  match fields, fields' with
  | [], [] => rfl
  | [], f' :: fields' => cases h
  | f :: fields, [] => cases h
  | f :: fields, f' :: fields' =>
    obtain ⟨hf, hfields⟩ := List.cons.inj h
    rw [Field.toJson_injective f f' hf, Field.listToJson_injective fields fields' hfields]
end

/-! ## Declarations -/

/-- The value of a constant is known by its document. -/
theorem Value.toJson_injective : Function.Injective Value.toJson := by
  intro ⟨raw, number, text⟩ ⟨raw', number', text'⟩ h
  simp only [Value.toJson, Json.object.injEq, List.cons.injEq, Prod.mk.injEq, true_and, and_true,
    Json.string.injEq] at h
  obtain ⟨rfl, hnumber, htext⟩ := h
  have hnumber := ofOption_injective (fun _ _ => Json.int.inj) (fun _ => Json.noConfusion) hnumber
  have htext := ofOption_injective (fun _ _ => Json.string.inj) (fun _ => Json.noConfusion) htext
  rw [hnumber, htext]

/-- So is a name with such a value. -/
theorem named_injective {ident ident' : String} {value value' : Value}
    (h : Json.object [("ident", .string ident), ("value", value.toJson)] =
      .object [("ident", .string ident'), ("value", value'.toJson)]) : ident = ident' ∧ value = value' := by
  simp only [Json.object.injEq, List.cons.injEq, Prod.mk.injEq, true_and, and_true,
    Json.string.injEq] at h
  exact ⟨h.1, Value.toJson_injective h.2⟩

/-- So are the parts of an identifier. -/
theorem GuidParts.toJson_injective : Function.Injective GuidParts.toJson := by
  intro ⟨a, b, c, bytes⟩ ⟨a', b', c', bytes'⟩ h
  simp only [GuidParts.toJson, Json.object.injEq, List.cons.injEq, Prod.mk.injEq, true_and, and_true,
    Json.int.injEq, Json.array.injEq] at h
  obtain ⟨rfl, rfl, rfl, hbytes⟩ := h
  rw [List.map_injective_iff.mpr (fun _ _ => Json.int.inj) hbytes]

/-- The members of structs and tables of methods are known one by one. -/
theorem structMembers_injective {ident ident' guid guid' : String} {fields fields' : List Field}
    {table table' : Json} {parts parts' : Option GuidParts}
    (h : structMembers ident fields guid table parts = structMembers ident' fields' guid' table' parts') :
    ident = ident' ∧ fields = fields' ∧ guid = guid' ∧ table = table' ∧ parts = parts' := by
  simp only [structMembers, Json.object.injEq, List.cons.injEq, Prod.mk.injEq, true_and, and_true,
    Json.string.injEq, Json.array.injEq] at h
  obtain ⟨hident, hfields, hguid, htable, hparts⟩ := h
  exact ⟨hident, Field.listToJson_injective _ _ hfields, hguid, htable,
    ofOption_injective GuidParts.toJson_injective (fun _ => Json.noConfusion) hparts⟩

/-- A table of methods is not absent. -/
theorem Vtable.toJson_ne_null (v : Vtable) : v.toJson ≠ .null := by
  cases v
  rw [Vtable.toJson]
  exact Json.noConfusion

mutual
/-- A table of methods is known by its document. -/
theorem Vtable.toJson_injective (v v' : Vtable) (h : v.toJson = v'.toJson) : v = v' := by
  match v, v' with
  | ⟨ident, fields, guid, vtable, parts⟩, ⟨ident', fields', guid', vtable', parts'⟩ =>
    rw [Vtable.toJson, Vtable.toJson] at h
    obtain ⟨rfl, rfl, rfl, htable, rfl⟩ := structMembers_injective h
    rw [Vtable.optionToJson_injective vtable vtable' htable]

/-- So is one that may be absent. -/
theorem Vtable.optionToJson_injective (v v' : Option Vtable)
    (h : Vtable.optionToJson v = Vtable.optionToJson v') : v = v' := by
  match v, v' with
  | none, none => rfl
  | none, some v' => exact absurd h.symm v'.toJson_ne_null
  | some v, none => exact absurd h v.toJson_ne_null
  | some v, some v' => exact congrArg some (Vtable.toJson_injective v v' h)
end

namespace Header

/-- What a header declares, with each struct beside its table of methods. -/
structure Declared where
  /-- The name of the header. -/
  file : String
  /-- The macros with a value. -/
  macros : List Macro
  /-- The type aliases. -/
  aliases : List Alias
  /-- The enumerations. -/
  enums : List Enumeration
  /-- The structs and interfaces, in the form of a table of methods: each has its own table in it. -/
  structs : List Vtable
  /-- The exported functions. -/
  functions : List Function

/-- What a header declares. -/
def declared (h : Header) : Declared where
  file := h.file
  macros := h.macros
  aliases := h.aliases
  enums := h.enums
  structs := h.structs.map fun s => ⟨s.ident, s.fields, s.guid, h.vtable? s, s.guidParts⟩
  functions := h.functions

/-- A struct is shown with its table of methods. -/
theorem map_structToJson (h : Header) :
    h.structs.map h.structToJson = h.declared.structs.map Vtable.toJson := by
  rw [declared, List.map_map]
  refine List.map_congr_left fun s _ => ?_
  rw [Function.comp_apply, Vtable.toJson, structToJson]

/-- Headers with the same document declare the same, and conversely. -/
theorem toJson_eq_iff (h h' : Header) : h.toJson = h'.toJson ↔ h.declared = h'.declared := by
  have hmacro : Function.Injective fun m : Macro =>
      Json.object [("ident", .string m.ident), ("value", m.value.toJson)] := by
    intro ⟨ident, value⟩ ⟨ident', value'⟩ h
    obtain ⟨rfl, rfl⟩ := named_injective h
    rfl
  have halias : Function.Injective fun a : Alias =>
      Json.object [("ident", .string a.ident), ("alias", .string a.target)] := by
    intro ⟨ident, target⟩ ⟨ident', target'⟩ h
    simp only [Json.object.injEq, List.cons.injEq, Prod.mk.injEq, true_and, and_true,
      Json.string.injEq] at h
    rw [h.1, h.2]
  have henumerator : Function.Injective fun c : Enumerator =>
      Json.object [("ident", .string c.ident), ("value", c.value.toJson)] := by
    intro ⟨ident, value⟩ ⟨ident', value'⟩ h
    obtain ⟨rfl, rfl⟩ := named_injective h
    rfl
  have henum : Function.Injective fun e : Enumeration =>
      Json.object [("ident", .string e.ident), ("fields", .array (e.enumerators.map fun c =>
        .object [("ident", .string c.ident), ("value", c.value.toJson)]))] := by
    intro ⟨ident, enumerators⟩ ⟨ident', enumerators'⟩ h
    simp only [Json.object.injEq, List.cons.injEq, Prod.mk.injEq, true_and, and_true,
      Json.string.injEq] at h
    rw [h.1, array_injective henumerator h.2]
  have hfunction : Function.Injective fun f : SdkBindings.Function =>
      Json.object [("ident", .string f.ident), ("dll_call", .string f.exportName),
        ("parameters", .array (Field.listToJson f.parameters))] := by
    intro ⟨ident, exportName, parameters⟩ ⟨ident', exportName', parameters'⟩ h
    simp only [Json.object.injEq, List.cons.injEq, Prod.mk.injEq, true_and, and_true,
      Json.string.injEq, Json.array.injEq] at h
    rw [h.1, h.2.1, Field.listToJson_injective _ _ h.2.2]
  have htable : Function.Injective Vtable.toJson := Vtable.toJson_injective
  rw [toJson, toJson, map_structToJson, map_structToJson]
  constructor
  · intro heq
    simp only [Json.object.injEq, List.cons.injEq, Prod.mk.injEq, true_and, and_true,
      Json.string.injEq] at heq
    obtain ⟨hfile, hmacros, haliases, henums, hstructs, hfunctions⟩ := heq
    exact Declared.mk.injEq .. |>.mpr ⟨hfile, array_injective hmacro hmacros,
      array_injective halias haliases, array_injective henum henums, array_injective htable hstructs,
      array_injective hfunction hfunctions⟩
  · intro heq
    obtain ⟨hfile, hmacros, haliases, henums, hstructs, hfunctions⟩ :=
      (Declared.mk.injEq ..).mp heq
    rw [hfile, hmacros, haliases, henums, hfunctions, heq]

/-- **The dump of a header loses nothing.**  Whatever the indentation, a reader of JSON gets back the
document of the header from its dump: every part of every record with its value, lists in order and
`null` for what is absent.  Two headers can have the same dump only if they declare the same. -/
theorem dump_lossless (h h' : Header) :
    (∀ indent : Int, Json.read? (h.dump indent) = some h.toJson) ∧
      ((∃ indent indent' : Int, h.dump indent = h'.dump indent') ↔ h.declared = h'.declared) := by
  have hread (h : Header) (indent : Int) : Json.read? (h.dump indent) = some h.toJson :=
    Json.read?_render indent h.toJson
  refine ⟨hread h, ?_, ?_⟩
  · rintro ⟨indent, indent', heq⟩
    have hdocument := hread h indent
    rw [heq, hread h' indent'] at hdocument
    exact (toJson_eq_iff h h').mp (Option.some.inj hdocument).symm
  · intro heq
    exact ⟨0, 0, by rw [dump, dump, (toJson_eq_iff h h').mpr heq]⟩

end Header

end SdkBindings
