import SdkBindings.Declaration.Header
import SdkBindings.Json.Printer

/-!
# Declarations as a document

The dump of a header is a JSON object that names every part of every declaration.  A table of methods
appears inside each struct it belongs to.
-/

namespace SdkBindings

open Json (ofOption)

/-- The value of a constant. -/
def Value.toJson (v : Value) : Json :=
  .object [("raw", .string v.raw), ("uint32", ofOption .int v.uint32),
    ("string", ofOption .string v.string)]

mutual
/-- A type with all its parts. -/
def CType.toJson (t : CType) : Json :=
  match t with
  | ⟨shape, ident, expr, dimensions, members, name, parameters, depth, inner⟩ =>
    .object [("kind", .string shape.name), ("ident", .string ident), ("py_type", .string expr),
      ("dimensions", .array (dimensions.map .int)), ("fields", .array (Field.listToJson members)),
      ("name", .string name), ("parameters", .array (Field.listToJson parameters)),
      ("depth", .int depth), ("inner", CType.optionToJson inner)]
termination_by structural t

/-- The inner type of a pointer, if it has one. -/
def CType.optionToJson (t : Option CType) : Json :=
  match t with
  | none => .null
  | some t => t.toJson
termination_by structural t

/-- A field with its type and its marks. -/
def Field.toJson (f : Field) : Json :=
  match f with
  | ⟨name, type, isOut, hasCount, isArray, isLength, isErased⟩ =>
    .object [("name", .string name), ("type_info", type.toJson), ("is_out", .bool isOut),
      ("has_ecount", .bool hasCount), ("is_array", .bool isArray), ("is_array_len", .bool isLength),
      ("is_deref", .bool isErased)]
termination_by structural f

/-- The fields of a list. -/
def Field.listToJson (fields : List Field) : List Json :=
  match fields with
  | [] => []
  | f :: fs => f.toJson :: Field.listToJson fs
termination_by structural fields
end

/-- The parts of an interface identifier. -/
def GuidParts.toJson (parts : GuidParts) : Json :=
  .object [("data1", .int parts.data1), ("data2", .int parts.data2), ("data3", .int parts.data3),
    ("data4", .array (parts.data4.map .int))]

/-- The members common to structs and tables of methods. -/
def structMembers (ident : String) (fields : List Field) (guid : String) (vtable : Json)
    (parts : Option GuidParts) : Json :=
  .object [("ident", .string ident), ("fields", .array (Field.listToJson fields)),
    ("guid", .string guid), ("vtbl", vtable), ("guid_parts", ofOption GuidParts.toJson parts)]

mutual
/-- A table of methods. -/
def Vtable.toJson (v : Vtable) : Json :=
  match v with
  | ⟨ident, fields, guid, vtable, parts⟩ =>
    structMembers ident fields guid (Vtable.optionToJson vtable) parts
termination_by structural v

/-- A table of methods that may be absent. -/
def Vtable.optionToJson (v : Option Vtable) : Json :=
  match v with
  | none => .null
  | some v => v.toJson
termination_by structural v
end

namespace Header

/-- A struct with its table of methods. -/
def structToJson (h : Header) (s : Struct) : Json :=
  structMembers s.ident s.fields s.guid (Vtable.optionToJson (h.vtable? s)) s.guidParts

/-- All declarations of a header. -/
def toJson (h : Header) : Json :=
  .object [("filename", .string h.file),
    ("macros", .array (h.macros.map fun m =>
      .object [("ident", .string m.ident), ("value", m.value.toJson)])),
    ("type_aliases", .array (h.aliases.map fun a =>
      .object [("ident", .string a.ident), ("alias", .string a.target)])),
    ("enums", .array (h.enums.map fun e =>
      .object [("ident", .string e.ident), ("fields", .array (e.enumerators.map fun c =>
        .object [("ident", .string c.ident), ("value", c.value.toJson)]))])),
    ("structs", .array (h.structs.map h.structToJson)),
    ("functions", .array (h.functions.map fun f =>
      .object [("ident", .string f.ident), ("dll_call", .string f.exportName),
        ("parameters", .array (Field.listToJson f.parameters))]))]

/-- The dump of a header, indented by a number of spaces per level. -/
def dump (h : Header) (indent : Int) : String :=
  h.toJson.render indent

end Header

end SdkBindings
