import SdkBindings.Declaration.Header
import SdkBindings.Text.Substring

/-!
# Removing vendor prefixes

Identifiers lose the prefixes of the vendor's name space.  Removal is literal and happens anywhere in
a name, one prefix after the other, so a longer prefix has to come before a shorter one it contains.
Macro names and type names as written are left alone.
-/

namespace SdkBindings.Transform

/-- An identifier without the prefixes. -/
def normalize (prefixes : List String) (ident : String) : String :=
  String.ofList (prefixes.foldl (fun text part => Text.removeAll part.toList text) ident.toList)

mutual
/-- The names inside a type: those of a method and its parameters, or of the members of a union. -/
def normalizeType (f : String → String) (t : CType) : CType :=
  match t with
  | ⟨shape, ident, expr, dimensions, members, name, parameters, depth, inner⟩ =>
    match shape with
    | .functionPointer =>
      ⟨shape, ident, expr, dimensions, members, f name, normalizeFields f parameters, depth, inner⟩
    | .union =>
      ⟨shape, ident, expr, dimensions, normalizeFields f members, name, parameters, depth, inner⟩
    | _ => ⟨shape, ident, expr, dimensions, members, name, parameters, depth, inner⟩
termination_by structural t

/-- The name of a field and the names inside its type. -/
def normalizeField (f : String → String) (x : Field) : Field :=
  match x with
  | ⟨name, type, isOut, hasCount, isArray, isLength, isErased⟩ =>
    ⟨f name, normalizeType f type, isOut, hasCount, isArray, isLength, isErased⟩
termination_by structural x

/-- The names of a list of fields. -/
def normalizeFields (f : String → String) (xs : List Field) : List Field :=
  match xs with
  | [] => []
  | x :: xs => normalizeField f x :: normalizeFields f xs
termination_by structural xs
end

/-- The names of an enumeration and of its constants, and the names inside their expressions. -/
def normalizeEnum (f : String → String) (e : Enumeration) : Enumeration :=
  ⟨f e.ident, e.enumerators.map fun c => ⟨f c.ident, { c.value with raw := f c.value.raw }⟩⟩

/-- The names of a table of methods. -/
def normalizeTable (f : String → String) (t : Vtable) : Vtable :=
  { t with ident := f t.ident, fields := normalizeFields f t.fields }

/-- The tables of methods after all structs have been dealt with: a table is dealt with once for
every struct that refers to it. -/
def normalizeTables (f : String → String) (structs : List Struct) (tables : List Vtable) :
    List Vtable :=
  structs.foldl (fun tables s =>
    match s.vtable with
    | some i => tables.modify i (normalizeTable f)
    | none => tables) tables

/-- All names of a header that the generated module writes, except those of macros. -/
def normalizeHeader (prefixes : List String) (h : Header) : Header :=
  let f := normalize prefixes
  { h with
    functions := h.functions.map fun fn =>
      { fn with ident := f fn.ident, parameters := normalizeFields f fn.parameters }
    structs := h.structs.map fun s =>
      { s with ident := f s.ident, fields := normalizeFields f s.fields }
    vtables := normalizeTables f h.structs h.vtables
    aliases := h.aliases.map fun a => ⟨f a.ident, f a.target⟩
    enums := h.enums.map (normalizeEnum f) }

end SdkBindings.Transform
