import SdkBindings.Entries
import SdkBindings.Json.Printer

/-!
# Values of constants

A macro or an enumerator has the text it was written with and, where that could be computed, a
number of 32 unsigned bits or a text.  A table of symbols holds the values known so far.
-/

namespace SdkBindings

/-- A constant as written and, when it could be computed, what it stands for. -/
structure Value where
  /-- The expression as written. -/
  raw : String
  /-- The number it stands for. -/
  uint32 : Option Int
  /-- The text it stands for. -/
  string : Option String
  deriving DecidableEq, Repr

namespace Value

/-- A value of which only the written form is known. -/
def ofRaw (raw : String) : Value := ⟨raw, none, none⟩

/-- A number, with its decimal form where nothing else was written. -/
def ofNumber (n : Int) (raw : String) : Value :=
  ⟨if raw = "" then toString n else raw, some n, none⟩

/-- A number that has to fit in 32 unsigned bits. -/
def ofUInt32? (n : Int) (raw : String) : Option Value :=
  if 0 ≤ n ∧ n ≤ 0xFFFFFFFF then some (ofNumber n raw) else none

/-- A text, with its JSON form where nothing else was written. -/
def ofText (text raw : String) : Value :=
  ⟨if raw = "" then Json.renderText text else raw, none, some text⟩

/-- Whether the value is known. -/
def isResolved (v : Value) : Bool :=
  v.uint32.isSome || v.string.isSome

/-- The value as an expression of the generated module: the number, else the text, else the written
form. -/
def resolve (v : Value) : String :=
  match v.uint32, v.string with
  | some n, _ => toString n
  | none, some s => Json.renderText s
  | none, none => v.raw

end Value

/-- The values of the constants known so far, by name. -/
structure SymbolTable where
  /-- Names and values in the order of their first definition. -/
  entries : List (String × Value)
  deriving DecidableEq, Repr

namespace SymbolTable

/-- No constant is known. -/
def empty : SymbolTable := ⟨[]⟩

/-- The value of a name. -/
def get? (table : SymbolTable) (name : String) : Option Value :=
  table.entries.lookup name

/-- Gives a name a value, in place of the one it may have. -/
def insert (table : SymbolTable) (name : String) (value : Value) : SymbolTable :=
  ⟨Entries.set name value table.entries⟩

/-- The number a name stands for. -/
def number? (table : SymbolTable) (name : String) : Option Int :=
  (table.get? name).bind Value.uint32

/-- After an insertion the name has the new value and every other name the one it had. -/
theorem get?_insert (table : SymbolTable) (name m : String) (value : Value) :
    (table.insert name value).get? m = if m = name then some value else table.get? m :=
  Entries.lookup_set name value m table.entries

end SymbolTable

end SdkBindings
