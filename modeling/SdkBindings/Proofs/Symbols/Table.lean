import SdkBindings.Constant.Evaluation
import SdkBindings.Proofs.Outcome

/-!
# Tables of definitions, and the values in them

A table of symbols is filled by definitions, one after the other (`SymbolTable.defineAll`).  Which
names it then holds and which value a name has can be read off the list of definitions:
`mem_names_defineAll` and `get?_defineAll`.

A value is accepted (`Value.IsAccepted`) if it has no number or a number that passes the check for 32
unsigned bits and nothing else besides.  Whatever an expression evaluates to is accepted
(`isAccepted_of_evaluate`), although its number may have come from doubles, words or characters.
-/

namespace SdkBindings

/-! ## Definitions in a row -/

/-- An entry is the one that has been set, or it was there before. -/
theorem Entries.mem_set {α : Type} {name : String} {value : α} {entries : List (String × α)}
    {entry : String × α} (h : entry ∈ Entries.set name value entries) :
    entry = (name, value) ∨ entry ∈ entries := by
  induction entries with
  | nil => exact .inl (List.mem_singleton.mp h)
  | cons first rest ih =>
    obtain ⟨n, v⟩ := first
    unfold Entries.set at h
    split at h
    · rename_i hname
      rcases List.mem_cons.mp h with rfl | h
      · exact .inl (by rw [hname])
      · exact .inr (List.mem_cons_of_mem _ h)
    · rcases List.mem_cons.mp h with rfl | h
      · exact .inr List.mem_cons_self
      · exact (ih h).imp_right (List.mem_cons_of_mem _)

namespace SymbolTable

/-- The names in a table, in the order of their first definition. -/
def names (table : SymbolTable) : List String :=
  table.entries.map Prod.fst

/-- The values in a table. -/
def values (table : SymbolTable) : List Value :=
  table.entries.map Prod.snd

/-- The table after definitions, one after the other. -/
def defineAll (table : SymbolTable) (definitions : List (String × Value)) : SymbolTable :=
  definitions.foldl (fun table d => table.insert d.1 d.2) table

/-- Definitions after others. -/
theorem defineAll_append (table : SymbolTable) (ds es : List (String × Value)) :
    table.defineAll (ds ++ es) = (table.defineAll ds).defineAll es :=
  List.foldl_append

/-- An inserted name is in the table, besides those that were. -/
theorem mem_names_insert (table : SymbolTable) (name m : String) (value : Value) :
    m ∈ (table.insert name value).names ↔ m ∈ table.names ∨ m = name := by
  unfold names insert
  rw [Entries.map_fst_set]
  split
  · rename_i hmem
    refine ⟨.inl, ?_⟩
    rintro (h | rfl)
    · exact h
    · exact hmem
  · rw [List.mem_append, List.mem_singleton]

/-- **Names.**  After definitions a table holds the names it held and those that are defined. -/
theorem mem_names_defineAll (table : SymbolTable) (definitions : List (String × Value))
    (name : String) :
    name ∈ (table.defineAll definitions).names ↔
      name ∈ table.names ∨ name ∈ definitions.map Prod.fst := by
  induction definitions generalizing table with
  | nil => simp [defineAll]
  | cons d rest ih =>
    have hstep : table.defineAll (d :: rest) = (table.insert d.1 d.2).defineAll rest := rfl
    rw [hstep, ih, mem_names_insert, List.map_cons, List.mem_cons, or_assoc]

/-- A value in the table after definitions was in the table or is one of those defined. -/
theorem mem_values_defineAll {table : SymbolTable} {definitions : List (String × Value)} {v : Value}
    (h : v ∈ (table.defineAll definitions).values) :
    v ∈ table.values ∨ v ∈ definitions.map Prod.snd := by
  induction definitions generalizing table with
  | nil => exact .inl h
  | cons d rest ih =>
    have hstep : v ∈ ((table.insert d.1 d.2).defineAll rest).values := h
    rcases ih hstep with h | h
    · obtain ⟨entry, hentry, rfl⟩ := List.mem_map.mp h
      rcases Entries.mem_set hentry with rfl | hentry
      · exact .inr List.mem_cons_self
      · exact .inl (List.mem_map.mpr ⟨entry, hentry, rfl⟩)
    · exact .inr (List.mem_cons_of_mem _ h)

/-- **Values.**  After definitions a name has the value it was defined with last, or else the one it
had. -/
theorem get?_defineAll (table : SymbolTable) (definitions : List (String × Value)) (name : String) :
    (table.defineAll definitions).get? name =
      ((definitions.filter fun d => d.1 = name).getLast?.map Prod.snd).or (table.get? name) := by
  induction definitions generalizing table with
  | nil => rfl
  | cons d rest ih =>
    have hstep : table.defineAll (d :: rest) = (table.insert d.1 d.2).defineAll rest := rfl
    rw [hstep, ih, get?_insert]
    by_cases hname : d.1 = name
    · rw [List.filter_cons_of_pos (by simpa using hname), List.getLast?_cons, if_pos hname.symm]
      cases (rest.filter fun d => d.1 = name).getLast? <;> rfl
    · rw [List.filter_cons_of_neg (by simpa using hname), if_neg fun h => hname h.symm]

/-- A name that is defined once has the value of its definition. -/
theorem get?_defineAll_of_single {table : SymbolTable} {definitions : List (String × Value)}
    {name : String} {value : Value}
    (h : (definitions.filter fun d => d.1 = name) = [(name, value)]) :
    (table.defineAll definitions).get? name = some value := by
  rw [get?_defineAll, h]
  rfl

end SymbolTable

/-! ## Values with a checked number -/

/-- The value has no number, or one that passes the check for 32 unsigned bits and then makes up the
value together with the written form. -/
def Value.IsAccepted (v : Value) : Prop :=
  ∀ n, v.uint32 = some n → Value.ofUInt32? n v.raw = some v

namespace Value

/-- A number that has passed the check is within 32 unsigned bits. -/
theorem ofUInt32?_eq_some_iff {n : Int} {raw : String} {v : Value} :
    ofUInt32? n raw = some v ↔ (0 ≤ n ∧ n < 0x100000000) ∧ v = ofNumber n raw := by
  have hbounds : (0 ≤ n ∧ n ≤ 0xFFFFFFFF) ↔ (0 ≤ n ∧ n < 0x100000000) := by omega
  unfold ofUInt32?
  by_cases h : 0 ≤ n ∧ n ≤ 0xFFFFFFFF
  · rw [if_pos h, Option.some_inj, and_iff_right (hbounds.mp h), eq_comm]
  · rw [if_neg h]
    exact iff_of_false nofun fun h' => h (hbounds.mpr h'.1)

/-- The number of an accepted value is within 32 unsigned bits. -/
theorem IsAccepted.bounds {v : Value} (h : v.IsAccepted) {n : Int} (hn : v.uint32 = some n) :
    0 ≤ n ∧ n < 0x100000000 :=
  (ofUInt32?_eq_some_iff.mp (h n hn)).1

/-- An accepted value is not a number and a text at once. -/
theorem IsAccepted.not_both {v : Value} (h : v.IsAccepted) : v.uint32 = none ∨ v.string = none := by
  cases hn : v.uint32 with
  | none => exact .inl rfl
  | some n => exact .inr (congrArg Value.string (ofUInt32?_eq_some_iff.mp (h n hn)).2)

/-- A written form by itself has no number. -/
theorem isAccepted_ofRaw (raw : String) : (ofRaw raw).IsAccepted :=
  nofun

/-- A text has no number. -/
theorem isAccepted_ofText (text raw : String) : (ofText text raw).IsAccepted :=
  nofun

/-- A number within 32 unsigned bits passes the check. -/
theorem isAccepted_ofNumber {n : Int} (h : 0 ≤ n ∧ n < 0x100000000) (raw : String) :
    (ofNumber n raw).IsAccepted := by
  rintro _ ⟨⟩
  refine ofUInt32?_eq_some_iff.mpr ⟨h, ?_⟩
  -- the written form of a number is never empty
  by_cases hraw : raw = ""
  · simp [ofNumber, hraw]
  · simp [ofNumber, hraw]

end Value

namespace Constant

/-- The value of a number is accepted, whatever the number is. -/
theorem isAccepted_numberValue (x : Number) (raw : String) : (numberValue x raw).IsAccepted := by
  unfold numberValue
  extract_lets integer?
  cases hvalue : integer?.bind (Value.ofUInt32? · raw) with
  | none => exact Value.isAccepted_ofRaw raw
  | some v =>
    obtain ⟨n, -, hn⟩ := Option.bind_eq_some_iff.mp hvalue
    obtain ⟨hbounds, rfl⟩ := Value.ofUInt32?_eq_some_iff.mp hn
    exact Value.isAccepted_ofNumber hbounds raw

/-- **Accepted values.**  Whatever tokens evaluate to is accepted, under any table. -/
theorem isAccepted_of_evaluate {symbols : SymbolTable} {tokens : List Token} {v : Value}
    (h : evaluate symbols tokens = .ok v) : v.IsAccepted := by
  unfold evaluate at h
  obtain ⟨literal?, -, h⟩ := bind_eq_ok h
  cases literal? with
  | some text =>
    cases h
    exact Value.isAccepted_ofText text _
  | none =>
    obtain ⟨items, -, h⟩ := bind_eq_ok h
    obtain ⟨x, -, h⟩ := bind_eq_ok h
    cases h
    exact isAccepted_numberValue x _

/-- The value of a macro is accepted. -/
theorem isAccepted_of_evaluateMacro {symbols : SymbolTable} {name : Token} {body : List Token}
    {v : Value} (h : evaluateMacro symbols name body = .ok v) : v.IsAccepted := by
  obtain ⟨_, -, h⟩ := bind_eq_ok h
  exact isAccepted_of_evaluate h

end Constant

end SdkBindings
