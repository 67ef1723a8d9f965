import SdkBindings.Declaration.Header

/-!
# Changes that may stop halfway

A pass changes declarations one after the other.  When it fails, what it has changed so far stays
changed and everything after the failure stays as it was.  So the result of a change is always a
value, with notes made on the way and, possibly, the failure that stopped it.
-/

namespace SdkBindings

/-- What something has become, what was noted on the way, and what stopped the change, if anything
did. -/
structure Change (ε ν α : Type) where
  /-- The value reached. -/
  value : α
  /-- The notes, in order. -/
  notes : List ν
  /-- The failure that stopped the change. -/
  failure : Option ε
  deriving Repr

namespace Change

variable {ε ν α β : Type}

/-- A change that is complete. -/
def done (value : α) : Change ε ν α := ⟨value, [], none⟩

/-- A change that stopped. -/
def stopped (value : α) (e : ε) : Change ε ν α := ⟨value, [], some e⟩

/-- The same change seen in a larger value. -/
def map (f : α → β) (c : Change ε ν α) : Change ε ν β := ⟨f c.value, c.notes, c.failure⟩

/-- Continues a change, or, if it stopped, gives the value it leads to. -/
def andThen (c : Change ε ν α) (further : α → Change ε ν β) (stop : α → β) : Change ε ν β :=
  match c.failure with
  | some e => ⟨stop c.value, c.notes, some e⟩
  | none =>
    let d := further c.value
    ⟨d.value, c.notes ++ d.notes, d.failure⟩

/-- Changes the items of a list in order. -/
def each (f : α → Change ε ν α) : List α → Change ε ν (List α)
  | [] => done []
  | x :: xs => (f x).andThen (fun y => (each f xs).map (y :: ·)) (· :: xs)

/-- Seeing a change in a larger value twice. -/
@[simp]
theorem map_map {γ : Type} (c : Change ε ν α) (f : α → β) (g : β → γ) :
    (c.map f).map g = c.map fun x => g (f x) := rfl

/-- Two ways to see a change need to agree on the value that was reached only. -/
theorem map_congr {c : Change ε ν α} {f g : α → β} (h : f c.value = g c.value) :
    c.map f = c.map g := by
  rw [map, map, h]

/-- Two ways to go on need to agree on the value that was reached only. -/
theorem andThen_congr {c : Change ε ν α} {f f' : α → Change ε ν β} {stop stop' : α → β}
    (hf : f c.value = f' c.value) (hstop : stop c.value = stop' c.value) :
    c.andThen f stop = c.andThen f' stop' := by
  rw [andThen, andThen, hf, hstop]

/-- Going on from something that is done. -/
theorem done_andThen (x : α) (f : α → Change ε ν β) (stop : α → β) :
    (done x).andThen f stop = f x := rfl

/-- Seeing a change in a larger value and going on from there. -/
theorem map_andThen {γ : Type} (c : Change ε ν α) (g : α → β) (f : β → Change ε ν γ) (stop : β → γ) :
    (c.map g).andThen f stop = c.andThen (fun x => f (g x)) fun x => stop (g x) := rfl

/-- Going on and seeing the whole in a larger value. -/
theorem andThen_map {γ : Type} (c : Change ε ν α) (f : α → Change ε ν β) (stop : α → β) (g : β → γ) :
    (c.andThen f stop).map g = c.andThen (fun x => (f x).map g) fun x => g (stop x) := by
  unfold andThen
  cases c.failure with
  | none => rfl
  | some e => rfl

/-- Where a stop leaves the value as it is, going on twice can be bracketed either way. -/
theorem andThen_assoc (c : Change ε ν α) (f g : α → Change ε ν α) :
    (c.andThen f id).andThen g id = c.andThen (fun x => (f x).andThen g id) id := by
  obtain ⟨x, notes, failure⟩ := c
  cases failure with
  | some e => rfl
  | none =>
    simp only [andThen]
    cases (f x).failure with
    | some e => rfl
    | none => simp only [List.append_assoc]

/-- A change of items that gets on with `g` changes a list that `g` went over in the same way. -/
theorem each_map {f : α → Change ε ν α} {g : α → α} (h : ∀ x, f (g x) = (f x).map g) (xs : List α) :
    each f (xs.map g) = (each f xs).map (List.map g) := by
  induction xs with
  | nil => rfl
  | cons x xs ih =>
    rw [List.map_cons, each, each, h, ih, map_andThen, andThen_map]
    rfl

/-- A change of items that cannot fail is a map. -/
theorem each_done (f : α → α) (xs : List α) :
    each (fun x => (done (f x) : Change ε ν α)) xs = done (xs.map f) := by
  induction xs with
  | nil => rfl
  | cons x xs ih =>
    rw [each, ih]
    rfl

end Change

namespace Header

variable {ε ν : Type}

/-- A change of a list of fields, given the name of what the list belongs to. -/
abbrev FieldChange (ε ν : Type) := String → List Field → Change ε ν (List Field)

/-- Changes the members of a struct and then the entries of its table of methods. -/
def changeStruct (f : FieldChange ε ν) (s : Struct) (tables : List Vtable) :
    Change ε ν (Struct × List Vtable) :=
  ((f s.ident s.fields).map fun fields => { s with fields }).andThen
    (fun s =>
      match s.vtable.bind fun i => (tables[i]?).map fun t => (i, t) with
      | none => .done (s, tables)
      | some (i, t) =>
        (f t.ident t.fields).map fun fields => (s, tables.set i { t with fields }))
    (fun s => (s, tables))

/-- Changes structs in order. -/
def changeStructs (f : FieldChange ε ν) (tables : List Vtable) :
    List Struct → Change ε ν (List Struct × List Vtable)
  | [] => .done ([], tables)
  | s :: rest =>
    (changeStruct f s tables).andThen
      (fun (s, tables) => (changeStructs f tables rest).map fun (rest, tables) => (s :: rest, tables))
      (fun (s, tables) => (s :: rest, tables))

/-- Changes every list of fields: the parameters of the functions, then the members of each struct
followed by its table of methods. -/
def changeFields (f : FieldChange ε ν) (h : Header) : Change ε ν Header :=
  (Change.each (fun fn => (f fn.ident fn.parameters).map fun parameters =>
      ({ fn with parameters } : Function)) h.functions).andThen
    (fun functions => (changeStructs f h.vtables h.structs).map fun (structs, vtables) =>
      { h with functions, structs, vtables })
    (fun functions => { h with functions })

end Header

end SdkBindings
