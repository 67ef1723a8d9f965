import SdkBindings.Proofs.Module.Marshalling
import SdkBindings.Proofs.Module.Names
import SdkBindings.Proofs.Module.Shape

/-!
# Which names a wrapper looks up before they are bound

In a function of the generated language a name is local if the function assigns it anywhere, and then it
has to be assigned before it is looked up.  A wrapper assigns the local variables of its parameters, one
after the other, and then the result of the call.  The values of its local variables look up the
arguments, functions of the support code and types (`localReads`), the slots look up arguments and local
variables, and so do the expressions that are returned.

Nothing is wrong with the slots and with what is returned, if lengths have the names of arrays.  So all
names are bound in time exactly if no local variable is built with a function or a type whose name is
that of a local variable assigned only then or later, or of the result (`wrapper_shape`).
-/

namespace SdkBindings.Module

open Transform (transform)

/-! ## Names of a wrapper -/

/-- The name under which a wrapper has the result of the call. -/
def resultName : String := "ret"

/-- The names that the wrapper of a callable has for its parameters and local variables. -/
def Callable.names (c : Callable) : List String :=
  (if c.hasReceiver then ["self"] else []) ++ (c.parameters.map fun f => safeName f.name) ++
    c.parameters.filterMap localName? ++ [resultName]

/-- The names that the value of the local variable of a parameter looks up, apart from the argument: a
function of the support code, or the names of a type, or both. -/
def localReads (f : Field) : List String :=
  match Passing.ofField f with
  | .output type => readNames type
  | .array type => "_array_of" :: readNames type
  | .fixedArray type => "_fixed_array_of" :: readNames type
  | .buffered => ["_pointer_arg"]
  | .length | .reference | .address | .value => []

/-- Whatever the wrapper looks up among some names is a parameter of it or has been assigned by then. -/
structure Wrapper.IsScoped (names : List String) (w : Wrapper) : Prop where
  /-- The value of a local variable looks up parameters and local variables in front of it. -/
  setup : ∀ before name value after, w.setup = before ++ (name, value) :: after →
    ∀ n ∈ readNames value, n ∈ names → n ∈ w.signature ∨ n ∈ before.map Prod.fst
  /-- A slot looks up parameters and local variables. -/
  slots : ∀ slot ∈ w.slots, ∀ n ∈ readNames slot.render, n ∈ names →
    n ∈ w.signature ∨ n ∈ w.setup.map Prod.fst
  /-- What is returned looks up these and the result. -/
  returns : ∀ expression ∈ w.returns, ∀ n ∈ readNames expression, n ∈ names →
    n ∈ w.signature ∨ n ∈ w.setup.map Prod.fst ∨ n = resultName

/-- Every length has the name of an array that is no length itself. -/
def Callable.HasCounted (c : Callable) : Prop :=
  ∀ f ∈ c.parameters, f.isLength = true →
    ∃ g ∈ c.parameters, g.isArray = true ∧ g.isLength = false ∧ f.name = g.name

/-- The names of the parameters are words. -/
def Callable.HasWords (c : Callable) : Prop :=
  ∀ f ∈ c.parameters, IsWord f.name

instance (c : Callable) : Decidable c.HasCounted :=
  inferInstanceAs (Decidable (∀ f ∈ c.parameters, _))

instance (c : Callable) : Decidable c.HasWords :=
  inferInstanceAs (Decidable (∀ f ∈ c.parameters, _))

/-- The local variable of a parameter is built with a name that the wrapper has for something it assigns
only then or later, and not for an argument. -/
def Callable.LooksAhead (c : Callable) : Prop :=
  ∃ i : Fin c.parameters.length, ∃ n ∈ localReads c.parameters[i],
    (n = resultName ∨ n ∈ (c.parameters.drop i).filterMap localName?) ∧
      n ∉ (if c.hasReceiver then ["self"] else []) ++
        (c.parameters.filter isTaken).map (fun f => safeName f.name) ∧
      n ∉ (c.parameters.take i).filterMap localName?

instance (c : Callable) : Decidable c.LooksAhead :=
  inferInstanceAs (Decidable (∃ i : Fin c.parameters.length, ∃ n ∈ localReads c.parameters[i], _))

/-- The same, by the parameters in front of that one and behind it. -/
theorem Callable.looksAhead_iff {c : Callable} : c.LooksAhead ↔
    ∃ first f last n, c.parameters = first ++ f :: last ∧ n ∈ localReads f ∧
      (n = resultName ∨ n ∈ (f :: last).filterMap localName?) ∧
      n ∉ (if c.hasReceiver then ["self"] else []) ++
        (c.parameters.filter isTaken).map (fun f => safeName f.name) ∧
      n ∉ first.filterMap localName? := by
  constructor
  · rintro ⟨i, n, hn, hlater, hsignature, hearlier⟩
    have hdrop := List.drop_eq_getElem_cons i.isLt
    refine ⟨c.parameters.take i, c.parameters[i], c.parameters.drop (i + 1), n, ?_, hn, ?_,
      hsignature, hearlier⟩
    · rw [Fin.getElem_fin, ← hdrop, List.take_append_drop]
    · rwa [Fin.getElem_fin, ← hdrop]
  · rintro ⟨first, f, last, n, hparameters, hn, hlater, hsignature, hearlier⟩
    have hlt : first.length < c.parameters.length := by
      rw [hparameters, List.length_append, List.length_cons]
      omega
    have hget : c.parameters[first.length] = f := by simp [hparameters]
    have hdrop : c.parameters.drop first.length = f :: last := by rw [hparameters, List.drop_left]
    have htake : c.parameters.take first.length = first := by rw [hparameters, List.take_left]
    exact ⟨⟨first.length, hlt⟩, n, hget ▸ hn, hdrop ▸ hlater, hsignature,
      by simpa only [htake] using hearlier⟩

/-! ## What the parts of a wrapper look up -/

/-- The value of the local variable of a parameter looks up its names, and the argument if there is
one. -/
theorem readNames_setup {enums : List String} {f : Field} {name value : String}
    (h : (marshal enums f).setup.head? = some (name, value)) :
    readNames value = localReads f ∨
      isTaken f = true ∧ readNames value = localReads f ++ readNames (safeName f.name) := by
  have harray : readNames "_array_of" = ["_array_of"] := by decide +kernel
  have hfixed : readNames "_fixed_array_of" = ["_fixed_array_of"] := by decide +kernel
  have hpointer : readNames "_pointer_arg" = ["_pointer_arg"] := by decide +kernel
  obtain ⟨-, -, hpassing⟩ | ⟨-, -, hpassing⟩ | ⟨htaken, -, houtput, -⟩ := passing_cases f
  · simp only [marshal, hpassing, List.head?_cons, Option.some.injEq, Prod.mk.injEq] at h
    obtain ⟨-, rfl⟩ := h
    have hcall := readNames_call (pointee f.type.expr) rfl ""
    rw [String.append_empty, String.append_assoc, readNames_empty, List.append_nil] at hcall
    simp only [localReads, hpassing]
    exact .inl hcall
  · simp only [marshal, hpassing, List.head?_nil, reduceCtorEq] at h
  · refine .inr ⟨htaken, ?_⟩
    unfold marshal at h
    unfold localReads
    cases hpassing : Passing.ofField f with
    | output type => exact absurd hpassing (houtput type)
    | array type =>
      simp only [hpassing, List.head?_cons, Option.some.injEq, Prod.mk.injEq] at h
      obtain ⟨-, rfl⟩ := h
      rw [readNames_callPair "_array_of" (by decide), harray]
      rfl
    | fixedArray type =>
      simp only [hpassing, List.head?_cons, Option.some.injEq, Prod.mk.injEq] at h
      obtain ⟨-, rfl⟩ := h
      rw [readNames_callPair "_fixed_array_of" (by decide), hfixed]
      rfl
    | buffered =>
      simp only [hpassing, List.head?_cons, Option.some.injEq, Prod.mk.injEq] at h
      obtain ⟨-, rfl⟩ := h
      rw [readNames_call "_pointer_arg" (by decide), hpointer]
    | _ => simp [hpassing] at h

/-- The names of the support code and of the library that slots look up, and that of the receiver. -/
def slotFunctions : List String :=
  ["self", "ctypes", "len", "_address_of", "_reference_of", "_value"]

/-- A slot looks up these and its object. -/
theorem mem_readNames_render {slot : Slot} {n : String} (h : n ∈ readNames slot.render) :
    n ∈ slotFunctions ∨ ∃ object, slot.object? = some object ∧ n ∈ readNames object := by
  have hobject (callee : String) {opening object : String} (hopening : opening = callee ++ "(")
      (hcallee : readNames callee ⊆ slotFunctions)
      (hn : n ∈ readNames (opening ++ object ++ ")")) : n ∈ slotFunctions ∨ n ∈ readNames object := by
    rw [readNames_call callee hopening, List.mem_append] at hn
    exact hn.imp_left fun hn => hcallee hn
  cases slot with
  | receiver =>
    have hreceiver : readNames Slot.receiver.render ⊆ slotFunctions := by decide +kernel
    exact .inl (hreceiver h)
  | zero =>
    have hzero : readNames Slot.zero.render = [] := by decide +kernel
    rw [hzero] at h
    cases h
  | length name =>
    have hempty : readNames "or ()" = [] := by decide +kernel
    have hending : (" or ())" : String) = String.singleton ' ' ++ "or ()" ++ ")" := by decide
    have hrender : Slot.render (.length name) =
        "len(" ++ (name ++ String.singleton ' ' ++ "or ()") ++ ")" := by
      change "len(" ++ name ++ " or ())" = _
      rw [hending]
      simp only [String.append_assoc]
    have hargument : readNames (name ++ String.singleton ' ' ++ "or ()") = readNames name := by
      rw [readNames_append_mark (c := ' ') ⟨by decide, by decide +kernel⟩ (by decide), hempty,
        List.append_nil]
    rw [hrender, readNames_call "len" (by decide), hargument, List.mem_append] at h
    have hlen : readNames "len" ⊆ slotFunctions := by decide +kernel
    exact h.imp (fun hn => hlen hn) fun hn => ⟨name, rfl, hn⟩
  | output name =>
    exact (hobject "ctypes.addressof" (by decide) (by decide +kernel) h).imp_right
      fun hn => ⟨name, rfl, hn⟩
  | address name =>
    exact (hobject "_address_of" (by decide) (by decide +kernel) h).imp_right
      fun hn => ⟨name, rfl, hn⟩
  | reference name =>
    exact (hobject "_reference_of" (by decide) (by decide +kernel) h).imp_right
      fun hn => ⟨name, rfl, hn⟩
  | value name =>
    exact (hobject "_value" (by decide) (by decide +kernel) h).imp_right
      fun hn => ⟨name, rfl, hn⟩

/-! ## Scope -/

section

variable {enums : List String} {limit : Int} {c : Callable} {w : Wrapper}

/-- The wrapper has the name of a parameter, if it is that of an array where the parameter is a length. -/
theorem safeName_mem (hcounted : c.HasCounted) {size : Nat} (hw : w.HasShape limit c size) {f : Field}
    (hf : f ∈ c.parameters) : safeName f.name ∈ w.signature ∨ safeName f.name ∈ w.setup.map Prod.fst := by
  have htaken {g : Field} (hg : g ∈ c.parameters) (h : isTaken g = true) :
      safeName g.name ∈ w.signature := by
    rw [hw.signature]
    exact List.mem_append_right _ (List.mem_map.mpr ⟨g, List.mem_filter.mpr ⟨hg, h⟩, rfl⟩)
  obtain ⟨-, -, hpassing⟩ | ⟨hnot, hallocated, -⟩ | ⟨h, -⟩ := passing_cases f
  · refine .inr ?_
    rw [hw.locals]
    exact List.mem_filterMap.mpr ⟨f, hf, by rw [localName?, hpassing]⟩
  · have hlength : f.isLength = true := by
      simpa [isTaken, hallocated] using hnot
    obtain ⟨g, hg, harray, hnone, hname⟩ := hcounted f hf hlength
    have hkept : isAllocatedOutput g = false := by simp [isAllocatedOutput, harray]
    rw [hname]
    exact .inl (htaken hg (by rw [isTaken, hnone, hkept]; rfl))
  · exact .inl (htaken hf h)

/-- So it has the object of its slot. -/
theorem object_mem (hcounted : c.HasCounted) {size : Nat} (hw : w.HasShape limit c size) {f : Field}
    (hf : f ∈ c.parameters) : (localName? f).getD (safeName f.name) ∈ w.signature ∨
      (localName? f).getD (safeName f.name) ∈ w.setup.map Prod.fst := by
  cases hlocal : localName? f with
  | none => exact safeName_mem hcounted hw hf
  | some name =>
    refine .inr ?_
    rw [hw.locals]
    exact List.mem_filterMap.mpr ⟨f, hf, hlocal⟩

/-- The names of a wrapper are its parameters, its local variables and the result. -/
theorem mem_names_cases (hcounted : c.HasCounted) {size : Nat} (hw : w.HasShape limit c size)
    {n : String} (hn : n ∈ c.names) :
    n ∈ w.signature ∨ n ∈ w.setup.map Prod.fst ∨ n = resultName := by
  simp only [Callable.names, List.mem_append, List.mem_singleton] at hn
  obtain ((hn | hn) | hn) | hn := hn
  · rw [hw.signature]
    exact .inl (List.mem_append_left _ hn)
  · obtain ⟨f, hf, rfl⟩ := List.mem_map.mp hn
    exact (safeName_mem hcounted hw hf).imp_right .inl
  · rw [hw.locals]
    exact .inr (.inl hn)
  · exact .inr (.inr hn)

/-- The local variable of a parameter is a word if the name of the parameter is one. -/
theorem isWord_localName? {f : Field} (hf : IsWord f.name) {name : String}
    (h : localName? f = some name) : IsWord name := by
  unfold localName? at h
  have hsuffix {suffix : String} (hsuffix : IsWord suffix)
      (h : safeName f.name ++ suffix = name) : IsWord name :=
    h ▸ isWord_append.mpr ⟨hf.safeName, hsuffix⟩
  split at h
  · exact Option.some.inj h ▸ hf.safeName
  · exact hsuffix (by decide +kernel) (Option.some.inj h)
  · exact hsuffix (by decide +kernel) (Option.some.inj h)
  · exact hsuffix (by decide +kernel) (Option.some.inj h)
  all_goals cases h

/-- The slots look up what is bound. -/
theorem scoped_slots (hcounted : c.HasCounted) (hwords : c.HasWords) {size : Nat}
    (hw : w.HasShape limit c size) {slot : Slot} (hslot : slot ∈ w.slots) {n : String}
    (hn : n ∈ readNames slot.render) (hnames : n ∈ c.names) :
    n ∈ w.signature ∨ n ∈ w.setup.map Prod.fst := by
  obtain hbound | hbound | rfl := mem_names_cases hcounted hw hnames
  · exact .inl hbound
  · exact .inr hbound
  -- the result is looked up only where a parameter has its name
  obtain hfunction | ⟨object, hobject, hn⟩ := mem_readNames_render hn
  · exact absurd hfunction (by decide)
  obtain ⟨own, hown, hslots⟩ := hw.slots
  rw [hslots, List.mem_append, List.mem_append] at hslot
  obtain (hslot | hslot) | hslot := hslot
  · split at hslot
    · cases List.mem_singleton.mp hslot
      cases hobject
    · cases hslot
  · obtain ⟨i, hi⟩ := List.mem_iff_getElem?.mp hslot
    obtain ⟨f, hf, hslotOf⟩ := Transform.exists_getElem?_of_forall₂_right hown hi
    have hmem := List.mem_of_getElem? hf
    cases hobject.symm.trans hslotOf
    have hword : IsWord ((localName? f).getD (safeName f.name)) := by
      cases hlocal : localName? f with
      | none => exact (hwords f hmem).safeName
      | some name => exact isWord_localName? (hwords f hmem) hlocal
    rw [eq_of_mem_readNames hword hn]
    exact object_mem hcounted hw hmem
  · cases (List.eq_of_mem_replicate hslot)
    cases hobject

/-- So does what is returned. -/
theorem scoped_returns (hwords : c.HasWords) (h : Wrapper.of enums limit c = .ok w)
    {expression : String} (hexpression : expression ∈ w.returns) {n : String}
    (hn : n ∈ readNames expression) :
    n ∈ w.signature ∨ n ∈ w.setup.map Prod.fst ∨ n = resultName := by
  have houtputs (hexpression : expression ∈ w.outputs) : n ∈ w.setup.map Prod.fst := by
    rw [Wrapper.outputs_of_ok h] at hexpression
    obtain ⟨f, hf, hexpression⟩ := List.mem_flatMap.mp hexpression
    have hreturn := isReturnOf_marshal enums f
    unfold IsReturnOf at hreturn
    split at hreturn
    swap
    · simp [hreturn] at hexpression
    obtain ⟨name, hlocal, hreturn⟩ := hreturn
    have hread : n ∈ readNames name := by
      obtain hreturn | hreturn := hreturn <;> rw [hreturn, List.mem_singleton] at hexpression <;>
        rw [hexpression] at hn
      · exact hn
      · have hvalue : (".value" : String) = "." ++ "value" := by decide
        rwa [hvalue, ← String.append_assoc, readNames_member _ _ (by decide +kernel)] at hn
    rw [eq_of_mem_readNames (isWord_localName? (hwords f hf) hlocal) hread,
      Wrapper.locals_of_ok h]
    exact List.mem_filterMap.mpr ⟨f, hf, hlocal⟩
  unfold Wrapper.returns at hexpression
  split at hexpression
  · obtain rfl | hexpression := List.mem_cons.mp hexpression
    · have hresult : readNames "ret" = [resultName] := by decide +kernel
      rw [hresult] at hn
      exact .inr (.inr (List.mem_singleton.mp hn))
    · exact .inr (.inl (houtputs hexpression))
  · exact .inr (.inl (houtputs hexpression))

/-- The names of the local variables of some parameters. -/
theorem map_fst_setup (enums : List String) (fs : List Field) :
    (fs.filterMap fun f => (marshal enums f).setup.head?).map Prod.fst = fs.filterMap localName? := by
  rw [List.map_filterMap]
  exact congrArg (List.filterMap · fs) (funext (map_head?_setup enums))

/-- The local variables of a wrapper in front of one of them are those of the parameters in front of its
parameter. -/
theorem setup_split (h : Wrapper.of enums limit c = .ok w) {before after : List (String × String)}
    {name value : String} (hsplit : w.setup = before ++ (name, value) :: after) :
    ∃ first f last, c.parameters = first ++ f :: last ∧
      before.map Prod.fst = first.filterMap localName? ∧
      (marshal enums f).setup.head? = some (name, value) := by
  rw [Wrapper.setup_of_ok h] at hsplit
  obtain ⟨first, rest, hparameters, rfl, hrest⟩ := List.filterMap_eq_append_iff.mp hsplit
  obtain ⟨skipped, f, last, rfl, hskipped, hf, -⟩ := List.filterMap_eq_cons_iff.mp hrest
  refine ⟨first ++ skipped, f, last, by rw [hparameters, List.append_assoc], ?_, hf⟩
  have hnone : skipped.filterMap (fun g => (marshal enums g).setup.head?) = [] :=
    List.filterMap_eq_nil_iff.mpr hskipped
  rw [← List.append_nil (List.filterMap _ first), ← hnone, ← List.filterMap_append, map_fst_setup]

/-- A parameter whose local variable looks something up has a local variable. -/
theorem exists_setup_of_mem_localReads (enums : List String) {f : Field} {n : String}
    (hn : n ∈ localReads f) : ∃ name value, (marshal enums f).setup.head? = some (name, value) := by
  unfold localReads at hn
  unfold marshal
  split at hn
  any_goals cases hn; done
  all_goals
    rename_i hpassing
    simp only [hpassing]
    exact ⟨_, _, rfl⟩

/-- A wrapper whose names are bound in time builds no local variable with a later one. -/
theorem not_looksAhead_of_isScoped (h : Wrapper.of enums limit c = .ok w) {size : Nat}
    (hw : w.HasShape limit c size) (hscoped : w.IsScoped c.names) : ¬ c.LooksAhead := by
  rw [Callable.looksAhead_iff]
  rintro ⟨first, f, last, n, hparameters, hn, hlater, hsignature, hearlier⟩
  obtain ⟨name, value, hsetup⟩ := exists_setup_of_mem_localReads enums hn
  have hsplit := Wrapper.setup_of_ok h
  rw [hparameters, List.filterMap_append,
    List.filterMap_cons_some (f := fun f => (marshal enums f).setup.head?) hsetup] at hsplit
  have hread : n ∈ readNames value := by
    obtain hread | ⟨-, hread⟩ := readNames_setup hsetup
    · exact hread ▸ hn
    · exact hread ▸ List.mem_append_left _ hn
  have hnames : n ∈ c.names := by
    obtain rfl | hlater := hlater
    · exact List.mem_append_right _ (List.mem_singleton_self _)
    · refine List.mem_append_left _ (List.mem_append_right _ ?_)
      rw [hparameters, List.filterMap_append]
      exact List.mem_append_right _ hlater
  obtain hbound | hbound := hscoped.setup _ _ _ _ hsplit n hread hnames
  · exact hsignature (hw.signature ▸ hbound)
  · exact hearlier (map_fst_setup enums first ▸ hbound)

/-- A wrapper that builds no local variable with a later one has its names bound in time. -/
theorem isScoped_of_not_looksAhead (h : Wrapper.of enums limit c = .ok w) {size : Nat}
    (hw : w.HasShape limit c size) (hcounted : c.HasCounted) (hwords : c.HasWords)
    (hahead : ¬ c.LooksAhead) : w.IsScoped c.names := by
  refine ⟨fun before name value after hsplit n hn hnames => ?_,
    fun slot hslot n hn hnames => scoped_slots hcounted hwords hw hslot hn hnames,
    fun expression hexpression n hn _ => scoped_returns hwords h hexpression hn⟩
  obtain ⟨first, f, last, hparameters, hbefore, hsetup⟩ := setup_split h hsplit
  have hf : f ∈ c.parameters := by simp [hparameters]
  have hown : n ∈ localReads f ∨ n ∈ w.signature := by
    obtain hread | ⟨htaken, hread⟩ := readNames_setup hsetup
    · exact .inl (hread ▸ hn)
    · rw [hread, List.mem_append] at hn
      refine hn.imp_right fun hn => ?_
      rw [eq_of_mem_readNames (hwords f hf).safeName hn, hw.signature]
      exact List.mem_append_right _ (List.mem_map.mpr ⟨f, List.mem_filter.mpr ⟨hf, htaken⟩, rfl⟩)
  obtain hown | hown := hown
  · rw [hbefore]
    by_contra hunbound
    obtain ⟨hsignature, hearlier⟩ := not_or.mp hunbound
    refine hahead (Callable.looksAhead_iff.mpr
      ⟨first, f, last, n, hparameters, hown, ?_, hw.signature ▸ hsignature, hearlier⟩)
    -- what is not bound by then is the result, or bound here or later
    obtain hbound | hbound | hbound := mem_names_cases hcounted hw hnames
    · exact absurd hbound hsignature
    · rw [hw.locals, hparameters, List.filterMap_append, List.mem_append] at hbound
      exact .inr (hbound.resolve_left hearlier)
    · exact .inl hbound
  · exact .inl hown

end

/-! ## Shape and scope -/

/-- **Shape and scope.**  A wrapper that cannot be written fails exactly because no call helper holds its
arguments or the type of a parameter has no expression.  One that can be written has its shape: the
smallest helper is called with one slot for each parameter, in order, between the receiver and zeros.
If lengths have the names of arrays, all its names are bound in time, unless a local variable is built
with a function or type that has the name of one that is assigned only then or later. -/
theorem wrapper_shape (enums : List String) (limit : Int) (c : Callable) :
    (∀ e, Wrapper.of enums limit c = .error e ↔ c.FailsWith limit e) ∧
    ((∃ e, Wrapper.of enums limit c = .error e) ↔
      (∀ size, ¬ IsHelperSize c.total limit size) ∨ ∃ f ∈ c.parameters, f.type.expr = "") ∧
    ∀ w, Wrapper.of enums limit c = .ok w →
      (∃ size, w.HasShape limit c size) ∧
      (c.HasCounted → c.HasWords → (w.IsScoped c.names ↔ ¬ c.LooksAhead)) := by
  refine ⟨fun e => Wrapper.of_error_iff, ?_, fun w h => ?_⟩
  · rw [← Callable.exists_failsWith_iff]
    exact exists_congr fun e => Wrapper.of_error_iff
  · obtain ⟨size, hw⟩ := Wrapper.hasShape_of_ok h
    exact ⟨⟨size, hw⟩, fun hcounted hwords =>
      ⟨not_looksAhead_of_isScoped h hw, isScoped_of_not_looksAhead h hw hcounted hwords⟩⟩

/-- A method with an array, its length and an output. -/
def countedMethod : Callable :=
  let values : CType := { CType.pointer "UINT" 1 (.basic "UINT") with expr := "ctypes.c_uint32" }
  let value : CType :=
    { CType.pointer "UINT" 1 (.basic "UINT") with expr := "ctypes.POINTER(ctypes.c_uint32)" }
  { name := "F"
    parameters := [{ Field.plain "pValues" { CType.basic "UINT" with expr := "ctypes.c_uint32" } with
        isLength := true },
      { Field.plain "pValues" values with isArray := true },
      { Field.plain "pValue" value with isOut := true }]
    target := "self.lpVtbl.contents.F"
    hasReceiver := true
    result := "HRESULT"
    owner := "I.F" }

/-- Shape and scope of the wrapper of that method. -/
theorem wrapper_shape_countedMethod :
    ∃ w, Wrapper.of [] 12 countedMethod = .ok w ∧ (∃ size, w.HasShape 12 countedMethod size) ∧
      w.IsScoped countedMethod.names := by
  have hok : (Wrapper.of [] 12 countedMethod).isOk = true := by decide +kernel
  cases hw : Wrapper.of [] 12 countedMethod with
  | error e =>
    rw [hw] at hok
    cases hok
  | ok w =>
    obtain ⟨hshape, hscoped⟩ := (wrapper_shape [] 12 countedMethod).2.2 w hw
    exact ⟨w, rfl, hshape,
      (hscoped (by decide +kernel) (by decide +kernel)).mpr (by decide +kernel)⟩

/-- A function with an output that has the name of its type. -/
def ownTypeSource : String :=
  "HRESULT WINAPI F( __out RECT *Rect );\n"

/-- The output is a local variable, and its value looks it up before it is assigned. -/
theorem wrapper_ownType :
    ∃ h text log ds w, IsGenerated ownTypeSource h text log ∧
      h.parameters? (.function 0) = some ds ∧
      IsWrapperOf "d3d11.dll" 12 ([] ++ (transform [] h).value :: []) text (transform [] h).value
        (.function 0) w ∧
      w.signature = [] ∧ w.setup = [("Rect", "Rect()")] ∧ w.slots = [.output "Rect", .zero, .zero] ∧
      ¬ w.IsScoped (w.setup.map Prod.fst) := by
  obtain ⟨h, text, log, ds, w, hh, -, hds, hw, hP⟩ :=
    exists_isGenerated ownTypeSource (.function 0) (fun _ w =>
      decide (w.signature = [] ∧ w.setup = [("Rect", "Rect()")] ∧
        w.slots = [.output "Rect", .zero, .zero])) (by
          -- evaluated from the characters of the text, so that the kernel builds no bytes
          have hsource : ownTypeSource.toList = _ := String.toList_ofList
          rw [Grammar.readHeader, Grammar.header, Lexer.lex, hsource]
          decide +kernel)
  obtain ⟨hsignature, hsetup, hslots⟩ := of_decide_eq_true hP
  refine ⟨h, text, log, ds, w, hh, hds, hw, hsignature, hsetup, hslots, fun hscoped => ?_⟩
  have hbound := hscoped.setup [] "Rect" "Rect()" [] hsetup "Rect" (by decide +kernel)
    (by simp [hsetup])
  simp [hsignature] at hbound

end SdkBindings.Module
