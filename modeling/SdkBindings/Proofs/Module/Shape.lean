import Mathlib.Data.List.Forall2
import Mathlib.Order.Bounds.Basic
import SdkBindings.Proofs.Module.Wrappers

/-!
# The shape of a wrapper

Every parameter adds to four parts of a wrapper: to its parameters, to its local variables, to the slots
of the call and to what it returns.  Each addition has at most one member, and the slots have exactly
one.  So the parts can be read off the list of parameters: the parameters of the wrapper are those that
it takes an argument for (`isTaken`), its local variables are those that `localName?` gives, and the
slots name one object for each parameter, in order, behind that of the receiver and in front of zeros
(`Wrapper.hasShape_of_ok`).

A wrapper that cannot be written lacks a call helper for its arguments or the expression of the type of
a parameter (`Wrapper.of_error_iff`).
-/

namespace SdkBindings.Module

/-! ## What a parameter adds -/

/-- The name of the local variable that a wrapper has for a parameter, if it has one. -/
def localName? (f : Field) : Option String :=
  match Passing.ofField f with
  | .output _ => some (safeName f.name)
  | .array _ | .fixedArray _ => some (safeName f.name ++ "_array")
  | .buffered => some (safeName f.name ++ "_ref")
  | .length | .reference | .address | .value => none

/-- A wrapper takes an argument for the parameter. -/
def isTaken (f : Field) : Bool :=
  !f.isLength && !isAllocatedOutput f

/-- The object that a slot refers to, if it refers to one by its name. -/
def Slot.object? : Slot → Option String
  | .output name | .length name | .address name | .reference name | .value name => some name
  | .receiver | .zero => none

/-- The slot is that of the parameter: it names its local variable, or its argument if it has none. -/
def IsSlotOf (f : Field) (slot : Slot) : Prop :=
  slot.object? = some ((localName? f).getD (safeName f.name))

/-- The wrapper returns the local variable of the parameter. -/
def isReturned (f : Field) : Bool :=
  f.isOut && match Passing.ofField f with
    | .output _ | .array _ | .fixedArray _ => true
    | .length | .buffered | .reference | .address | .value => false

/-- The expressions are what the wrapper returns of the parameter: its local variable, or the value of
that, if it is returned. -/
def IsReturnOf (f : Field) (expressions : List String) : Prop :=
  if isReturned f then
    ∃ name, localName? f = some name ∧ (expressions = [name] ∨ expressions = [name ++ ".value"])
  else expressions = []

/-- The two ways in which a parameter does without an argument. -/
theorem passing_cases (f : Field) :
    (isTaken f = false ∧ isAllocatedOutput f = true ∧
        Passing.ofField f = .output (pointee f.type.expr)) ∨
      (isTaken f = false ∧ isAllocatedOutput f = false ∧ Passing.ofField f = .length) ∨
      (isTaken f = true ∧ isAllocatedOutput f = false ∧ (∀ type, Passing.ofField f ≠ .output type) ∧
        Passing.ofField f ≠ .length) := by
  unfold isTaken
  cases hallocated : isAllocatedOutput f with
  | true => simp [Passing.ofField, hallocated]
  | false =>
    cases hlength : f.isLength with
    | true => simp [Passing.ofField, hallocated, hlength]
    | false =>
      refine .inr (.inr ⟨rfl, rfl, ?_⟩)
      unfold Passing.ofField
      simp only [hallocated, hlength, Bool.false_eq_true, if_false]
      split_ifs <;> simp

/-- What a parameter adds to the parameters of the wrapper. -/
theorem signature_marshal (enums : List String) (f : Field) :
    (marshal enums f).signature = if isTaken f then [safeName f.name] else [] := by
  unfold marshal
  obtain ⟨htaken, -, hpassing⟩ | ⟨htaken, -, hpassing⟩ | ⟨htaken, -, houtput, hlength⟩ :=
    passing_cases f
  · simp [htaken, hpassing]
  · simp [htaken, hpassing]
  · cases hpassing : Passing.ofField f with
    | output type => exact absurd hpassing (houtput type)
    | length => exact absurd hpassing hlength
    | _ => simp [htaken]

/-- The name of the local variable that it adds, if any. -/
theorem map_head?_setup (enums : List String) (f : Field) :
    ((marshal enums f).setup.head?).map Prod.fst = localName? f := by
  unfold marshal localName?
  cases Passing.ofField f <;> rfl

/-- It adds at most one. -/
theorem setup_eq_toList (enums : List String) (f : Field) :
    (marshal enums f).setup = ((marshal enums f).setup.head?).toList := by
  unfold marshal
  cases Passing.ofField f <;> rfl

/-- What it has the wrapper return: nothing, or its local variable, or the value of that. -/
theorem isReturnOf_marshal (enums : List String) (f : Field) :
    IsReturnOf f (marshal enums f).outputs := by
  unfold IsReturnOf isReturned marshal localName?
  obtain ⟨-, hallocated, hpassing⟩ | ⟨-, -, hpassing⟩ | ⟨-, -, houtput, -⟩ := passing_cases f
  · have hout : f.isOut = true := by
      simp only [isAllocatedOutput, Bool.and_eq_true] at hallocated
      exact hallocated.1.1.1.1.1
    simp only [hpassing, hout, Bool.and_self, if_true]
    refine ⟨_, rfl, ?_⟩
    split
    · exact .inr rfl
    · exact .inl rfl
  · simp [hpassing]
  · cases hpassing : Passing.ofField f with
    | output type => exact absurd hpassing (houtput type)
    | _ => cases f.isOut <;> simp

/-- Its slot. -/
theorem isSlotOf_marshal (enums : List String) (f : Field) : IsSlotOf f (marshal enums f).slot := by
  unfold IsSlotOf marshal localName?
  cases Passing.ofField f <;> rfl

/-! ## Call helpers -/

/-- A call helper of a size holds a number of arguments and may be used. -/
structure IsHelperSize (total limit : Int) (size : Nat) : Prop where
  /-- There is a helper of that size. -/
  mem : size ∈ helperSizes
  /-- It holds the arguments. -/
  holds : total ≤ size
  /-- It is not too large. -/
  allowed : (size : Int) ≤ limit

/-- The sizes of the helpers go up. -/
theorem pairwise_helperSizes : helperSizes.Pairwise (· < ·) := by decide

/-- The first helper that holds the arguments is the smallest one. -/
theorem le_of_find?_helperSizes {total : Int} {size other : Nat}
    (h : (helperSizes.find? fun (size : Nat) => decide (total ≤ (size : Int))) = some size)
    (hother : other ∈ helperSizes) (hholds : total ≤ other) : size ≤ other := by
  obtain ⟨-, before, after, hsizes, hbefore⟩ := List.find?_eq_some_iff_append.mp h
  have hsorted := pairwise_helperSizes
  rw [hsizes] at hother hsorted
  rw [List.mem_append, List.mem_cons] at hother
  obtain hother | rfl | hother := hother
  · have hsmall := hbefore other hother
    simp [hholds] at hsmall
  · exact le_rfl
  · exact le_of_lt ((List.pairwise_cons.mp (List.pairwise_append.mp hsorted).2.1).1 other hother)

/-- The helper that is selected is the smallest one of those that may be used. -/
theorem selectHelper_ok {total limit : Int} {helper : CallHelper}
    (h : selectHelper total limit = .ok helper) :
    IsLeast {size | IsHelperSize total limit size} helper.slots ∧
      helper.padding = ((helper.slots : Int) - total).toNat := by
  unfold selectHelper at h
  split at h
  · rename_i size hfind
    split at h
    · rename_i hallowed
      cases h
      refine ⟨⟨⟨List.mem_of_find?_eq_some hfind, ?_, hallowed⟩, fun other hother => ?_⟩, rfl⟩
      · simpa using List.find?_some hfind
      · exact le_of_find?_helperSizes hfind hother.mem hother.holds
    · cases h
  · cases h

/-- None is selected exactly if none may be used. -/
theorem selectHelper_error_iff {total limit : Int} {e : Error} :
    selectHelper total limit = .error e ↔
      (∀ size, ¬ IsHelperSize total limit size) ∧ e = .tooManyParameters total := by
  unfold selectHelper
  split
  · rename_i size hfind
    have hsize : IsHelperSize total size size :=
      ⟨List.mem_of_find?_eq_some hfind, by simpa using List.find?_some hfind, le_rfl⟩
    split
    · rename_i hallowed
      constructor
      · exact nofun
      · rintro ⟨hnone, -⟩
        exact absurd ⟨hsize.mem, hsize.holds, hallowed⟩ (hnone size)
    · rename_i hlarge
      constructor
      · intro h
        cases h
        refine ⟨fun other hother => hlarge ?_, rfl⟩
        have hle := le_of_find?_helperSizes hfind hother.mem hother.holds
        exact le_trans (by exact_mod_cast hle) hother.allowed
      · rintro ⟨-, rfl⟩
        rfl
  · rename_i hnone
    rw [List.find?_eq_none] at hnone
    constructor
    · intro h
      cases h
      refine ⟨fun other hother => ?_, rfl⟩
      have hsmall := hnone other hother.mem
      simp [hother.holds] at hsmall
    · rintro ⟨-, rfl⟩
      rfl

/-! ## Failures -/

/-- The number of arguments of the call. -/
def Callable.total (c : Callable) : Nat :=
  c.parameters.length + if c.hasReceiver then 1 else 0

/-- A list of parameters passes if all types have expressions. -/
theorem checkTypes_ok_iff (owner : String) {fs : List Field} :
    checkTypes owner fs = .ok () ↔ ∀ f ∈ fs, f.type.expr ≠ "" := by
  induction fs with
  | nil => simp [checkTypes]
  | cons f fs ih =>
    rw [checkTypes, List.forall_mem_cons]
    split
    · rename_i hnone
      simp [hnone]
    · rename_i hsome
      rw [ih]
      exact ⟨fun h => ⟨hsome, h⟩, fun h => h.2⟩

/-- Otherwise the first one without an expression is reported. -/
theorem checkTypes_error_iff {owner : String} {fs : List Field} {e : Error} :
    checkTypes owner fs = .error e ↔ ∃ before f after, fs = before ++ f :: after ∧
      f.type.expr = "" ∧ (∀ g ∈ before, g.type.expr ≠ "") ∧ e = .unresolvedType owner f.name := by
  induction fs with
  | nil =>
    constructor
    · exact nofun
    · rintro ⟨before, f, after, h, -⟩
      simp at h
  | cons g fs ih =>
    rw [checkTypes]
    split
    · rename_i hnone
      constructor
      · intro h
        cases h
        exact ⟨[], g, fs, rfl, hnone, by simp, rfl⟩
      · rintro ⟨before, f, after, hsplit, hf, hbefore, rfl⟩
        obtain ⟨rfl, hg⟩ | ⟨rest, rfl, -⟩ := List.cons_eq_append_iff.mp hsplit
        · cases hg
          rfl
        · exact absurd hnone (hbefore g List.mem_cons_self)
    · rename_i hsome
      rw [ih]
      constructor
      · rintro ⟨before, f, after, rfl, hf, hbefore, rfl⟩
        exact ⟨g :: before, f, after, rfl, hf, List.forall_mem_cons.mpr ⟨hsome, hbefore⟩, rfl⟩
      · rintro ⟨before, f, after, hsplit, hf, hbefore, rfl⟩
        obtain ⟨rfl, hg⟩ | ⟨rest, rfl, hrest⟩ := List.cons_eq_append_iff.mp hsplit
        · cases hg
          exact absurd hf hsome
        · exact ⟨rest, f, after, hrest, hf, (List.forall_mem_cons.mp hbefore).2, rfl⟩

/-- What a wrapper that cannot be written fails with: there is no helper for its arguments, or else the
type of a parameter has no expression, and the first such parameter is named. -/
def Callable.FailsWith (limit : Int) (c : Callable) (e : Error) : Prop :=
  ((∀ size, ¬ IsHelperSize c.total limit size) ∧ e = .tooManyParameters c.total) ∨
    ((∃ size, IsHelperSize c.total limit size) ∧
      ∃ before f after, c.parameters = before ++ f :: after ∧ f.type.expr = "" ∧
        (∀ g ∈ before, g.type.expr ≠ "") ∧ e = .unresolvedType c.owner f.name)

/-- Something is failed with exactly if there is no helper or the type of a parameter has no
expression. -/
theorem Callable.exists_failsWith_iff {limit : Int} {c : Callable} :
    (∃ e, c.FailsWith limit e) ↔
      (∀ size, ¬ IsHelperSize c.total limit size) ∨ ∃ f ∈ c.parameters, f.type.expr = "" := by
  constructor
  · rintro ⟨e, ⟨hnone, -⟩ | ⟨-, before, f, after, hsplit, hf, -⟩⟩
    · exact .inl hnone
    · exact .inr ⟨f, by simp [hsplit], hf⟩
  · intro h
    by_cases hsize : ∃ size, IsHelperSize c.total limit size
    · have hfailing : ¬ ∀ f ∈ c.parameters, f.type.expr ≠ "" := by
        obtain hnone | ⟨f, hf, hexpr⟩ := h
        · exact absurd hsize (not_exists.mpr hnone)
        · exact fun hall => hall f hf hexpr
      rw [← checkTypes_ok_iff c.owner] at hfailing
      cases hcheck : checkTypes c.owner c.parameters with
      | ok _ => exact absurd hcheck hfailing
      | error e => exact ⟨e, .inr ⟨hsize, checkTypes_error_iff.mp hcheck⟩⟩
    · exact ⟨_, .inl ⟨not_exists.mp hsize, rfl⟩⟩

/-- A wrapper fails with that and with nothing else. -/
theorem Wrapper.of_error_iff {enums : List String} {limit : Int} {c : Callable} {e : Error} :
    Wrapper.of enums limit c = .error e ↔ c.FailsWith limit e := by
  unfold Wrapper.of Callable.FailsWith
  change (do
    let helper ← selectHelper (c.total : Nat) limit
    checkTypes c.owner c.parameters
    _ : Except Error Wrapper) = _ ↔ _
  cases hhelper : selectHelper (c.total : Nat) limit with
  | error e' =>
    obtain ⟨hnone, rfl⟩ := selectHelper_error_iff.mp hhelper
    constructor
    · intro h
      cases h
      exact .inl ⟨hnone, rfl⟩
    · rintro (⟨-, rfl⟩ | ⟨⟨size, hsize⟩, -⟩)
      · rfl
      · exact absurd hsize (hnone size)
  | ok helper =>
    have hsize := (selectHelper_ok hhelper).1.1
    rw [← checkTypes_error_iff]
    cases hcheck : checkTypes c.owner c.parameters with
    | error e' =>
      constructor
      · intro h
        cases h
        exact .inr ⟨⟨_, hsize⟩, rfl⟩
      · rintro (⟨hnone, -⟩ | ⟨-, h⟩)
        · exact absurd hsize (hnone _)
        · cases h
          rfl
    | ok _ =>
      constructor
      · exact nofun
      · rintro (⟨hnone, -⟩ | ⟨-, h⟩)
        · exact absurd hsize (hnone _)
        · cases h

/-! ## The parts of a wrapper -/

/-- A wrapper of a callable calls a helper of a size with the arguments that the callable has: the parts
of the wrapper are those of its parameters, in order. -/
structure Wrapper.HasShape (limit : Int) (c : Callable) (size : Nat) (w : Wrapper) : Prop where
  /-- The helper is the smallest one that holds the arguments and may be used. -/
  least : IsLeast {size | IsHelperSize c.total limit size} size
  /-- The parameters are the receiver, if there is one, and those that an argument is taken for. -/
  signature : w.signature = (if c.hasReceiver then ["self"] else []) ++
    (c.parameters.filter isTaken).map fun f => safeName f.name
  /-- The local variables are those of the parameters. -/
  locals : w.setup.map Prod.fst = c.parameters.filterMap localName?
  /-- The slots are the receiver, one for each parameter, and zeros. -/
  slots : ∃ own, List.Forall₂ IsSlotOf c.parameters own ∧
    w.slots = (if c.hasReceiver then [.receiver] else []) ++ own ++
      List.replicate (size - c.total) .zero
  /-- There are as many as the helper has. -/
  count : w.slots.length = size
  /-- The helper is called by its name behind the lines of the local variables, with the address, the
  number of arguments and the slots. -/
  call : ∃ rest, w.body = w.setup.map (fun (name, value) => name ++ " = " ++ value) ++
    ["ret = " ++ ("_syscall" ++ toString size) ++ "(", indentation 1 ++ c.target ++ ",",
      indentation 1 ++ toString c.total ++ ","] ++
    w.slots.map (fun slot => indentation 1 ++ slot.render ++ ",") ++ ")" :: rest

/-- What is left of a list when each member gives a list of at most one item. -/
theorem flatMap_eq_filterMap {α β : Type} {g : α → List β} (hg : ∀ a, g a = (g a).head?.toList)
    (xs : List α) : xs.flatMap g = xs.filterMap fun a => (g a).head? := by
  induction xs with
  | nil => rfl
  | cons x xs ih =>
    rw [List.flatMap_cons, ih, hg x]
    cases hx : (g x).head? with
    | none => rw [List.filterMap_cons_none (f := fun a => (g a).head?) hx, Option.toList_none,
        List.nil_append]
    | some b => rw [List.filterMap_cons_some (f := fun a => (g a).head?) hx, Option.toList_some,
        List.singleton_append]

/-- What is left of a list when each member gives one item or none, depending on what it is. -/
theorem flatMap_ite {α β : Type} (p : α → Bool) (g : α → β) (xs : List α) :
    (xs.flatMap fun x => if p x then [g x] else []) = (xs.filter p).map g := by
  induction xs with
  | nil => rfl
  | cons x xs ih =>
    rw [List.flatMap_cons, ih, List.filter_cons]
    split <;> simp

/-- The local variables of a wrapper with their values are those of its parameters, in order. -/
theorem Wrapper.setup_of_ok {enums : List String} {limit : Int} {c : Callable} {w : Wrapper}
    (h : Wrapper.of enums limit c = .ok w) :
    w.setup = c.parameters.filterMap fun f => (marshal enums f).setup.head? := by
  rw [(Wrapper.of_ok h).2.1, List.flatMap_map]
  exact flatMap_eq_filterMap (setup_eq_toList enums) c.parameters

/-- So are their names. -/
theorem Wrapper.locals_of_ok {enums : List String} {limit : Int} {c : Callable} {w : Wrapper}
    (h : Wrapper.of enums limit c = .ok w) :
    w.setup.map Prod.fst = c.parameters.filterMap localName? := by
  rw [Wrapper.setup_of_ok h, List.map_filterMap]
  exact congrArg (List.filterMap · c.parameters) (funext (map_head?_setup enums))

/-- What is returned besides the result are the outputs of the parameters, in order. -/
theorem Wrapper.outputs_of_ok {enums : List String} {limit : Int} {c : Callable} {w : Wrapper}
    (h : Wrapper.of enums limit c = .ok w) :
    w.outputs = c.parameters.flatMap fun f => (marshal enums f).outputs := by
  unfold Wrapper.of at h
  obtain ⟨helper, -, h⟩ := bind_eq_ok h
  obtain ⟨_, -, h⟩ := bind_eq_ok h
  cases h
  exact List.flatMap_map ..

/-- The call comes behind the local variables in the body of a wrapper, and has the slots. -/
theorem Wrapper.exists_body_eq (w : Wrapper) :
    ∃ rest, w.body = w.setup.map (fun (name, value) => name ++ " = " ++ value) ++
      ["ret = " ++ w.helper.name ++ "(", indentation 1 ++ w.target ++ ",",
        indentation 1 ++ toString w.total ++ ","] ++
      w.slots.map (fun slot => indentation 1 ++ slot.render ++ ",") ++ ")" :: rest := by
  refine ⟨(if w.result = .checked then ["_check(ret)"] else []) ++
    (if w.returns = [] then [] else ["return " ++ ", ".intercalate w.returns]), ?_⟩
  rw [Wrapper.body]
  simp only [List.append_assoc, List.cons_append, List.nil_append]

/-- A wrapper that can be written has its shape. -/
theorem Wrapper.hasShape_of_ok {enums : List String} {limit : Int} {c : Callable} {w : Wrapper}
    (h : Wrapper.of enums limit c = .ok w) : ∃ size, w.HasShape limit c size := by
  have hlocals := Wrapper.locals_of_ok h
  unfold Wrapper.of at h
  obtain ⟨helper, hhelper, h⟩ := bind_eq_ok h
  obtain ⟨_, -, h⟩ := bind_eq_ok h
  change selectHelper (c.total : Nat) limit = .ok helper at hhelper
  obtain ⟨hleast, hpadding⟩ := selectHelper_ok hhelper
  have hholds : (c.total : Int) ≤ helper.slots := hleast.1.holds
  have hzeros : helper.padding = helper.slots - c.total := by omega
  cases h
  refine ⟨helper.slots, hleast, ?_, hlocals,
    ⟨(c.parameters.map (marshal enums)).map Marshalled.slot, ?_, by rw [hzeros]⟩, ?_, ?_⟩
  · rw [← flatMap_ite, List.flatMap_map, funext (signature_marshal enums)]
  · rw [List.map_map, List.forall₂_map_right_iff]
    exact List.forall₂_same.mpr fun f _ => isSlotOf_marshal enums f
  · have htotal : c.total = c.parameters.length + if c.hasReceiver then 1 else 0 := rfl
    simp only [List.length_append, List.length_map, List.length_replicate, apply_ite List.length,
      List.length_singleton, List.length_nil]
    omega
  · exact Wrapper.exists_body_eq _

end SdkBindings.Module
