import SdkBindings.Proofs.Module.Wrappers
import SdkBindings.Proofs.Transform.Parameters

/-!
# How wrappers pass pointers

A wrapper decides for each parameter how it is passed, going by the marks that the passes have left and
by the expression of its type.  For a parameter that is declared as a pointer only four things matter:
whether it is a length, whether it is an array, whether its static type is given up, and whether its
expression is that of a pointer (`passing_of_pointer`).  The first two follow from the names of the
parameters next to it.

So a pointer is passed by its address, unless a parameter next to it makes it a length: nothing looks
at the type of a length, and a pointer can be one (`generate_pointers`).  An output is passed as an array
exactly if its length is recognized; otherwise it may be taken for a single value, whatever it is
annotated with (`generate_outputs`).
-/

namespace SdkBindings.Module

open Transform

/-! ## Slots -/

/-- The slot has the value of an argument, or its length. -/
def Slot.isByValue : Slot → Bool
  | .length _ | .value _ => true
  | _ => false

/-- The slot has an address: that of the receiver, of a variable of the wrapper, of the object of the
caller or of the variable that holds it. -/
def Slot.isAddress : Slot → Bool
  | .receiver | .output _ | .address _ | .reference _ => true
  | _ => false

/-- What is allocated by the wrapper is no part of a pair. -/
theorem isUnpaired_of_isAllocatedOutput {f : Field} (h : isAllocatedOutput f = true) :
    f.isArray = false ∧ f.isLength = false := by
  simp only [isAllocatedOutput, Bool.and_eq_true, Bool.not_eq_true'] at h
  exact ⟨h.1.1.1.2, h.1.1.2⟩

/-- How a pointer is passed. -/
theorem passing_of_pointer {f : Field} (h : f.type.shape = .pointer) :
    Passing.ofField f =
      if isAllocatedOutput f then .output (pointee f.type.expr)
      else if f.isLength then .length
      else if f.isArray then .array f.type.expr
      else if f.isErased && decide (1 < f.type.depth) then .reference
      else .address := by
  have hpointer : f.type.isPointer = true := decide_eq_true h
  have hsized : isPointerSized f = false := by simp [isPointerSized, h]
  simp [Passing.ofField, hsized, h, hpointer]

/-! ## Pointer expressions -/

/-- The type is spelled as a pointer in the generated module: it leads to a name, and it is not the only
indirection to a type that has an expression for that. -/
def HasPointerExpr (t : CType) : Prop :=
  (∃ u, t.inner = some u ∧ u.shape = .basic) ∧ (pointerShortcut? t.ident = none ∨ 1 < t.depth)

/-- The expression starts as that of a pointer. -/
def isPointerExpr (expr : String) : Bool :=
  pointerOpening.toList.isPrefixOf expr.toList

/-- A pointer to a type has such an expression. -/
theorem isPointerExpr_pointerExpr (base : String) : isPointerExpr (pointerExpr base) = true := by
  rw [isPointerExpr, pointerExpr, String.toList_append, String.toList_append, List.append_assoc,
    List.isPrefixOf_iff_prefix]
  exact List.prefix_append ..

/-- An array has none. -/
theorem isPointerExpr_wrapDimensions (base : String) {dimensions : List Int} (h : dimensions ≠ []) :
    isPointerExpr (wrapDimensions base dimensions) = false := by
  obtain ⟨dimension, rest, rfl⟩ := List.exists_cons_of_ne_nil h
  rw [wrapDimensions, List.foldr_cons, arrayExpr]
  simp [isPointerExpr, pointerOpening, List.isPrefixOf]

/-- Neither has the expression for the first indirection to a type. -/
theorem isPointerExpr_shortcut {name expr : String} (h : pointerShortcut? name = some expr) :
    isPointerExpr expr = false := by
  unfold pointerShortcut? at h
  split at h
  · cases h
    decide
  · split at h
    · cases h
      decide
    · cases h

/-- The expression of a declared pointer is that of a pointer exactly if its type is spelled so. -/
theorem isPointerExpr_innerPointer (prefixes : List String) {t u : CType} (ht : t.IsDeclared)
    (hu : u.IsDeclared) (hshape : t.shape = .pointer) (hinner : t.inner = some u) :
    isPointerExpr (innerPointer prefixes u t.depth) = true ↔ HasPointerExpr t := by
  obtain ⟨hdepth, v, hv, hkind, hident⟩ := ht.pointer hshape
  cases hinner.symm.trans hv
  have hsome : HasPointerExpr t ↔ u.shape = .basic ∧ (pointerShortcut? t.ident = none ∨ 1 < t.depth) := by
    rw [HasPointerExpr, hinner]
    simp
  have hpositive : 0 < t.depth := by omega
  rw [hsome, innerPointer, if_pos hpositive, hident]
  obtain hbasic | harray := hkind
  · rw [if_neg (by simp [hbasic])]
    -- the expression for the first indirection to the name takes one of the pointers around it
    cases hshortcut : pointerShortcut? t.ident with
    | none =>
      obtain ⟨n, hn⟩ : ∃ n, t.depth.toNat = n + 1 := ⟨t.depth.toNat - 1, by omega⟩
      simp [hn, wrapPointers, isPointerExpr_pointerExpr, hbasic]
    | some expr =>
      dsimp only
      by_cases hmore : 1 < t.depth
      · obtain ⟨n, hn⟩ : ∃ n, (t.depth - 1).toNat = n + 1 := ⟨(t.depth - 1).toNat - 1, by omega⟩
        simp [hn, wrapPointers, isPointerExpr_pointerExpr, hbasic, hmore]
      · have hone : (t.depth - 1).toNat = 0 := by omega
        simp [hone, wrapPointers, isPointerExpr_shortcut hshortcut, hmore]
  · rw [if_pos harray, isPointerExpr_wrapDimensions _ (hu.array harray)]
    simp [harray]

/-! ## Prepared pointers -/

section

variable {prefixes : List String} {xs : List Field} {i : Nat} {d f : Field}

/-- What a declared pointer leads to is declared. -/
theorem exists_inner_of_all {t : CType} (h : t.All CType.IsDeclared Field.IsUnpaired)
    (hshape : t.shape = .pointer) : ∃ u, t.inner = some u ∧ u.IsDeclared := by
  obtain ⟨hself, -, -, hinner⟩ := CType.all_iff.mp h
  obtain ⟨-, u, hu, -⟩ := hself.pointer hshape
  rw [hu, CType.allInner_some] at hinner
  exact ⟨u, hu, (CType.all_iff.mp hinner).1⟩

/-- A prepared pointer is allocated by the wrapper exactly if it is an output with the expression of a
pointer whose type is not given up, and no part of a pair. -/
theorem isAllocatedOutput_iff (hd : d.type.All CType.IsDeclared Field.IsUnpaired)
    (hshape : d.type.shape = .pointer) (hf : IsPrepared prefixes xs i d f) :
    isAllocatedOutput f = true ↔ d.isOut = true ∧ isGivenUp d = false ∧ HasPointerExpr d.type ∧
      ¬ IsCount xs i ∧ ¬ IsCounted xs i := by
  obtain ⟨u, hu, hdeclared⟩ := exists_inner_of_all hd hshape
  have hpointer : f.type.isPointer = true := decide_eq_true hf.shape
  rw [← hf.isLength, ← hf.isArray, Bool.not_eq_true, Bool.not_eq_true]
  have hexpr (harray : f.isArray = false) : isPointerExpr f.type.expr = true ↔ HasPointerExpr d.type := by
    rw [hf.expr harray u hu]
    exact isPointerExpr_innerPointer prefixes (CType.all_iff.mp hd).1 hdeclared hshape hu
  simp only [isAllocatedOutput, hf.isOut, hf.isErased, hpointer, Bool.and_eq_true,
    Bool.not_eq_true', Bool.and_true]
  change (((d.isOut = true ∧ isGivenUp d = false) ∧ f.isArray = false) ∧ f.isLength = false) ∧
    isPointerExpr f.type.expr = true ↔ _
  constructor
  · rintro ⟨⟨⟨⟨hout, hkept⟩, harray⟩, hlength⟩, hstarts⟩
    exact ⟨hout, hkept, (hexpr harray).mp hstarts, hlength, harray⟩
  · rintro ⟨hout, hkept, hhas, hlength, harray⟩
    exact ⟨⟨⟨⟨hout, hkept⟩, harray⟩, hlength⟩, (hexpr harray).mpr hhas⟩

end

/-- The slot of a pointer. -/
theorem slot_marshal_of_pointer (enums : List String) {f : Field} (h : f.type.shape = .pointer) :
    (marshal enums f).slot =
      if isAllocatedOutput f then .output (safeName f.name)
      else if f.isLength then .length (safeName f.name)
      else if f.isArray then .address (safeName f.name ++ "_array")
      else if f.isErased && decide (1 < f.type.depth) then .reference (safeName f.name)
      else .address (safeName f.name) := by
  unfold marshal
  rw [passing_of_pointer h]
  split_ifs <;> rfl

/-- A pointer is passed by value exactly if it is a length, and by address otherwise. -/
theorem isByValue_marshal_iff (enums : List String) {f : Field} (h : f.type.shape = .pointer) :
    ((marshal enums f).slot.isByValue = true ↔ f.isLength = true) ∧
      ((marshal enums f).slot.isAddress = true ↔ ¬ f.isLength = true) := by
  rw [slot_marshal_of_pointer enums h]
  split_ifs with hallocated hlength
  · have hlength := (isUnpaired_of_isAllocatedOutput hallocated).2
    simp [Slot.isByValue, Slot.isAddress, hlength]
  all_goals simp [Slot.isByValue, Slot.isAddress, hlength]

/-! ## Outputs -/

/-- The wrapper takes an array from its caller: the argument has a name, and what is built from it is
passed by address. -/
structure Wrapper.TakesArray (w : Wrapper) (i : Nat) (name : String) : Prop where
  /-- The array is a parameter of the wrapper. -/
  signature : name ∈ w.signature
  /-- An array of the type of its elements is built from it. -/
  setup : ∃ type, (name ++ "_array", "_array_of(" ++ type ++ ", " ++ name ++ ")") ∈ w.setup
  /-- The address of that array is passed. -/
  slot : w.slots[i]? = some (.address (name ++ "_array"))

/-- The wrapper allocates a single value and passes its address. -/
structure Wrapper.Allocates (w : Wrapper) (i : Nat) (name : String) : Prop where
  /-- A value of a type is allocated. -/
  setup : ∃ type, (name, type ++ "()") ∈ w.setup
  /-- The address of that value is passed. -/
  slot : w.slots[i]? = some (.output name)

/-- The wrapper passes the address of an object of its caller, or of the variable that holds it. -/
structure Wrapper.PassesObject (w : Wrapper) (i : Nat) (name : String) : Prop where
  /-- The object is a parameter of the wrapper. -/
  signature : name ∈ w.signature
  /-- Its address is passed. -/
  slot : w.slots[i]? = some (.address name) ∨ w.slots[i]? = some (.reference name)

/-- The array that is built from an argument does not have its name. -/
theorem ne_append_array (name : String) : name ≠ name ++ "_array" := by
  intro h
  have hlength := congrArg String.length h
  rw [String.length_append] at hlength
  have : "_array".length = 6 := by decide
  omega

section

variable {ps : List Field} {i : Nat} {f x : Field} {enums : List String} {first : Nat} {w : Wrapper}

-- a prepared pointer `f` in its place, where the normalized parameters have `x`
variable (hw : w.Marshals enums first ps) (hi : first ≤ i) (hf : ps[i]? = some f)
  (hshape : f.type.shape = .pointer) (hname : f.isLength = false → f.name = x.name)

include hw hi hf hshape hname

/-- The wrapper takes a prepared pointer as an array exactly if a parameter next to it is its length
and it is no length itself. -/
theorem takesArray_iff :
    w.TakesArray i (safeName x.name) ↔ f.isArray = true ∧ f.isLength = false := by
  have hmarshalled := hw.slot i f hi hf
  constructor
  · rintro ⟨-, -, hslot⟩
    have hslots := Option.some.inj (hmarshalled.symm.trans hslot)
    rw [slot_marshal_of_pointer enums hshape] at hslots
    split_ifs at hslots with _ hlength harray _
    · exact ⟨harray, eq_false_of_ne_true hlength⟩
    · rw [hname (eq_false_of_ne_true hlength)] at hslots
      exact absurd (Slot.address.inj hslots) (ne_append_array _)
  · rintro ⟨harray, hlength⟩
    have hallocated : ¬ isAllocatedOutput f = true := fun h =>
      absurd ((isUnpaired_of_isAllocatedOutput h).1.symm.trans harray) Bool.false_ne_true
    have hpassing : Passing.ofField f = .array f.type.expr := by
      rw [passing_of_pointer hshape, if_neg hallocated, hlength, if_neg Bool.false_ne_true,
        if_pos harray]
    rw [← hname hlength]
    refine ⟨hw.signature i f hi hf _ ?_, ⟨f.type.expr, hw.setup i f hi hf _ ?_⟩,
      hmarshalled.trans ?_⟩ <;> simp [marshal, hpassing]

/-- The wrapper allocates a prepared pointer exactly if it is an allocated output. -/
theorem allocates_iff :
    w.Allocates i (safeName x.name) ↔ isAllocatedOutput f = true := by
  have hmarshalled := hw.slot i f hi hf
  constructor
  · rintro ⟨-, hslot⟩
    have hslots := Option.some.inj (hmarshalled.symm.trans hslot)
    rw [slot_marshal_of_pointer enums hshape] at hslots
    split_ifs at hslots with hallocated
    exact hallocated
  · intro hallocated
    have hpassing : Passing.ofField f = .output (pointee f.type.expr) := by
      rw [passing_of_pointer hshape, if_pos hallocated]
    rw [← hname (isUnpaired_of_isAllocatedOutput hallocated).2]
    refine ⟨⟨pointee f.type.expr, hw.setup i f hi hf _ ?_⟩, hmarshalled.trans ?_⟩ <;>
      simp [marshal, hpassing]

/-- The wrapper passes an object of its caller in the other cases. -/
theorem passesObject_iff :
    w.PassesObject i (safeName x.name) ↔
      isAllocatedOutput f = false ∧ f.isLength = false ∧ f.isArray = false := by
  have hmarshalled := hw.slot i f hi hf
  constructor
  · rintro ⟨-, hslot⟩
    rw [hmarshalled, slot_marshal_of_pointer enums hshape] at hslot
    split_ifs at hslot with hallocated hlength harray _
    · simp at hslot
    · simp at hslot
    -- the array that is built from the argument has another name than the argument
    · rw [hname (eq_false_of_ne_true hlength)] at hslot
      obtain hslot | hslot := hslot
      · exact absurd (Slot.address.inj (Option.some.inj hslot)).symm (ne_append_array _)
      · cases hslot
    · exact ⟨eq_false_of_ne_true hallocated, eq_false_of_ne_true hlength, eq_false_of_ne_true harray⟩
    · exact ⟨eq_false_of_ne_true hallocated, eq_false_of_ne_true hlength, eq_false_of_ne_true harray⟩
  · rintro ⟨hallocated, hlength, harray⟩
    have hpassing : Passing.ofField f =
        if f.isErased && decide (1 < f.type.depth) then .reference else .address := by
      rw [passing_of_pointer hshape, hallocated, hlength, harray]
      rfl
    rw [← hname hlength]
    by_cases hreference : (f.isErased && decide (1 < f.type.depth)) = true
    · rw [if_pos hreference] at hpassing
      refine ⟨hw.signature i f hi hf _ ?_, .inr (hmarshalled.trans ?_)⟩ <;> simp [marshal, hpassing]
    · rw [if_neg hreference] at hpassing
      refine ⟨hw.signature i f hi hf _ ?_, .inl (hmarshalled.trans ?_)⟩ <;> simp [marshal, hpassing]

end

/-! ## Whole modules -/

/-- A text, the header that is read from it, and the text of the module of that header alone. -/
structure IsGenerated (source : String) (h : Header) (text : String) (log : Log) : Prop where
  /-- The header is read. -/
  isRead : (Grammar.readHeader false "test.h" source .start).1 = .ok h
  /-- All passes go through it. -/
  isTransformed : (transform [] h).failure = none
  /-- The module is written. -/
  isWritten : generate "d3d11.dll" 12 ([] ++ (transform [] h).value :: []) = (.ok text, log)

/-- A callee in such a module has its parameters and its wrapper, of which holds what their computation
says. -/
theorem exists_isGenerated (source : String) (callee : Callee) (P : List Field → Wrapper → Bool)
    (hcomputed : (Grammar.readHeader false "test.h" source .start).1.toOption.any (fun h =>
      let h' := (transform [] h).value
      (transform [] h).failure.isNone && (generate "d3d11.dll" 12 ([] ++ h' :: [])).1.isOk &&
        decide (callee.IsWritten [] h') && (h.parameters? callee).any fun ds =>
          ((h'.wrapper? ⟨"d3d11.dll", 12, enumNames ([] ++ h' :: [])⟩ callee).bind
            Except.toOption).any (P ds)) = true) :
    ∃ h text log ds w, IsGenerated source h text log ∧ callee.IsWritten [] (transform [] h).value ∧
      h.parameters? callee = some ds ∧
      IsWrapperOf "d3d11.dll" 12 ([] ++ (transform [] h).value :: []) text (transform [] h).value
        callee w ∧ P ds w = true := by
  rcases hread : (Grammar.readHeader false "test.h" source .start).1 with e | h
  · rw [hread] at hcomputed
    cases hcomputed
  · rw [hread] at hcomputed
    simp only [Except.toOption, Option.any_some, Bool.and_eq_true, Option.isNone_iff_eq_none,
      decide_eq_true_eq, Option.any_eq_true] at hcomputed
    obtain ⟨⟨⟨htransform, hok⟩, hwritten⟩, ds, hds, w, hw, hP⟩ := hcomputed
    obtain ⟨text, log, hgenerate⟩ := exists_text_of_isOk hok
    obtain ⟨-, fs, -, hfs, -⟩ :=
      exists_prepared (Grammar.isDeclared_of_readHeader hread) htransform hds
    obtain ⟨w', hw', -⟩ := exists_wrapper hgenerate hfs hwritten
    rw [hw'.wrapper, Option.bind_some] at hw
    cases hw
    exact ⟨h, text, log, ds, w, ⟨hread, htransform, hgenerate⟩, hwritten, hds, hw', hP⟩

section

variable {strict : Bool} {file source : String} {s : Grammar.Session} {h : Header}
  {prefixes : List String} {library : String} {maxSlots : Int} {earlier later : Project}
  {text : String} {log : Log} {callee : Callee} {ds : List Field}

/-- **Pointers.**  In a module that is written, the wrapper of a function or method passes each parameter
that is declared as a pointer, except one: the pointer that takes the parameter next to it for the array
whose length it is.  That one is passed as the length of the array, all others by address. -/
theorem generate_pointers
    (hread : (Grammar.readHeader strict file source s).1 = .ok h)
    (htransform : (transform prefixes h).failure = none)
    (hgenerate : generate library maxSlots (earlier ++ (transform prefixes h).value :: later) =
      (.ok text, log))
    (hds : h.parameters? callee = some ds)
    (hwritten : callee.IsWritten earlier (transform prefixes h).value) :
    ∃ xs w, (normalizeHeader prefixes h).parameters? callee = some xs ∧
      IsWrapperOf library maxSlots (earlier ++ (transform prefixes h).value :: later) text
        (transform prefixes h).value callee w ∧
      (∀ i < callee.first, w.slots[i]? = some .receiver) ∧
      ∀ i d, callee.first ≤ i → ds[i]? = some d → d.type.shape = .pointer →
        ∃ slot, w.slots[i]? = some slot ∧ (slot.isByValue = true ↔ IsCount xs i) ∧
          (slot.isAddress = true ↔ ¬ IsCount xs i) := by
  have hdeclared : h.IsDeclared := Grammar.isDeclared_of_readHeader hread
  obtain ⟨xs, fs, hxs, hfs, hprepared⟩ := exists_prepared hdeclared htransform hds
  obtain ⟨w, hw, hmarshals⟩ := exists_wrapper hgenerate hfs hwritten
  refine ⟨xs, w, hxs, hw, hmarshals.receiver, fun i d hi hd hshape => ?_⟩
  obtain ⟨f, hf, hprepared⟩ := hprepared i d hd hshape
  obtain ⟨hvalue, haddress⟩ :=
    isByValue_marshal_iff (enumNames (earlier ++ (transform prefixes h).value :: later)) hprepared.shape
  refine ⟨_, hmarshals.slot i f hi hf, ?_, ?_⟩
  · rw [hvalue, hprepared.isLength]
  · rw [haddress, hprepared.isLength]

/-- A function whose array has its length behind a pointer. -/
def countPointerSource : String :=
  "HRESULT WINAPI F( UINT *NumViews, __in_ecount(*NumViews) UINT *pViews );\n"

/-- The pointers of that function, as `generate_pointers` says. -/
theorem generate_pointers_countPointer :
    ∃ h text log ds, IsGenerated countPointerSource h text log ∧
      h.parameters? (.function 0) = some ds ∧ ds.map (fun d => d.type.shape) = [.pointer, .pointer] ∧
      ∃ xs w, (normalizeHeader [] h).parameters? (.function 0) = some xs ∧
        IsWrapperOf "d3d11.dll" 12 ([] ++ (transform [] h).value :: []) text (transform [] h).value
          (.function 0) w ∧
        (∀ i < (Callee.function 0).first, w.slots[i]? = some .receiver) ∧
        ∀ i d, (Callee.function 0).first ≤ i → ds[i]? = some d → d.type.shape = .pointer →
          ∃ slot, w.slots[i]? = some slot ∧ (slot.isByValue = true ↔ IsCount xs i) ∧
            (slot.isAddress = true ↔ ¬ IsCount xs i) := by
  obtain ⟨h, text, log, ds, -, hh, hwritten, hds, -, hshapes⟩ :=
    exists_isGenerated countPointerSource (.function 0)
      (fun ds _ => decide (ds.map (fun d => d.type.shape) = [.pointer, .pointer])) (by
        -- evaluated from the characters of the text, so that the kernel builds no bytes
        have hsource : countPointerSource.toList = _ := String.toList_ofList
        rw [Grammar.readHeader, Grammar.header, Lexer.lex, hsource]
        decide +kernel)
  exact ⟨h, text, log, ds, hh, hds, of_decide_eq_true hshapes,
    generate_pointers hh.isRead hh.isTransformed hh.isWritten hds hwritten⟩

/-- The length is declared as a pointer, but passed by value. -/
theorem wrapper_countPointer :
    ∃ h text log ds w d slot, IsGenerated countPointerSource h text log ∧
      h.parameters? (.function 0) = some ds ∧
      IsWrapperOf "d3d11.dll" 12 ([] ++ (transform [] h).value :: []) text (transform [] h).value
        (.function 0) w ∧
      ds[0]? = some d ∧ d.type.shape = .pointer ∧ d.type.depth = 1 ∧
      w.slots[0]? = some slot ∧ slot.render = "len(pViews or ())" ∧ slot.isAddress = false := by
  obtain ⟨h, text, log, ds, w, hh, -, hds, hw, hP⟩ :=
    exists_isGenerated countPointerSource (.function 0) (fun ds w =>
      ds[0]?.any (fun d : Field => decide (d.type.shape = .pointer ∧ d.type.depth = 1)) &&
        w.slots[0]?.any fun slot : Slot =>
          decide (slot.render = "len(pViews or ())") && !slot.isAddress) (by
        have hsource : countPointerSource.toList = _ := String.toList_ofList
        rw [Grammar.readHeader, Grammar.header, Lexer.lex, hsource]
        decide +kernel)
  simp only [Bool.and_eq_true, Option.any_eq_true, decide_eq_true_eq, Bool.not_eq_true'] at hP
  obtain ⟨⟨d, hd, hshape, hdepth⟩, slot, hslot, hrender, haddress⟩ := hP
  exact ⟨h, text, log, ds, w, d, slot, hh, hds, hw, hd, hshape, hdepth, hslot, hrender, haddress⟩

/-- **Outputs.**  In a module that is written, the wrapper of a function or method takes an output that
is declared as a pointer from its caller as an array exactly if the names of the parameters next to it
make one of them its length, and it is no length itself.  Whether it is annotated with a length does
not matter: an output without a recognized length is allocated as a single value if its type is spelled
as a pointer and not given up, and otherwise is an object of the caller. -/
theorem generate_outputs
    (hread : (Grammar.readHeader strict file source s).1 = .ok h)
    (htransform : (transform prefixes h).failure = none)
    (hgenerate : generate library maxSlots (earlier ++ (transform prefixes h).value :: later) =
      (.ok text, log))
    (hds : h.parameters? callee = some ds)
    (hwritten : callee.IsWritten earlier (transform prefixes h).value) :
    ∃ xs w, (normalizeHeader prefixes h).parameters? callee = some xs ∧
      IsWrapperOf library maxSlots (earlier ++ (transform prefixes h).value :: later) text
        (transform prefixes h).value callee w ∧
      ∀ i d, callee.first ≤ i → ds[i]? = some d → d.type.shape = .pointer → d.isOut = true →
        ∃ x, xs[i]? = some x ∧
          (w.TakesArray i (safeName x.name) ↔ IsCounted xs i ∧ ¬ IsCount xs i) ∧
          (w.Allocates i (safeName x.name) ↔ ¬ IsCounted xs i ∧ ¬ IsCount xs i ∧
            isGivenUp d = false ∧ HasPointerExpr d.type) ∧
          (w.PassesObject i (safeName x.name) ↔ ¬ IsCounted xs i ∧ ¬ IsCount xs i ∧
            ¬ (isGivenUp d = false ∧ HasPointerExpr d.type)) := by
  have hdeclared : h.IsDeclared := Grammar.isDeclared_of_readHeader hread
  obtain ⟨xs, fs, hxs, hfs, hprepared⟩ := exists_prepared hdeclared htransform hds
  obtain ⟨w, hw, hmarshals⟩ := exists_wrapper hgenerate hfs hwritten
  refine ⟨xs, w, hxs, hw, fun i d hi hd hshape hout => ?_⟩
  obtain ⟨f, hf, hprepared⟩ := hprepared i d hd hshape
  obtain ⟨x, hx, hname⟩ := hprepared.name
  have hall : d.type.All CType.IsDeclared Field.IsUnpaired :=
    (Field.all_iff.mp (Field.allOf_iff.mp (areDeclared_parameters? hdeclared hds) d
      (List.mem_of_getElem? hd))).2
  have hallocated := isAllocatedOutput_iff hall hshape hprepared
  refine ⟨x, hx, ?_, ?_, ?_⟩
  · rw [takesArray_iff hmarshals hi hf hprepared.shape hname, ← hprepared.isArray, ← hprepared.isLength,
      Bool.not_eq_true]
  · rw [allocates_iff hmarshals hi hf hprepared.shape hname, hallocated]
    tauto
  · rw [passesObject_iff hmarshals hi hf hprepared.shape hname, ← Bool.not_eq_true, hallocated,
      ← Bool.not_eq_true f.isLength, ← Bool.not_eq_true f.isArray, hprepared.isLength,
      hprepared.isArray]
    tauto

/-- A method with three outputs: a single value, an array without a recognized length, and an array
with one. -/
def outputsSource : String :=
  "typedef struct IVtbl\x7bBEGIN_INTERFACE HRESULT(C*F)(I*This,__out UINT*pValue,UINT Count," ++
    "__out_ecount(Count)UINT*pValues,UINT NumViews,__out_ecount(NumViews)UINT*pViews);\x7dIVtbl;" ++
    "interface I\x7bstruct IVtbl*lpVtbl;\x7d"

/-- The outputs of that method, as `generate_outputs` says. -/
theorem generate_outputs_method :
    ∃ h text log ds, IsGenerated outputsSource h text log ∧
      (Callee.method 0 0).IsWritten [] (transform [] h).value ∧
      h.parameters? (.method 0 0) = some ds ∧
      ds.map Field.isOut = [false, true, false, true, false, true] ∧
      ∃ xs w, (normalizeHeader [] h).parameters? (.method 0 0) = some xs ∧
        IsWrapperOf "d3d11.dll" 12 ([] ++ (transform [] h).value :: []) text (transform [] h).value
          (.method 0 0) w ∧
        ∀ i d, (Callee.method 0 0).first ≤ i → ds[i]? = some d → d.type.shape = .pointer →
          d.isOut = true →
          ∃ x, xs[i]? = some x ∧
            (w.TakesArray i (safeName x.name) ↔ IsCounted xs i ∧ ¬ IsCount xs i) ∧
            (w.Allocates i (safeName x.name) ↔ ¬ IsCounted xs i ∧ ¬ IsCount xs i ∧
              isGivenUp d = false ∧ HasPointerExpr d.type) ∧
            (w.PassesObject i (safeName x.name) ↔ ¬ IsCounted xs i ∧ ¬ IsCount xs i ∧
              ¬ (isGivenUp d = false ∧ HasPointerExpr d.type)) := by
  have hsource : outputsSource.toList = _ :=
    Lexer.toList_append_eq (Lexer.toList_append_eq String.toList_ofList String.toList_ofList)
      String.toList_ofList
  obtain ⟨h, text, log, ds, -, hh, hwritten, hds, -, houts⟩ :=
    exists_isGenerated outputsSource (.method 0 0)
      (fun ds _ => decide (ds.map Field.isOut = [false, true, false, true, false, true])) (by
        rw [Grammar.readHeader, Grammar.header, Lexer.lex, hsource]
        decide +kernel)
  exact ⟨h, text, log, ds, hh, hwritten, hds, of_decide_eq_true houts,
    generate_outputs hh.isRead hh.isTransformed hh.isWritten hds hwritten⟩

/-- An output buffer that is annotated with a length whose name no rule recognizes. -/
def countedOutputSource : String :=
  "HRESULT WINAPI F( UINT Count, __out_ecount(Count) UINT *pValues );\n"

/-- The buffer is not taken from the caller: a single value is allocated for it. -/
theorem wrapper_countedOutput :
    ∃ h text log ds w d, IsGenerated countedOutputSource h text log ∧
      h.parameters? (.function 0) = some ds ∧
      IsWrapperOf "d3d11.dll" 12 ([] ++ (transform [] h).value :: []) text (transform [] h).value
        (.function 0) w ∧
      ds[1]? = some d ∧ d.type.shape = .pointer ∧ d.isOut = true ∧ d.hasCount = true ∧
      w.signature = ["Count"] ∧ w.setup = [("pValues", "ctypes.c_uint32()")] ∧
      w.slots[1]? = some (.output "pValues") := by
  obtain ⟨h, text, log, ds, w, hh, -, hds, hw, hP⟩ :=
    exists_isGenerated countedOutputSource (.function 0) (fun ds w =>
      ds[1]?.any (fun d : Field =>
          decide (d.type.shape = .pointer ∧ d.isOut = true ∧ d.hasCount = true)) &&
        decide (w.signature = ["Count"] ∧ w.setup = [("pValues", "ctypes.c_uint32()")] ∧
          w.slots[1]? = some (Slot.output "pValues"))) (by
        have hsource : countedOutputSource.toList = _ := String.toList_ofList
        rw [Grammar.readHeader, Grammar.header, Lexer.lex, hsource]
        decide +kernel)
  simp only [Bool.and_eq_true, Option.any_eq_true, decide_eq_true_eq] at hP
  obtain ⟨⟨d, hd, hshape, hout, hcount⟩, hsignature, hsetup, hslot⟩ := hP
  exact ⟨h, text, log, ds, w, d, hh, hds, hw, hd, hshape, hout, hcount, hsignature, hsetup, hslot⟩

end

end SdkBindings.Module
