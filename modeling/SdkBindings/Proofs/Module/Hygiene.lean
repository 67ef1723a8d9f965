import SdkBindings.Proofs.Module.Scope

/-!
# What the local variables of a wrapper denote when it returns

A wrapper assigns the local variables of its parameters and then the result.  An assignment takes a name
from the object that it denoted before, so at the return a name denotes what the last assignment to it
has made (`denoted_eq_some_iff`).

The names are made up from the names of the parameters: an allocated output has that name itself, an
array and a buffer have it with an ending, and a keyword gets an underscore.  Parameters with distinct
names can still have local variables with one name, in three ways (`Clashes`): one is a keyword and the
other that keyword with an underscore, or an output is called like the array or buffer of the other one.
And an output may be called like the result.  Apart from that every local variable keeps its object, and
the expressions that are returned denote the objects of their parameters (`wrapper_hygiene`).
-/

namespace SdkBindings.Module

open Transform (transform)

/-! ## Assignments in a row -/

/-- What names denote after assignments to some names in a row, where the first one has a number: the
number of the assignment that has made the object. -/
def assignAll (denoted : String → Option Nat) (next : Nat) : List String → String → Option Nat
  | [] => denoted
  | name :: rest => assignAll (Function.update denoted name (some next)) (next + 1) rest

/-- Assignments in a row are those of the first part and then those of the second one. -/
theorem assignAll_append (denoted : String → Option Nat) (next : Nat) (before after : List String) :
    assignAll denoted next (before ++ after) =
      assignAll (assignAll denoted next before) (next + before.length) after := by
  induction before generalizing denoted next with
  | nil => rfl
  | cons name before ih =>
    rw [List.cons_append, assignAll, ih, assignAll, List.length_cons]
    congr 1
    omega

/-- Assignments to other names change nothing. -/
theorem assignAll_of_not_mem {name : String} {names : List String} (h : name ∉ names)
    (denoted : String → Option Nat) (next : Nat) :
    assignAll denoted next names name = denoted name := by
  induction names generalizing denoted next with
  | nil => rfl
  | cons other rest ih =>
    rw [List.mem_cons, not_or] at h
    rw [assignAll, ih h.2, Function.update_of_ne h.1]

/-- A name that is assigned denotes something new. -/
theorem exists_assignAll_of_mem {name : String} {names : List String} (h : name ∈ names)
    (denoted : String → Option Nat) (next : Nat) :
    ∃ i, assignAll denoted next names name = some i ∧ next ≤ i := by
  induction names generalizing denoted next with
  | nil => cases h
  | cons other rest ih =>
    rw [assignAll]
    by_cases hrest : name ∈ rest
    · obtain ⟨i, hi, hle⟩ := ih hrest (Function.update denoted other (some next)) (next + 1)
      exact ⟨i, hi, by omega⟩
    · obtain rfl : name = other := (List.mem_cons.mp h).resolve_right hrest
      rw [assignAll_of_not_mem hrest, Function.update_self]
      exact ⟨next, rfl, le_rfl⟩

/-- The names that the body of a wrapper assigns, in order. -/
def Wrapper.assigned (w : Wrapper) : List String :=
  w.setup.map Prod.fst ++ [resultName]

/-- The number of the assignment that has made what a name denotes when the wrapper returns. -/
def Wrapper.denoted (w : Wrapper) : String → Option Nat :=
  assignAll (fun _ => none) 0 w.assigned

/-- A name denotes what an assignment to it has made exactly if no later one is to the same name. -/
theorem denoted_eq_some_iff {w : Wrapper} {before after : List String} {name : String}
    (h : w.assigned = before ++ name :: after) :
    w.denoted name = some before.length ↔ name ∉ after := by
  rw [Wrapper.denoted, h, assignAll_append, assignAll, Nat.zero_add]
  constructor
  · intro hdenoted hlater
    obtain ⟨i, hi, hle⟩ := exists_assignAll_of_mem hlater
      (Function.update (assignAll (fun _ => none) 0 before) name (some before.length))
      (before.length + 1)
    cases hi.symm.trans hdenoted
    omega
  · intro hlater
    rw [assignAll_of_not_mem hlater, Function.update_self]

/-! ## Endings of names -/

/-- The last character of a name. -/
def ending? (name : String) : Option Char :=
  name.toList.getLast?

/-- A name ends as its last part does. -/
theorem ending?_append (first second : String) {c : Char} (h : ending? second = some c) :
    ending? (first ++ second) = some c := by
  rw [ending?, String.toList_append, List.getLast?_append, ← ending?, h]
  rfl

/-- No keyword has an underscore. -/
theorem underscore_not_mem_keyword {keyword : String} (h : keyword ∈ keywords) :
    '_' ∉ keyword.toList := by
  revert keyword
  decide +kernel

/-- No keyword is made up with an ending that has one. -/
theorem ne_append_of_mem_keywords {keyword suffix : String} (h : keyword ∈ keywords)
    (hsuffix : '_' ∈ suffix.toList) (front : String) : keyword ≠ front ++ suffix := by
  rintro rfl
  refine underscore_not_mem_keyword h ?_
  rw [String.toList_append]
  exact List.mem_append_right _ hsuffix

/-- Two names of which one is a keyword and the other that keyword with an underscore. -/
def AreTwins (first second : String) : Prop :=
  (first ∈ keywords ∧ second = first ++ "_") ∨ (second ∈ keywords ∧ first = second ++ "_")

/-- Two names that can be bound are one exactly if the names are one or twins. -/
theorem safeName_eq_safeName_iff {first second : String} :
    safeName first = safeName second ↔ first = second ∨ AreTwins first second := by
  have hnot {a b : String} (ha : a ∈ keywords) : a ≠ b ++ "_" :=
    ne_append_of_mem_keywords ha (by decide) b
  unfold safeName AreTwins
  by_cases hfirst : first ∈ keywords <;> by_cases hsecond : second ∈ keywords <;>
    simp only [List.contains_iff_mem, hfirst, hsecond, if_true, if_false, true_and, false_and,
      or_false, false_or]
  · simp [String.append_left_inj, hnot hfirst, hnot hsecond]
  · have hne : first ≠ second := fun h => hsecond (h ▸ hfirst)
    simp [hne, eq_comm]
  · have hne : first ≠ second := fun h => hfirst (h ▸ hsecond)
    simp [hne]

/-- A name that can be bound ends in an array or a buffer exactly if the name does. -/
theorem safeName_eq_append_iff {name front suffix : String} (hsuffix : '_' ∈ suffix.toList)
    (hending : ∃ c, ending? suffix = some c ∧ c ≠ '_') :
    safeName name = front ++ suffix ↔ name = front ++ suffix := by
  unfold safeName
  split
  · rename_i hkeyword
    refine iff_of_false (fun h => ?_)
      (ne_append_of_mem_keywords (List.contains_iff_mem.mp hkeyword) hsuffix front)
    obtain ⟨c, hc, hne⟩ := hending
    have hends := (ending?_append name "_" rfl).symm.trans
      ((congrArg ending? h).trans (ending?_append front _ hc))
    exact hne (Option.some.inj hends).symm
  · rfl

/-! ## Names of local variables -/

/-- What the name of the local variable of a parameter adds to that of the parameter. -/
def suffix? (f : Field) : Option String :=
  match Passing.ofField f with
  | .output _ => some ""
  | .array _ | .fixedArray _ => some "_array"
  | .buffered => some "_ref"
  | .length | .reference | .address | .value => none

/-- The local variables of two parameters with different names have one name: the parameters are twins
that are passed alike, or one is an output that is called like the local variable of the other. -/
def Clashes (f g : Field) : Prop :=
  ∃ s t, suffix? f = some s ∧ suffix? g = some t ∧
    ((s = t ∧ AreTwins f.name g.name) ∨
      (s = "" ∧ t ≠ "" ∧ f.name = safeName g.name ++ t) ∨
      (t = "" ∧ s ≠ "" ∧ g.name = safeName f.name ++ s))

/-- The local variable of a parameter is assigned anew after its object has been made: by the result, or
for one of the parameters behind it. -/
def IsCaptured (f : Field) (last : List Field) : Prop :=
  (isAllocatedOutput f = true ∧ f.name = resultName) ∨ ∃ g ∈ last, Clashes f g

/-- A local variable has the name of its parameter with an ending. -/
theorem localName?_eq (f : Field) : localName? f = (suffix? f).map (safeName f.name ++ ·) := by
  unfold localName? suffix?
  cases Passing.ofField f <;> simp

/-- The ending is empty for an output, and one of two for other parameters. -/
theorem suffix?_cases {f : Field} {s : String} (h : suffix? f = some s) :
    f.isLength = false ∧ ((isAllocatedOutput f = true ∧ s = "") ∨
      (isAllocatedOutput f = false ∧ (s = "_array" ∨ s = "_ref"))) := by
  unfold suffix? at h
  obtain ⟨-, hallocated, hpassing⟩ | ⟨-, -, hpassing⟩ | ⟨htaken, hallocated, houtput, -⟩ :=
    passing_cases f
  · rw [hpassing] at h
    exact ⟨(isUnpaired_of_isAllocatedOutput hallocated).2, .inl ⟨hallocated, (Option.some.inj h).symm⟩⟩
  · rw [hpassing] at h
    cases h
  · have hlength : f.isLength = false := by
      simpa [isTaken, hallocated] using htaken
    refine ⟨hlength, .inr ⟨hallocated, ?_⟩⟩
    cases hpassing : Passing.ofField f <;> rw [hpassing] at h <;> cases h
    · exact absurd hpassing (houtput _)
    · exact .inl rfl
    · exact .inr rfl
    · exact .inl rfl

/-- An ending that is not empty has an underscore and does not end in one. -/
theorem suffix_ends {s : String} (h : s = "_array" ∨ s = "_ref") :
    s ≠ "" ∧ '_' ∈ s.toList ∧ ∃ c, ending? s = some c ∧ c ≠ '_' := by
  obtain rfl | rfl := h
  · exact ⟨by decide, by decide, 'y', by decide, by decide⟩
  · exact ⟨by decide, by decide, 'f', by decide, by decide⟩

/-- Arrays and buffers have different names. -/
theorem append_array_ne_append_ref (front front' : String) : front ++ "_array" ≠ front' ++ "_ref" := by
  intro h
  have hends := (ending?_append front "_array" rfl).symm.trans
    ((congrArg ending? h).trans (ending?_append front' "_ref" rfl))
  cases hends

/-- Two different names with endings make one name in three ways. -/
theorem safeName_append_eq_iff {a b s t : String} (hne : a ≠ b)
    (hs : s = "" ∨ s = "_array" ∨ s = "_ref") (ht : t = "" ∨ t = "_array" ∨ t = "_ref") :
    safeName a ++ s = safeName b ++ t ↔
      (s = t ∧ AreTwins a b) ∨ (s = "" ∧ t ≠ "" ∧ a = safeName b ++ t) ∨
        (t = "" ∧ s ≠ "" ∧ b = safeName a ++ s) := by
  by_cases hsame : s = t
  · subst hsame
    rw [String.append_left_inj, safeName_eq_safeName_iff]
    simp only [hne, false_or, true_and]
    refine (or_iff_left ?_).symm
    rintro (⟨hempty, hnot, -⟩ | ⟨hempty, hnot, -⟩) <;> exact hnot hempty
  · simp only [hsame, false_and, false_or]
    obtain rfl | hs := hs
    · have ht := ht.resolve_left fun h => hsame h.symm
      obtain ⟨hempty, hunderscore, hends⟩ := suffix_ends ht
      rw [String.append_empty, safeName_eq_append_iff hunderscore hends]
      simp [hempty]
    · obtain rfl | ht := ht
      · obtain ⟨hempty, hunderscore, hends⟩ := suffix_ends hs
        rw [String.append_empty, eq_comm, safeName_eq_append_iff hunderscore hends]
        simp [hempty]
      · have hdifferent : safeName a ++ s ≠ safeName b ++ t := by
          obtain rfl | rfl := hs <;> obtain rfl | rfl := ht
          · exact absurd rfl hsame
          · exact append_array_ne_append_ref _ _
          · exact (append_array_ne_append_ref _ _).symm
          · exact absurd rfl hsame
        simp [hdifferent, (suffix_ends hs).1, (suffix_ends ht).1]

/-- Parameters with different names have local variables with one name exactly if they clash. -/
theorem localName?_eq_some_iff_clashes {f g : Field} (hne : f.name ≠ g.name) {name : String}
    (hname : localName? f = some name) : localName? g = some name ↔ Clashes f g := by
  have hends {h : Field} {s : String} (hs : suffix? h = some s) : s = "" ∨ s = "_array" ∨ s = "_ref" :=
    (suffix?_cases hs).2.imp And.right And.right
  rw [localName?_eq] at hname ⊢
  obtain ⟨s, hs, rfl⟩ := Option.map_eq_some_iff.mp hname
  rw [Option.map_eq_some_iff]
  constructor
  · rintro ⟨t, ht, hsame⟩
    exact ⟨s, t, hs, ht, (safeName_append_eq_iff hne (hends hs) (hends ht)).mp hsame.symm⟩
  · rintro ⟨s', t, hs', ht, hsame⟩
    cases hs.symm.trans hs'
    exact ⟨t, ht, ((safeName_append_eq_iff hne (hends hs) (hends ht)).mpr hsame).symm⟩

/-- The local variable of a parameter is called like the result exactly if it is an output of that
name. -/
theorem localName?_eq_resultName_iff {f : Field} :
    localName? f = some resultName ↔ isAllocatedOutput f = true ∧ f.name = resultName := by
  rw [localName?_eq, Option.map_eq_some_iff]
  constructor
  · rintro ⟨s, hs, hname⟩
    obtain ⟨-, ⟨hallocated, rfl⟩ | ⟨-, hsuffix⟩⟩ := suffix?_cases hs
    · refine ⟨hallocated, ?_⟩
      rw [String.append_empty] at hname
      unfold safeName at hname
      split at hname
      · have hends := (ending?_append f.name "_" rfl).symm.trans (congrArg ending? hname)
        exact absurd hends (by decide)
      · exact hname
    · have hunderscore : '_' ∈ resultName.toList := by
        rw [← hname, String.toList_append]
        exact List.mem_append_right _ (suffix_ends hsuffix).2.1
      exact absurd hunderscore (by decide)
  · rintro ⟨hallocated, hname⟩
    refine ⟨"", ?_, ?_⟩
    · have hpassing : Passing.ofField f = .output (pointee f.type.expr) := by
        rw [Passing.ofField, if_pos hallocated]
      rw [suffix?, hpassing]
    · rw [hname]
      decide

/-! ## Hygiene -/

/-- No two parameters have one name, apart from lengths, which have those of their arrays. -/
def Callable.HasDistinctNames (c : Callable) : Prop :=
  ((c.parameters.filter fun f => !f.isLength).map Field.name).Nodup

instance (c : Callable) : Decidable c.HasDistinctNames :=
  inferInstanceAs (Decidable (List.Nodup _))

section

variable {enums : List String} {limit : Int} {c : Callable} {w : Wrapper}

/-- The local variable of a parameter is assigned behind those of the parameters in front of it, and in
front of those of the others and of the result. -/
theorem assigned_of_ok (h : Wrapper.of enums limit c = .ok w) {first last : List Field} {f : Field}
    (hparameters : c.parameters = first ++ f :: last) {name : String} (hname : localName? f = some name) :
    w.assigned = first.filterMap localName? ++
      name :: (last.filterMap localName? ++ [resultName]) := by
  rw [Wrapper.assigned, Wrapper.locals_of_ok h, hparameters, List.filterMap_append,
    List.filterMap_cons_some hname, List.append_assoc, List.cons_append]

/-- A name is assigned again exactly if the local variable is captured. -/
theorem mem_assigned_behind_iff (hnames : c.HasDistinctNames) {first last : List Field} {f : Field}
    (hparameters : c.parameters = first ++ f :: last) {name : String} (hname : localName? f = some name) :
    name ∈ last.filterMap localName? ++ [resultName] ↔ IsCaptured f last := by
  have hlength {g : Field} {name : String} (hg : localName? g = some name) : g.isLength = false := by
    rw [localName?_eq] at hg
    obtain ⟨s, hs, -⟩ := Option.map_eq_some_iff.mp hg
    exact (suffix?_cases hs).1
  have hne {g : Field} (hg : g ∈ last) (hkept : g.isLength = false) : f.name ≠ g.name := by
    rw [Callable.HasDistinctNames, hparameters, List.filter_append,
      List.filter_cons_of_pos (by simp [hlength hname]), List.map_append, List.map_cons] at hnames
    have hbehind := (List.nodup_cons.mp (List.nodup_append.mp hnames).2.1).1
    intro heq
    exact hbehind (heq ▸ List.mem_map_of_mem (List.mem_filter.mpr ⟨hg, by simp [hkept]⟩))
  rw [List.mem_append, List.mem_singleton, List.mem_filterMap, or_comm, IsCaptured,
    ← localName?_eq_resultName_iff, hname, Option.some.injEq]
  refine or_congr_right ⟨?_, ?_⟩
  · rintro ⟨g, hg, hlocal⟩
    exact ⟨g, hg, (localName?_eq_some_iff_clashes (hne hg (hlength hlocal)) hname).mp hlocal⟩
  · rintro ⟨g, hg, hclashes⟩
    have hkept : g.isLength = false := by
      obtain ⟨-, t, -, ht, -⟩ := id hclashes
      exact (suffix?_cases ht).1
    exact ⟨g, hg, (localName?_eq_some_iff_clashes (hne hg hkept) hname).mpr hclashes⟩

end

/-- Items behind a place of a list. -/
theorem exists_getElem?_behind_iff {α : Type} {before after : List α} {x y : α} :
    (∃ i, before.length < i ∧ (before ++ x :: after)[i]? = some y) ↔ y ∈ after := by
  constructor
  · rintro ⟨i, hi, hy⟩
    obtain ⟨k, rfl⟩ : ∃ k, i = before.length + (k + 1) := ⟨i - before.length - 1, by omega⟩
    rw [List.getElem?_append_right (by omega), Nat.add_sub_cancel_left, List.getElem?_cons_succ] at hy
    exact List.mem_of_getElem? hy
  · intro hy
    obtain ⟨k, hk⟩ := List.mem_iff_getElem?.mp hy
    refine ⟨before.length + (k + 1), by omega, ?_⟩
    rwa [List.getElem?_append_right (by omega), Nat.add_sub_cancel_left, List.getElem?_cons_succ]

/-- What holds of the local variables of a wrapper when it returns: the name of the result denotes the
result, the expressions that are returned are the result and the local variables of the parameters, and
each local variable denotes the object that was made for its parameter exactly if it is not captured. -/
structure Wrapper.IsHygienic (c : Callable) (w : Wrapper) : Prop where
  /-- The result is what its name denotes. -/
  result : w.denoted resultName = some w.setup.length
  /-- What is returned. -/
  returns : ∃ parts, List.Forall₂ IsReturnOf c.parameters parts ∧
    w.returns = (if w.result = .returned then [resultName] else []) ++ parts.flatten
  /-- The object of a parameter is made by the assignment at a place.  The name is assigned again exactly
  if the local variable is captured, and otherwise denotes that object. -/
  locals : ∀ first f last name, c.parameters = first ++ f :: last → localName? f = some name →
    ∃ place value, w.setup[place]? = some (name, value) ∧
      (w.setup.take place).map Prod.fst = first.filterMap localName? ∧
      ((∃ later, place < later ∧ w.assigned[later]? = some name) ↔ IsCaptured f last) ∧
      (w.denoted name = some place ↔ ¬ IsCaptured f last)

section

variable {enums : List String} {limit : Int} {c : Callable} {w : Wrapper}

/-- The object of a parameter is made behind those of the parameters in front of it. -/
theorem exists_place (h : Wrapper.of enums limit c = .ok w) {first last : List Field} {f : Field}
    (hparameters : c.parameters = first ++ f :: last) {name : String} (hname : localName? f = some name) :
    ∃ value, w.setup[(first.filterMap localName?).length]? = some (name, value) ∧
      (w.setup.take (first.filterMap localName?).length).map Prod.fst = first.filterMap localName? := by
  have hlocals := Wrapper.locals_of_ok h
  rw [hparameters, List.filterMap_append, List.filterMap_cons_some hname] at hlocals
  have hplace : (w.setup.map Prod.fst)[(first.filterMap localName?).length]? = some name := by
    rw [hlocals, List.getElem?_append_right le_rfl, Nat.sub_self]
    rfl
  rw [List.getElem?_map, Option.map_eq_some_iff] at hplace
  obtain ⟨⟨name', value⟩, hsetup, rfl⟩ := hplace
  exact ⟨value, hsetup, by rw [List.map_take, hlocals, List.take_left]⟩

/-- **Hygiene.**  In a wrapper of parameters with distinct names the result keeps its name, and so does
the object of each parameter, unless the parameter is an output called like the result or clashes with a
parameter behind it. -/
theorem wrapper_hygiene (h : Wrapper.of enums limit c = .ok w) (hnames : c.HasDistinctNames) :
    w.IsHygienic c := by
  refine ⟨?_, ⟨c.parameters.map fun f => (marshal enums f).outputs, ?_, ?_⟩,
    fun first f last name hparameters hname => ?_⟩
  · have hresult : w.assigned = w.setup.map Prod.fst ++ resultName :: [] := rfl
    have hlength : (w.setup.map Prod.fst).length = w.setup.length := List.length_map Prod.fst
    rw [← hlength, denoted_eq_some_iff hresult]
    exact List.not_mem_nil
  · rw [List.forall₂_map_right_iff]
    exact List.forall₂_same.mpr fun f _ => isReturnOf_marshal enums f
  · rw [Wrapper.returns, Wrapper.outputs_of_ok h, List.flatMap_def]
    split <;> rfl
  · obtain ⟨value, hsetup, hbefore⟩ := exists_place h hparameters hname
    have hassigned := assigned_of_ok h hparameters hname
    refine ⟨_, value, hsetup, hbefore, ?_, ?_⟩
    · rw [hassigned, exists_getElem?_behind_iff, mem_assigned_behind_iff hnames hparameters hname]
    · rw [denoted_eq_some_iff hassigned, mem_assigned_behind_iff hnames hparameters hname]

end

/-- The local variables of the method with an array, its length and an output. -/
theorem wrapper_hygiene_countedMethod :
    ∃ w, Wrapper.of [] 12 countedMethod = .ok w ∧ countedMethod.HasDistinctNames ∧
      w.IsHygienic countedMethod := by
  have hok : (Wrapper.of [] 12 countedMethod).isOk = true := by decide +kernel
  have hnames : countedMethod.HasDistinctNames := by decide +kernel
  cases hw : Wrapper.of [] 12 countedMethod with
  | error e =>
    rw [hw] at hok
    cases hok
  | ok w => exact ⟨w, rfl, hnames, wrapper_hygiene hw hnames⟩

/-- A function with an output that is called like the result. -/
def resultOutputSource : String :=
  "HRESULT WINAPI F( __out UINT *ret );\n"

/-- The wrapper returns the value of what it calls `ret`, and that is not the object that it has made for
the output, but the result of the call. -/
theorem wrapper_resultOutput :
    ∃ h text log ds w, IsGenerated resultOutputSource h text log ∧
      h.parameters? (.function 0) = some ds ∧ ds.map Field.name = ["ret"] ∧
      IsWrapperOf "d3d11.dll" 12 ([] ++ (transform [] h).value :: []) text (transform [] h).value
        (.function 0) w ∧
      w.setup = [("ret", "ctypes.c_uint32()")] ∧ w.slots = [.output "ret", .zero, .zero] ∧
      w.returns = ["ret.value"] ∧ w.denoted "ret" = some 1 := by
  obtain ⟨h, text, log, ds, w, hh, -, hds, hw, hP⟩ :=
    exists_isGenerated resultOutputSource (.function 0) (fun ds w =>
      decide (ds.map Field.name = ["ret"] ∧ w.setup = [("ret", "ctypes.c_uint32()")] ∧
        w.slots = [.output "ret", .zero, .zero] ∧ w.returns = ["ret.value"] ∧
        w.denoted "ret" = some 1)) (by
          -- evaluated from the characters of the text, so that the kernel builds no bytes
          have hsource : resultOutputSource.toList = _ := String.toList_ofList
          rw [Grammar.readHeader, Grammar.header, Lexer.lex, hsource]
          decide +kernel)
  obtain ⟨hname, hsetup, hslots, hreturns, hdenoted⟩ := of_decide_eq_true hP
  exact ⟨h, text, log, ds, w, hh, hds, hname, hw, hsetup, hslots, hreturns, hdenoted⟩

end SdkBindings.Module
