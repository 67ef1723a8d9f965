import Mathlib.Data.List.Forall2
import SdkBindings.Proofs.Module.Lines
import SdkBindings.Proofs.Numeral.Hexadecimal
import SdkBindings.Proofs.Outcome

/-!
# Legible modules

What goes into a module as it is comes from the headers: names, types, values and texts that are left
out in a remark.  If the names are words and none of the other texts holds a line end (`IsLegible`),
every line of the module below its support code is legible (`isLegible_moduleLines`), so that what a
reader finds in the text is what was written (`exists_shown`).  What is above it is read as it stands
(`introductionLines_read`).

Each step of the writer has legible results (`Gives`).  Steps compose over the members of a list and
under a heading (`Gives.mapM`, `Gives.section`).
-/

namespace SdkBindings.Module

/-! ## Legible headers -/

/-- The name of a field is a word and its type is on one line. -/
def ShownField (f : Field) : Prop :=
  IsWord f.name ∧ IsInline f.type.expr

instance : DecidablePred ShownField :=
  fun f => inferInstanceAs (Decidable (IsWord f.name ∧ IsInline f.type.expr))

/-- A field is shown, the names of its members are on one line, and its parameters are shown. -/
def LegibleField (f : Field) : Prop :=
  ShownField f ∧ (∀ m ∈ f.type.members, IsInline m.name) ∧ ∀ p ∈ f.type.parameters, ShownField p

instance : DecidablePred LegibleField := fun f =>
  inferInstanceAs (Decidable (ShownField f ∧ (∀ m ∈ f.type.members, IsInline m.name) ∧
    ∀ p ∈ f.type.parameters, ShownField p))

/-- What a module shows of a header is legible: its names are words, and no other text of it holds a
line end. -/
structure LegibleHeader (h : Header) : Prop where
  /-- The name of the header is on one line. -/
  file : IsInline h.file
  /-- Macros are named by words, with values on one line. -/
  macros : ∀ m ∈ h.macros, IsWord m.ident ∧ IsInline m.value.resolve
  /-- Aliases are named by words, with targets on one line. -/
  aliases : ∀ a ∈ h.aliases, IsWord a.ident ∧ IsInline a.target
  /-- Enumerations are named by words, and so are their constants, with values on one line. -/
  enums : ∀ e ∈ h.enums, IsWord e.ident ∧
    ∀ c ∈ e.enumerators, IsWord c.ident ∧ IsInline c.value.resolve
  /-- Structs are named by words, and their fields are legible. -/
  structs : ∀ s ∈ h.structs, IsWord s.ident ∧ IsInline s.guid ∧ ∀ f ∈ s.fields, LegibleField f
  /-- Tables of methods are named by words, and their fields are legible. -/
  tables : ∀ s ∈ h.structs, ∀ t ∈ h.vtable? s, IsWord t.ident ∧ ∀ f ∈ t.fields, LegibleField f
  /-- Functions are named by words, and their parameters are shown. -/
  functions : ∀ f ∈ h.functions, IsWord f.ident ∧ IsInline f.exportName ∧
    ∀ p ∈ f.parameters, ShownField p

/-- A module is legible if the name of its library is on one line and its headers are legible. -/
structure IsLegible (library : String) (project : Project) : Prop where
  /-- The name of the library is on one line. -/
  library : IsInline library
  /-- The headers are legible. -/
  headers : ∀ h ∈ project, LegibleHeader h

/-! ## Steps of the writer and their results -/

/-- A step of which every result is as `Q` says. -/
def Gives {α : Type} (Q : α → Prop) (m : Writing α) : Prop :=
  ∀ w a w', m.run w = (.ok a, w') → Q a

/-- A step may have any result. -/
theorem gives_any {α : Type} (m : Writing α) : Gives (fun _ => True) m :=
  fun _ _ _ _ => trivial

/-- A result. -/
theorem gives_pure {α : Type} {Q : α → Prop} {a : α} (h : Q a) : Gives Q (pure a) := by
  intro w b w' hrun
  rwa [(run_pure_ok hrun).1]

/-- A failure has no result. -/
theorem gives_throw {α : Type} {Q : α → Prop} (e : Error) : Gives Q (throw e : Writing α) := by
  intro w a w' hrun
  cases hrun

/-- A step after a step. -/
theorem Gives.bind {α β : Type} {Q : α → Prop} {R : β → Prop} {m : Writing α} {k : α → Writing β}
    (hm : Gives Q m) (hk : ∀ a, Q a → Gives R (k a)) : Gives R (m >>= k) := by
  intro w b w'' hrun
  obtain ⟨a, w', ha, hb⟩ := run_bind_ok hrun
  exact hk a (hm w a w' ha) w' b w'' hb

/-- The same step for each member of a list. -/
theorem Gives.mapM {α β : Type} {Q : β → Prop} {f : α → Writing β} {xs : List α}
    (hf : ∀ x ∈ xs, Gives Q (f x)) : Gives (fun ys => ∀ y ∈ ys, Q y) (xs.mapM f) := by
  induction xs with
  | nil => exact gives_pure (List.forall_mem_nil Q)
  | cons x xs ih =>
    rw [List.forall_mem_cons] at hf
    rw [List.mapM_cons]
    refine hf.1.bind fun y hy => (ih hf.2).bind fun ys hys => gives_pure ?_
    exact List.forall_mem_cons.mpr ⟨hy, hys⟩

/-- A result that is passed on as a step. -/
theorem gives_ofExcept {α : Type} {Q : α → Prop} {result : Except Error α}
    (h : ∀ a, result = .ok a → Q a) : Gives Q (ofExcept result) := by
  cases result with
  | error e => exact gives_throw e
  | ok a => exact gives_pure (h a rfl)

/-- Lines are a stretch of the section that has them under a heading. -/
theorem infix_underHeading (heading lines ending : List Line) :
    lines <:+: underHeading heading lines ending := by
  unfold underHeading
  split
  · rename_i hnone
    exact hnone ▸ List.nil_infix
  · exact ⟨heading, ending, rfl⟩

/-- Lines that are all as `P` says are so under a heading that is. -/
theorem forall_mem_underHeading {P : Line → Prop} {heading lines ending : List Line}
    (hheading : ∀ line ∈ heading, P line) (hlines : ∀ line ∈ lines, P line)
    (hending : ∀ line ∈ ending, P line) : ∀ line ∈ underHeading heading lines ending, P line := by
  unfold underHeading
  split
  · exact List.forall_mem_nil P
  · rw [List.forall_mem_append, List.forall_mem_append]
    exact ⟨⟨hheading, hlines⟩, hending⟩

/-- The lines of steps for the members of a list, in a row. -/
theorem Gives.flatten {α : Type} {P : Line → Prop} {f : α → Writing (List Line)} {xs : List α}
    (hf : ∀ x ∈ xs, Gives (fun lines => ∀ line ∈ lines, P line) (f x)) :
    Gives (fun parts => ∀ line ∈ parts.flatten, P line) (xs.mapM f) := by
  intro w parts w' hrun line hline
  obtain ⟨lines, hlines, hline⟩ := List.mem_flatten.mp hline
  exact Gives.mapM hf w parts w' hrun lines hlines line hline

/-- The lines of steps for the members of a list, under a heading. -/
theorem Gives.section {α : Type} {P : Line → Prop} {f : α → Writing (List Line)} {xs : List α}
    (hf : ∀ x ∈ xs, Gives (fun lines => ∀ line ∈ lines, P line) (f x)) {heading ending : List Line}
    (hheading : ∀ line ∈ heading, P line) (hending : ∀ line ∈ ending, P line) :
    Gives (fun lines => ∀ line ∈ lines, P line) (do
      let lines ← xs.mapM f
      pure (underHeading heading lines.flatten ending)) :=
  (Gives.flatten hf).bind fun _ hlines => gives_pure (forall_mem_underHeading hheading hlines hending)

/-! ## Names, numbers and expressions -/

/-- Two words in a row are a word. -/
theorem isWord_append {a b : String} : IsWord (a ++ b) ↔ IsWord a ∧ IsWord b := by
  simp only [IsWord, String.toList_append, List.forall_mem_append]

/-- A word makes a word as a name that can be bound. -/
theorem IsWord.safeName {name : String} (h : IsWord name) : IsWord (safeName name) := by
  unfold Module.safeName
  split
  · exact isWord_append.mpr ⟨h, by decide +kernel⟩
  · exact h

/-- A number is on one line. -/
theorem isInline_toString (n : Nat) : IsInline (toString n) := by
  intro hmem
  rw [Nat.toString_eq_repr, Nat.repr, String.toList_ofList] at hmem
  cases Nat.isDigit_of_mem_toDigits (by decide) (by decide) hmem

/-- A hexadecimal number is on one line. -/
theorem isInline_hexUpper (width : Nat) (n : Int) : IsInline (Text.hexUpper width n) := by
  have hdigits (width n : Nat) : '\n' ∉ (Text.hexUpper width (n : Int)).toList := by
    intro hmem
    cases Text.isHexDigit_of_mem_hexUpper hmem
  cases n with
  | ofNat m => exact hdigits width m
  | negSucc m =>
    have hlist : (Text.hexUpper width (.negSucc m)).toList =
        '-' :: (Text.hexUpper (width - 1) ((m + 1 : Nat) : Int)).toList := by
      have hpositive : ¬ ((m + 1 : Nat) : Int) < 0 := Int.not_lt.mpr (Int.natCast_nonneg _)
      simp only [Text.hexUpper, Int.negSucc_lt_zero, if_true, if_neg hpositive, String.toList_ofList]
      rfl
    rw [IsInline, hlist, List.mem_cons, not_or]
    exact ⟨by decide, hdigits _ _⟩

/-- The expression of a text on one line is on one line. -/
theorem isInline_expression {raw text : String} (h : expression raw = .ok text)
    (hraw : IsInline raw) : IsInline text := by
  intro hmem
  rcases mem_of_mem_expression h hmem with hmem | hmem
  · exact hraw hmem
  · exact absurd hmem (by decide)

/-- A value that is not known is written as its text. -/
theorem resolve_of_unresolved {value : Value} (h : value.isResolved = false) :
    value.resolve = value.raw := by
  rw [Value.isResolved, Bool.or_eq_false_iff, Option.isSome_eq_false_iff, Option.isSome_eq_false_iff,
    Option.isNone_iff_eq_none, Option.isNone_iff_eq_none] at h
  rw [Value.resolve, h.1, h.2]

/-! ## Constants -/

/-- The line of a constant is legible. -/
theorem assignment_legible {name : String} {value : Value} (hname : IsWord name)
    (hvalue : IsInline value.resolve) : Gives Line.IsLegible (assignment name value) := by
  unfold assignment
  cases hresolved : value.isResolved with
  | true => exact (gives_any _).bind fun _ _ => gives_pure ⟨hname, hvalue⟩
  | false =>
    rw [resolve_of_unresolved hresolved] at hvalue
    cases htext : expression value.raw with
    | error e => exact gives_throw _
    | ok text =>
      refine (gives_any _).bind fun written _ => ?_
      split
      · refine (gives_any _).bind fun _ _ => gives_pure ?_
        exact isInline_append.mpr ⟨isInline_append.mpr ⟨hname.isInline, by decide⟩, hvalue⟩
      · exact (gives_any _).bind fun _ _ => gives_pure ⟨hname, isInline_expression htext hvalue⟩

/-- Lines are legible. -/
def LegibleLines (lines : List Line) : Prop :=
  ∀ line ∈ lines, line.IsLegible

/-- What is written for a macro is legible. -/
theorem constantLine_legible {m : Macro} (hname : IsWord m.ident) (hvalue : IsInline m.value.resolve) :
    Gives LegibleLines (constantLine m) := by
  unfold constantLine
  refine (gives_any _).bind fun written _ => ?_
  dsimp only
  split
  · exact gives_pure (List.forall_mem_nil _)
  split
  · exact gives_pure (List.forall_mem_nil _)
  refine (assignment_legible hname.safeName hvalue).bind fun line hline => ?_
  have hlines : LegibleLines [line] := List.forall_mem_singleton.mpr hline
  split
  · exact (gives_any _).bind fun _ _ => gives_pure hlines
  · exact gives_pure hlines

/-- What is written for a constant of an enumeration is legible. -/
theorem enumeratorLine_legible {c : Enumerator} (hname : IsWord c.ident)
    (hvalue : IsInline c.value.resolve) : Gives LegibleLines (enumeratorLine c) := by
  unfold enumeratorLine
  dsimp only
  split
  · exact gives_pure (List.forall_mem_nil _)
  · refine (assignment_legible hname.safeName hvalue).bind fun line hline => gives_pure ?_
    exact List.forall_mem_singleton.mpr hline

/-- An empty line is legible. -/
theorem isLegible_blank : Line.blank.IsLegible :=
  .inl rfl

/-- The constants of a header are legible. -/
theorem constantsSection_legible {h : Header} (hh : LegibleHeader h) :
    Gives LegibleLines (constantsSection h) := by
  refine Gives.section (fun m hm => constantLine_legible (hh.macros m hm).1 (hh.macros m hm).2) ?_ ?_
  · exact List.forall_mem_singleton.mpr (isInline_append.mpr ⟨by decide, hh.file⟩)
  · simp [isLegible_blank]

/-! ## Wrappers -/

/-- What a pointer on one line points to is on one line. -/
theorem isInline_pointee {expr : String} (h : IsInline expr) : IsInline (pointee expr) := by
  intro hmem
  rw [pointee, String.toList_ofList] at hmem
  exact h (List.mem_of_mem_drop ((List.dropLast_sublist _).mem hmem))

/-- The type that the body of a wrapper passes a parameter with: that of an output, or of the elements of
an array. -/
def bodyType? (f : Field) : Option String :=
  match Passing.ofField f with
  | .output type | .array type | .fixedArray type => some type
  | _ => none

/-- The type that the body of a wrapper passes a parameter with is on one line. -/
theorem isInline_bodyType {f : Field} (hf : IsInline f.type.expr) :
    ∀ type ∈ bodyType? f, IsInline type := by
  have hnone : ∀ type ∈ (none : Option String), IsInline type := fun _ h => nomatch h
  have hsome {type : String} (h : IsInline type) : ∀ t ∈ some type, IsInline t := by
    rintro t ⟨⟩
    exact h
  unfold bodyType?
  fun_cases Passing.ofField f with
  | case1 => exact hsome (isInline_pointee hf)
  | case3 => exact hsome hf
  | case6 => exact hsome hf
  | _ => exact hnone

/-- What a parameter adds to a wrapper is on one line each, and its local variable is a word. -/
structure LegiblePart (part : Marshalled) : Prop where
  /-- The parameter is on one line. -/
  signature : ∀ name ∈ part.signature, IsInline name
  /-- The local variable is a word, with a value on one line. -/
  setup : ∀ binding ∈ part.setup, IsWord binding.1 ∧ IsInline binding.2
  /-- The slot is on one line. -/
  slot : IsInline part.slot.render
  /-- What is returned is on one line. -/
  outputs : ∀ output ∈ part.outputs, IsInline output

/-- A text on one line is on one line between others. -/
theorem isInline_between {before text after : String} (h : IsInline text)
    (hbefore : IsInline before) (hafter : IsInline after) :
    IsInline (before ++ text ++ after) :=
  isInline_append.mpr ⟨isInline_append.mpr ⟨hbefore, h⟩, hafter⟩

/-- A shown parameter adds legible lines. -/
theorem marshal_legible (enums : List String) {f : Field} (hf : ShownField f) :
    LegiblePart (marshal enums f) := by
  have hname := hf.1.safeName
  have hinline := hname.isInline
  have htype := isInline_bodyType hf.2
  have harray : IsWord (safeName f.name ++ "_array") := isWord_append.mpr ⟨hname, by decide +kernel⟩
  have hbuffer : IsWord (safeName f.name ++ "_ref") := isWord_append.mpr ⟨hname, by decide +kernel⟩
  have hreturned {object : String} (h : IsInline object) :
      ∀ output ∈ (if f.isOut then [object] else []), IsInline output := by
    split
    · exact List.forall_mem_singleton.mpr h
    · exact List.forall_mem_nil _
  have hplain {slot : Slot} (hslot : IsInline slot.render) :
      LegiblePart ⟨[safeName f.name], [], slot, []⟩ :=
    ⟨List.forall_mem_singleton.mpr hinline, List.forall_mem_nil _, hslot, List.forall_mem_nil _⟩
  -- an array is built of its type and the parameter
  have hbuilt {opening type : String} (htype : IsInline type) (h : IsInline opening) :
      IsInline (opening ++ type ++ ", " ++ safeName f.name ++ ")") :=
    isInline_append.mpr ⟨isInline_append.mpr ⟨isInline_between htype h (by decide), hinline⟩, by decide⟩
  unfold marshal
  cases hpassing : Passing.ofField f with
  | output type =>
    have htype := htype type (by rw [bodyType?, hpassing]; rfl)
    refine ⟨List.forall_mem_nil _, List.forall_mem_singleton.mpr ⟨hname, ?_⟩,
      isInline_between hinline (by decide) (by decide), List.forall_mem_singleton.mpr ?_⟩
    · exact isInline_append.mpr ⟨htype, by decide⟩
    · split
      · exact isInline_append.mpr ⟨hinline, by decide⟩
      · exact hinline
  | length =>
    exact ⟨List.forall_mem_nil _, List.forall_mem_nil _,
      isInline_between hinline (by decide) (by decide), List.forall_mem_nil _⟩
  | array type =>
    have htype := htype type (by rw [bodyType?, hpassing]; rfl)
    exact ⟨List.forall_mem_singleton.mpr hinline,
      List.forall_mem_singleton.mpr ⟨harray, hbuilt htype (by decide)⟩,
      isInline_between harray.isInline (by decide) (by decide), hreturned harray.isInline⟩
  | buffered =>
    exact ⟨List.forall_mem_singleton.mpr hinline,
      List.forall_mem_singleton.mpr ⟨hbuffer, isInline_between hinline (by decide) (by decide)⟩,
      isInline_between hbuffer.isInline (by decide) (by decide), List.forall_mem_nil _⟩
  | reference => exact hplain (isInline_between hinline (by decide) (by decide))
  | fixedArray type =>
    have htype := htype type (by rw [bodyType?, hpassing]; rfl)
    exact ⟨List.forall_mem_singleton.mpr hinline,
      List.forall_mem_singleton.mpr ⟨harray, hbuilt htype (by decide)⟩,
      isInline_between harray.isInline (by decide) (by decide), hreturned harray.isInline⟩
  | address => exact hplain (isInline_between hinline (by decide) (by decide))
  | value => exact hplain (isInline_between hinline (by decide) (by decide))

/-- A line of the body of a wrapper: on one line, and no member of a layout when it is indented. -/
def PlainText (text : String) : Prop :=
  IsInline text ∧ text.toList.head? ≠ some '('

/-- The lines of the body of a wrapper are plain. -/
theorem body_plain {w : Wrapper} (hsetup : ∀ binding ∈ w.setup, IsWord binding.1 ∧ IsInline binding.2)
    (htarget : IsInline w.target) (hslots : ∀ slot ∈ w.slots, IsInline slot.render)
    (houtputs : ∀ output ∈ w.outputs, IsInline output) : ∀ text ∈ w.body, PlainText text := by
  have hindented {text : String} (h : IsInline text) : PlainText (indentation 1 ++ text ++ ",") := by
    refine ⟨isInline_between h (by decide) (by decide), ?_⟩
    simp [indentation]
  have hreturns : ∀ output ∈ w.returns, IsInline output := by
    unfold Wrapper.returns
    split
    · exact List.forall_mem_cons.mpr ⟨by decide, houtputs⟩
    · exact houtputs
  intro text htext
  simp only [Wrapper.body, List.mem_append, List.mem_map, List.mem_cons, List.not_mem_nil,
    or_false] at htext
  rcases htext with ((((⟨⟨name, value⟩, hmem, rfl⟩ | htext) | ⟨slot, hslot, rfl⟩) | rfl) | htext) | htext
  · obtain ⟨hname, hvalue⟩ := hsetup _ hmem
    refine ⟨isInline_append.mpr ⟨isInline_append.mpr ⟨hname.isInline, by decide⟩, hvalue⟩, fun h => ?_⟩
    obtain ⟨rest, hrest⟩ := List.head?_eq_some_iff.mp h
    cases hname.eq_of_append_eq (isWordCharacter_mark (by decide))
      ((toList_render_bind name value).symm.trans hrest)
  · rcases htext with rfl | rfl | rfl
    · refine ⟨isInline_append.mpr ⟨isInline_append.mpr ⟨by decide, ?_⟩, by decide⟩, by simp⟩
      exact isInline_append.mpr ⟨by decide, isInline_toString _⟩
    · exact hindented htarget
    · exact hindented (isInline_toString _)
  · exact hindented (hslots slot hslot)
  · exact ⟨by decide, by decide⟩
  · split at htext
    · obtain rfl := List.mem_singleton.mp htext
      exact ⟨by decide, by decide⟩
    · cases htext
  · split at htext
    · cases htext
    · obtain rfl := List.mem_singleton.mp htext
      refine ⟨isInline_append.mpr ⟨by decide, isInline_intercalate (by decide) hreturns⟩, by simp⟩

/-- Plain text inside a class or function is legible. -/
theorem PlainText.isLegible {text : String} (h : PlainText text) (level : Nat) :
    (Line.body (level + 1) text).IsLegible :=
  ⟨h.1, fun hlevel => absurd hlevel (Nat.succ_ne_zero level), fun _ => h.2⟩

/-- Text on one line is legible further inside. -/
theorem isLegible_inside {text : String} (h : IsInline text) (level : Nat) :
    (Line.body (level + 2) text).IsLegible :=
  ⟨h, fun hlevel => absurd hlevel (Nat.succ_ne_zero _), fun hlevel => by omega⟩

/-- The lines of a wrapper are legible. -/
theorem wrapper_legible {enums : List String} {limit : Int} {c : Callable} {w : Wrapper}
    (h : Wrapper.of enums limit c = .ok w) (hname : IsWord c.name) (htarget : IsInline c.target)
    (hparameters : ∀ p ∈ c.parameters, ShownField p) (level : Nat) : LegibleLines (w.lines level) := by
  have hparts : ∀ part ∈ c.parameters.map (marshal enums), LegiblePart part := by
    rw [List.forall_mem_map]
    exact fun p hp => marshal_legible enums (hparameters p hp)
  obtain ⟨helper, -, h⟩ := bind_eq_ok h
  obtain ⟨_, -, h⟩ := bind_eq_ok h
  cases h
  have hsignature : ∀ name ∈ (if c.hasReceiver = true then ["self"] else []) ++
      (c.parameters.map (marshal enums)).flatMap Marshalled.signature, IsInline name := by
    rw [List.forall_mem_append]
    refine ⟨?_, fun name hmem => ?_⟩
    · split
      · exact List.forall_mem_singleton.mpr (by decide)
      · exact List.forall_mem_nil _
    · obtain ⟨part, hpart, hmem⟩ := List.mem_flatMap.mp hmem
      exact (hparts part hpart).signature name hmem
  refine List.forall_mem_cons.mpr ⟨⟨?_, fun _ => ?_, by simp⟩, List.forall_mem_map.mpr ?_⟩
  · refine isInline_append.mpr ⟨isInline_append.mpr ⟨?_, isInline_intercalate (by decide) hsignature⟩,
      by decide⟩
    exact isInline_between hname.isInline (by decide) (by decide)
  · exact ⟨c.name, _, hname, by rw [String.append_assoc]⟩
  · refine fun text htext => (body_plain ?_ htarget ?_ ?_ text htext).isLegible level
    · intro binding hmem
      obtain ⟨part, hpart, hmem⟩ := List.mem_flatMap.mp hmem
      exact (hparts part hpart).setup binding hmem
    · intro slot hslot
      rcases List.mem_append.mp hslot with hslot | hslot
      · rcases List.mem_append.mp hslot with hslot | hslot
        · split at hslot
          · obtain rfl := List.mem_singleton.mp hslot
            decide
          · cases hslot
        · obtain ⟨part, hpart, rfl⟩ := List.mem_map.mp hslot
          exact (hparts part hpart).slot
      · rw [List.eq_of_mem_replicate hslot]
        decide
    · intro output hmem
      obtain ⟨part, hpart, hmem⟩ := List.mem_flatMap.mp hmem
      exact (hparts part hpart).outputs output hmem

/-- The functions of a header are legible. -/
theorem functionsSection_legible (ctx : Context) {h : Header} (hh : LegibleHeader h) :
    Gives LegibleLines (functionsSection ctx h) := by
  refine Gives.section (fun f hf => ?_) ?_ (List.forall_mem_nil _)
  · obtain ⟨hname, hexport, hparameters⟩ := hh.functions f hf
    refine (gives_ofExcept fun w hw => ?_).bind fun w (hw : LegibleLines (w.lines 0)) => gives_pure ?_
    · exact wrapper_legible hw hname.safeName (isInline_between hexport (by decide) (by decide)) hparameters 0
    · exact List.forall_mem_append.mpr ⟨hw, by simp [isLegible_blank]⟩
  · have hheading : IsInline ("Functions: " ++ h.file) := isInline_append.mpr ⟨by decide, hh.file⟩
    exact List.forall_mem_cons.mpr ⟨hheading, List.forall_mem_singleton.mpr isLegible_blank⟩

/-! ## Classes -/

/-- The method that gives an interface identifier is legible. -/
theorem guidAccessor_legible {s : Struct} (hguid : IsInline s.guid) {lines : List Line}
    (h : guidAccessor s = .ok lines) : LegibleLines lines := by
  unfold guidAccessor at h
  split at h
  · cases h
  · rename_i parts hparts
    cases h
    have hdigits {width : Nat} {n : Int} : IsInline ("0x" ++ Text.hexUpper width n ++ ",") :=
      isInline_between (isInline_hexUpper width n) (by decide) (by decide)
    have hbytes : IsInline (", ".intercalate (parts.data4.map fun b => "0x" ++ Text.hexUpper 2 b)) := by
      refine isInline_intercalate (by decide) (List.forall_mem_map.mpr fun b _ => ?_)
      exact isInline_append.mpr ⟨by decide, isInline_hexUpper 2 b⟩
    simp only [LegibleLines, List.forall_mem_cons]
    refine ⟨PlainText.isLegible ⟨by decide, by decide⟩ 0,
      PlainText.isLegible ⟨by decide, by decide⟩ 0, isLegible_inside ?_ 0,
      isLegible_inside (by decide) 0, isLegible_inside hdigits 1, isLegible_inside hdigits 1,
      isLegible_inside hdigits 1, isLegible_inside ?_ 1, isLegible_inside (by decide) 0,
      List.forall_mem_nil _⟩
    · exact isInline_between hguid (by decide) (by decide)
    · exact isInline_between hbytes (by decide) (by decide)

/-- The wrapper of a legible method is legible. -/
theorem methodWrapper_legible {ctx : Context} {ident : String} {f : Field} (hf : LegibleField f)
    (hname : IsWord f.name) {w : Wrapper} (h : methodWrapper ctx ident f = .ok w) (level : Nat) :
    LegibleLines (w.lines level) := by
  have htarget : IsInline ("self.lpVtbl.contents." ++ f.name) :=
    isInline_append.mpr ⟨by decide, hname.isInline⟩
  unfold methodWrapper at h
  dsimp only at h
  split at h
  · rename_i receiver parameters hparameters
    split at h
    · refine wrapper_legible h hname.safeName htarget (fun p hp => hf.2.2 p ?_) level
      rw [hparameters]
      exact List.mem_cons_of_mem receiver hp
    · cases h
  · cases h

/-- The lines of methods are legible. -/
theorem methodLines_legible {ctx : Context} {ident : String} {isFirst : Bool} {fields : List Field}
    (hfields : ∀ f ∈ fields, LegibleField f) {lines : List Line}
    (h : methodLines ctx ident isFirst fields = .ok lines) : LegibleLines lines := by
  induction fields generalizing isFirst lines with
  | nil =>
    cases h
    exact List.forall_mem_nil _
  | cons f rest ih =>
    obtain ⟨hf, hrest⟩ := List.forall_mem_cons.mp hfields
    rw [methodLines] at h
    split at h
    · obtain ⟨w, hw, h⟩ := bind_eq_ok h
      obtain ⟨tail, htail, h⟩ := bind_eq_ok h
      cases h
      refine List.forall_mem_append.mpr ⟨List.forall_mem_append.mpr ⟨?_, ?_⟩, ih hrest htail⟩
      · cases isFirst <;> simp [isLegible_blank]
      · exact methodWrapper_legible hf hf.1.1 hw 1
    · exact ih hrest h

/-- The body of the class of a struct: its identifier, if it has one, and the methods of its table, if it
has one. -/
theorem structBody_ok {ctx : Context} {s : Struct} {table : Option Vtable} {lines : List Line}
    (h : structBody ctx s table = .ok lines) :
    ∃ guid methods, lines = guid ++ methods ∧ (guid = [] ∨ guidAccessor s = .ok guid) ∧
      (methods = [] ∨ ∃ t ∈ table, ∃ isFirst, methodLines ctx s.ident isFirst t.fields = .ok methods) := by
  unfold structBody at h
  dsimp only at h
  cases table with
  | none =>
    split at h <;> obtain ⟨guid, hguid, h⟩ := bind_eq_ok h <;> cases h
    · cases hguid
      exact ⟨[], [], rfl, .inl rfl, .inl rfl⟩
    · exact ⟨guid, [], rfl, .inr hguid, .inl rfl⟩
  | some t =>
    split at h <;> obtain ⟨guid, hguid, h⟩ := bind_eq_ok h <;>
      obtain ⟨methods, hmethods, h⟩ := bind_eq_ok h <;> cases h
    · cases hguid
      exact ⟨[], methods, rfl, .inl rfl, .inr ⟨t, rfl, _, hmethods⟩⟩
    · exact ⟨guid, methods, rfl, .inr hguid, .inr ⟨t, rfl, _, hmethods⟩⟩

/-- The body of the class of a legible struct is legible. -/
theorem structBody_legible {ctx : Context} {s : Struct} {table : Option Vtable}
    (hguid : IsInline s.guid) (htable : ∀ t ∈ table, ∀ f ∈ t.fields, LegibleField f)
    {lines : List Line} (h : structBody ctx s table = .ok lines) : LegibleLines lines := by
  obtain ⟨guid, methods, rfl, hguidLines, hmethods⟩ := structBody_ok h
  refine List.forall_mem_append.mpr ⟨?_, ?_⟩
  · rcases hguidLines with rfl | hguidLines
    · exact List.forall_mem_nil _
    · exact guidAccessor_legible hguid hguidLines
  · rcases hmethods with rfl | ⟨t, ht, isFirst, hmethods⟩
    · exact List.forall_mem_nil _
    · exact methodLines_legible (htable t ht) hmethods

/-- A class is named by a word, its fields are legible and so are its lines. -/
structure LegibleClass (c : OpenedClass) : Prop where
  /-- The name is a word. -/
  ident : IsWord c.ident
  /-- The fields are legible. -/
  fields : ∀ f ∈ c.fields, LegibleField f
  /-- The lines are legible. -/
  lines : LegibleLines c.lines

/-- A class that is opened is legible. -/
theorem openClass_legible {ident : String} {fields : List Field} {body : List Line}
    (hident : IsWord ident) (hfields : ∀ f ∈ fields, LegibleField f) (hbody : LegibleLines body) :
    Gives LegibleClass (openClass ident fields body) := by
  have hlines : LegibleLines (.openClass ident :: (if body = [] then [.body 1 "pass"] else body) ++
      [.blank, .blank]) := by
    refine List.forall_mem_append.mpr ⟨List.forall_mem_cons.mpr ⟨hident, ?_⟩, by simp [isLegible_blank]⟩
    split
    · exact List.forall_mem_singleton.mpr (PlainText.isLegible ⟨by decide, by decide⟩ 0)
    · exact hbody
  intro w c w' hrun
  unfold openClass at hrun
  cases hempty : fields.isEmpty <;> rw [hempty] at hrun <;> cases hrun
  exact ⟨hident, hfields, hlines⟩

/-- The classes of a struct are legible. -/
theorem structClasses_legible (ctx : Context) {h : Header} (hh : LegibleHeader h) {s : Struct}
    (hs : s ∈ h.structs) : Gives (fun classes => ∀ c ∈ classes, LegibleClass c)
      (structClasses ctx h s) := by
  obtain ⟨hident, hguid, hfields⟩ := hh.structs s hs
  have htables := hh.tables s hs
  unfold structClasses
  refine (gives_any _).bind fun taken _ => ?_
  split
  · exact (gives_any _).bind fun _ _ => gives_pure (List.forall_mem_nil _)
  have hbody : Gives LegibleLines (ofExcept (structBody ctx s (h.vtable? s))) :=
    gives_ofExcept fun body hbody => structBody_legible hguid (fun t ht => (htables t ht).2) hbody
  refine hbody.bind fun body hbody => ?_
  refine (openClass_legible hident hfields hbody).bind fun opened hopened => ?_
  split
  · exact gives_pure (List.forall_mem_singleton.mpr hopened)
  · rename_i t ht
    obtain ⟨htable, hentries⟩ := htables t ht
    refine (gives_any _).bind fun taken _ => ?_
    split
    · exact gives_pure (List.forall_mem_singleton.mpr hopened)
    · refine (openClass_legible htable hentries (List.forall_mem_nil _)).bind fun second hsecond =>
        gives_pure ?_
      exact List.forall_mem_cons.mpr ⟨hopened, List.forall_mem_singleton.mpr hsecond⟩

/-- The classes of a header are legible. -/
theorem headerClasses_legible (ctx : Context) {h : Header} (hh : LegibleHeader h) :
    Gives (fun classes => ∀ c ∈ classes, LegibleClass c) (headerClasses ctx h) := by
  refine (Gives.mapM fun s hs => structClasses_legible ctx hh hs).bind fun parts hparts => gives_pure ?_
  intro c hc
  obtain ⟨classes, hclasses, hc⟩ := List.mem_flatten.mp hc
  exact hparts classes hclasses c hc

/-- The section of legible classes is legible. -/
theorem classesSection_legible {h : Header} (hh : LegibleHeader h) {classes : List OpenedClass}
    (hclasses : ∀ c ∈ classes, LegibleClass c) : LegibleLines (classesSection h classes) := by
  have hheading : IsInline ("Types: " ++ h.file) := isInline_append.mpr ⟨by decide, hh.file⟩
  refine forall_mem_underHeading ?_ (fun line hline => ?_) (List.forall_mem_nil _)
  · exact List.forall_mem_cons.mpr ⟨hheading, List.forall_mem_singleton.mpr isLegible_blank⟩
  · obtain ⟨c, hc, hline⟩ := List.mem_flatMap.mp hline
    exact (hclasses c hc).lines line hline

/-! ## Aliases, enumerations and layouts -/

/-- What an alias stands for is on one line. -/
theorem isInline_aliasTarget (enums : List String) {target : String} (h : IsInline target) :
    IsInline (aliasTarget enums target) := by
  have hplatform : ∀ p ∈ platformTypes, IsInline p.2.expr := by decide +kernel
  unfold aliasTarget
  split
  · rename_i t ht
    obtain ⟨before, after, htypes, -⟩ := List.lookup_eq_some_iff.mp ht
    exact hplatform (target, t) (htypes ▸ by simp)
  · split
    · decide
    · exact h

/-- What is written for an alias is legible. -/
theorem aliasLine_legible (ctx : Context) (file : String) {a : Alias} (hname : IsWord a.ident)
    (htarget : IsInline a.target) : Gives LegibleLines (aliasLine ctx file a) := by
  have htarget := isInline_aliasTarget ctx.enums htarget
  unfold aliasLine
  dsimp only
  split
  · exact gives_pure (List.forall_mem_nil _)
  refine (gives_any _).bind fun written _ => ?_
  split
  · refine (gives_any _).bind fun _ _ => gives_pure (List.forall_mem_singleton.mpr ?_)
    exact isInline_append.mpr ⟨isInline_append.mpr ⟨hname.isInline, by decide⟩, htarget⟩
  · exact (gives_any _).bind fun _ _ => gives_pure (List.forall_mem_singleton.mpr ⟨hname, htarget⟩)

/-- The aliases of a header are legible. -/
theorem aliasesSection_legible (ctx : Context) {h : Header} (hh : LegibleHeader h) :
    Gives LegibleLines (aliasesSection ctx h) := by
  refine Gives.section (fun a ha => aliasLine_legible ctx h.file (hh.aliases a ha).1 (hh.aliases a ha).2)
    ?_ ?_
  · exact List.forall_mem_singleton.mpr (isInline_append.mpr ⟨by decide, hh.file⟩)
  · simp [isLegible_blank]

/-- An enumeration is legible. -/
theorem enumLines_legible {e : Enumeration} (hname : IsWord e.ident)
    (hmembers : ∀ c ∈ e.enumerators, IsWord c.ident ∧ IsInline c.value.resolve) :
    Gives LegibleLines (enumLines e) := by
  unfold enumLines
  refine (gives_any _).bind fun _ _ => ?_
  have hparts := Gives.flatten fun c hc => enumeratorLine_legible (hmembers c hc).1 (hmembers c hc).2
  refine hparts.bind fun parts hparts => gives_pure ?_
  exact List.forall_mem_append.mpr ⟨List.forall_mem_cons.mpr ⟨⟨hname, by decide⟩, hparts⟩,
    by simp [isLegible_blank]⟩

/-- The enumerations of a header are legible. -/
theorem enumsSection_legible {h : Header} (hh : LegibleHeader h) :
    Gives LegibleLines (enumsSection h) := by
  refine Gives.section (fun e he => enumLines_legible (hh.enums e he).1 (hh.enums e he).2) ?_
    (List.forall_mem_nil _)
  exact List.forall_mem_singleton.mpr (isInline_append.mpr ⟨by decide, hh.file⟩)

/-- The line of a legible member is legible. -/
theorem layoutMember_legible (ident : String) {f : Field} (hf : LegibleField f) :
    Gives Line.IsLegible (layoutMember ident f) := by
  obtain ⟨⟨hname, htype⟩, hmembers, -⟩ := hf
  have hmember : IsWord (memberName f) := by
    unfold memberName
    split
    · exact isWord_append.mpr ⟨hname, by decide +kernel⟩
    · exact hname
  have hinline : IsInline (memberType f) := by
    unfold memberType
    split
    · decide
    · exact htype
  unfold layoutMember
  split
  · refine gives_pure (PlainText.isLegible ⟨?_, by simp⟩ 0)
    exact isInline_between (isInline_intercalate (by decide) (List.forall_mem_map.mpr hmembers))
      (by decide) (by decide)
  split
  · exact gives_throw _
  refine (gives_any _).bind fun written _ => ?_
  split
  · exact gives_pure ⟨hmember, hinline⟩
  · exact (gives_any _).bind fun _ _ => gives_pure ⟨hmember, by decide⟩

/-- The layouts of legible classes are legible. -/
theorem layoutsSection_legible {h : Header} (hh : LegibleHeader h) {classes : List OpenedClass}
    (hclasses : ∀ c ∈ classes, LegibleClass c) : Gives LegibleLines (layoutsSection h classes) := by
  refine Gives.section (fun c hc => ?_) ?_ (by simp [isLegible_blank])
  · have hmembers := Gives.mapM fun f hf => layoutMember_legible c.ident ((hclasses c hc).fields f hf)
    refine hmembers.bind fun members hmembers => gives_pure ?_
    refine List.forall_mem_append.mpr ⟨List.forall_mem_cons.mpr ⟨(hclasses c hc).ident, hmembers⟩, ?_⟩
    exact List.forall_mem_cons.mpr ⟨trivial, List.forall_mem_singleton.mpr isLegible_blank⟩
  · exact List.forall_mem_singleton.mpr (isInline_append.mpr ⟨by decide, hh.file⟩)

/-! ## Whole modules -/

/-- The text of a module that is written is that of its lines. -/
theorem generate_ok {library : String} {maxSlots : Int} {project : Project} {text : String} {log : Log}
    (h : generate library maxSlots project = (.ok text, log)) :
    ∃ lines w, (moduleLines ⟨library, maxSlots, enumNames project⟩ project).run .start = (.ok lines, w) ∧
      text = renderLines lines := by
  unfold generate at h
  dsimp only at h
  split at h
  · rename_i lines w hrun
    cases h
    exact ⟨lines, w, hrun, rfl⟩
  · cases h

/-- A module that is written has a text. -/
theorem exists_text_of_isOk {library : String} {maxSlots : Int} {project : Project}
    (h : (generate library maxSlots project).1.isOk = true) :
    ∃ text log, generate library maxSlots project = (.ok text, log) := by
  rcases hgenerate : generate library maxSlots project with ⟨e | text, log⟩
  · rw [hgenerate] at h
    cases h
  · exact ⟨text, log, rfl⟩

/-- The sections of a module that is written: each is written where the one above it stopped, and the
classes that a header opens there are those that it lays out. -/
theorem moduleLines_ok {ctx : Context} {project : Project} {lines : List Line} {w : Written}
    (h : (moduleLines ctx project).run .start = (.ok lines, w)) :
    ∃ constants w₁, (project.mapM constantsSection).run .start = (.ok constants, w₁) ∧
    ∃ classes w₂, (project.mapM fun h => do
      let opened ← headerClasses ctx h
      pure (h, opened)).run w₁ = (.ok classes, w₂) ∧
    ∃ aliases w₃, (project.mapM (aliasesSection ctx)).run w₂ = (.ok aliases, w₃) ∧
    ∃ enums w₄, (project.mapM enumsSection).run w₃ = (.ok enums, w₄) ∧
    ∃ layouts w₅, (classes.mapM fun p => layoutsSection p.1 p.2).run w₄ = (.ok layouts, w₅) ∧
    ∃ functions, (project.mapM (functionsSection ctx)).run w₅ = (.ok functions, w) ∧
      lines = introduction ctx.library project ++ constants.flatten ++
        [.text "_register_hresults(globals())", .blank, .blank] ++
        classes.flatMap (fun p => classesSection p.1 p.2) ++
        aliases.flatten ++ enums.flatten ++ layouts.flatten ++ functions.flatten := by
  unfold moduleLines at h
  obtain ⟨constants, w₁, hconstants, h⟩ := run_bind_ok h
  obtain ⟨classes, w₂, hclasses, h⟩ := run_bind_ok h
  obtain ⟨aliases, w₃, haliases, h⟩ := run_bind_ok h
  obtain ⟨enums, w₄, henums, h⟩ := run_bind_ok h
  obtain ⟨layouts, w₅, hlayouts, h⟩ := run_bind_ok h
  obtain ⟨functions, w₆, hfunctions, h⟩ := run_bind_ok h
  obtain ⟨rfl, rfl⟩ := run_pure_ok h
  exact ⟨constants, w₁, hconstants, classes, w₂, hclasses, aliases, w₃, haliases, enums, w₄, henums,
    layouts, w₅, hlayouts, functions, hfunctions, rfl⟩

/-- A module is its introduction and legible lines below it, if its headers are legible. -/
theorem isLegible_moduleLines {ctx : Context} {project : Project}
    (hproject : ∀ h ∈ project, LegibleHeader h) {lines : List Line} {w : Written}
    (h : (moduleLines ctx project).run .start = (.ok lines, w)) :
    ∃ below, lines = introduction ctx.library project ++ below ∧ LegibleLines below ∧
      .text "_register_hresults(globals())" ∈ below := by
  obtain ⟨constants, w₁, hconstants, classes, w₂, hclasses, aliases, w₃, haliases, enums, w₄, henums,
    layouts, w₅, hlayouts, functions, hfunctions, rfl⟩ := moduleLines_ok h
  -- the headers of the classes are those of the project
  have hopened : ∀ p ∈ classes, LegibleHeader p.1 ∧ ∀ c ∈ p.2, LegibleClass c := by
    refine Gives.mapM (fun h hh => ?_) _ _ _ hclasses
    exact (headerClasses_legible ctx (hproject h hh)).bind fun opened hopened =>
      gives_pure ⟨hproject h hh, hopened⟩
  have hregistered : LegibleLines [.text "_register_hresults(globals())", .blank, .blank] :=
    List.forall_mem_cons.mpr ⟨.inr rfl, by simp [isLegible_blank]⟩
  have hstatements : LegibleLines (classes.flatMap fun p => classesSection p.1 p.2) := by
    intro line hline
    obtain ⟨p, hp, hline⟩ := List.mem_flatMap.mp hline
    exact classesSection_legible (hopened p hp).1 (hopened p hp).2 line hline
  have hconstants := Gives.flatten (fun h hh => constantsSection_legible (hproject h hh))
    _ _ _ hconstants
  have haliases := Gives.flatten (fun h hh => aliasesSection_legible ctx (hproject h hh)) _ _ _ haliases
  have henums := Gives.flatten (fun h hh => enumsSection_legible (hproject h hh)) _ _ _ henums
  have hlayouts := Gives.flatten
    (fun p hp => layoutsSection_legible (hopened p hp).1 (hopened p hp).2) _ _ _ hlayouts
  have hfunctions := Gives.flatten
    (fun h hh => functionsSection_legible ctx (hproject h hh)) _ _ _ hfunctions
  refine ⟨constants.flatten ++ [.text "_register_hresults(globals())", .blank, .blank] ++
    classes.flatMap (fun p => classesSection p.1 p.2) ++ aliases.flatten ++ enums.flatten ++
    layouts.flatten ++ functions.flatten, by simp only [List.append_assoc], ?_, by simp⟩
  simp only [LegibleLines, List.forall_mem_append]
  exact ⟨⟨⟨⟨⟨⟨hconstants, hregistered⟩, hstatements⟩, haliases⟩, henums⟩, hlayouts⟩, hfunctions⟩

/-! ## The introduction -/

/-- The names that lines of a text bind to expressions. -/
def boundNames (lines : List String) : List String :=
  lines.filterMap fun line => (readBinding? line).map Prod.fst

/-- The classes of the class statements among lines of a text. -/
def classNames (lines : List String) : List String :=
  lines.filterMap readClass?

/-- The classes and layouts that start among lines of a text, in order. -/
def headings (lines : List String) : List Heading :=
  lines.filterMap readHeading?

@[simp] theorem boundNames_append (xs ys : List String) :
    boundNames (xs ++ ys) = boundNames xs ++ boundNames ys :=
  List.filterMap_append

@[simp] theorem classNames_append (xs ys : List String) :
    classNames (xs ++ ys) = classNames xs ++ classNames ys :=
  List.filterMap_append

@[simp] theorem headings_append (xs ys : List String) :
    headings (xs ++ ys) = headings xs ++ headings ys :=
  List.filterMap_append

/-- Lines of which the characters are given. -/
theorem exists_characters {Q : List (List Char) → Prop} {lines : List String}
    {spelled : List (List Char)}
    (h : List.Forall₂ (fun line characters => String.ofList characters = line) lines spelled)
    (hQ : Q spelled) : ∃ spelled, lines = spelled.map String.ofList ∧ Q spelled := by
  refine ⟨spelled, ?_, hQ⟩
  clear hQ
  induction h with
  | nil => rfl
  | cons h _ ih => rw [← h, ih, List.map_cons]

/-- The characters of the support code, and what is read in them. -/
theorem exists_characters_preamble : ∃ spelled : List (List Char),
    preambleLines = spelled.map String.ofList ∧ (∀ line ∈ spelled, '\n' ∉ line) ∧
    spelled.filterMap (fun line => (bindingIn? line).map Prod.fst) =
      ["_dll", "_procs", "_FUNCTYPE", "_prototypes", "_SLOT_MASK", "_HRESULT_NAMES"] ∧
    spelled.filterMap classIn? = ["HResultError", "Bindable"] ∧
    spelled.filterMap headingIn? = [.opened "HResultError", .opened "Bindable"] := by
  apply exists_characters
  · dsimp only [preambleLines]
    repeat (first | exact List.Forall₂.nil | (apply List.Forall₂.cons; · exact rfl))
  · decide +kernel

/-- What the support code binds and opens. -/
theorem preambleLines_read :
    (∀ line ∈ preambleLines, IsInline line) ∧
    boundNames preambleLines =
      ["_dll", "_procs", "_FUNCTYPE", "_prototypes", "_SLOT_MASK", "_HRESULT_NAMES"] ∧
    classNames preambleLines = ["HResultError", "Bindable"] ∧
    headings preambleLines = [.opened "HResultError", .opened "Bindable"] := by
  obtain ⟨spelled, hspelled, hinline, hbound, hclasses, hheadings⟩ := exists_characters_preamble
  rw [hspelled]
  refine ⟨?_, ?_, ?_, ?_⟩
  · rw [List.forall_mem_map]
    intro line hline
    rw [IsInline, String.toList_ofList]
    exact hinline line hline
  · rw [boundNames, List.filterMap_map, ← hbound]
    simp only [Function.comp_def, readBinding?, String.toList_ofList]
  · rw [classNames, List.filterMap_map, ← hclasses]
    simp only [Function.comp_def, readClass?, String.toList_ofList]
  · rw [headings, List.filterMap_map, ← hheadings]
    simp only [Function.comp_def, readHeading?, String.toList_ofList]

/-- The lines of the text of the introduction. -/
def introductionLines (library : String) (project : Project) : List String :=
  (introduction library project).flatMap fun line => textLines line.render

/-- Texts on one line are their lines. -/
theorem flatMap_textLines {texts : List String} (h : ∀ text ∈ texts, IsInline text) :
    texts.flatMap textLines = texts := by
  induction texts with
  | nil => rfl
  | cons text texts ih =>
    obtain ⟨htext, htexts⟩ := List.forall_mem_cons.mp h
    rw [List.flatMap_cons, textLines_of_isInline htext, ih htexts, List.singleton_append]

/-- The introduction of a module, line by line, if the names in it are on one line. -/
theorem introductionLines_eq {library : String} {project : Project} (hlibrary : IsInline library)
    (hproject : ∀ h ∈ project, IsInline h.file) : introductionLines library project =
      ["\"\"\"ctypes bindings for " ++ library ++ ".", "",
        "Generated by com-header-bindgen from " ++ ", ".intercalate (project.map Header.file) ++ ".",
        "Do not edit by hand.", "\"\"\"", "", "import ctypes", "",
        "_DLL_NAME = \"" ++ library ++ "\""] ++ preambleLines := by
  have hfiles : IsInline (", ".intercalate (project.map Header.file)) :=
    isInline_intercalate (by decide) (List.forall_mem_map.mpr hproject)
  have hpreamble : textLines preamble = preambleLines := by
    rw [preamble, textLines_intercalate (by decide), flatMap_textLines preambleLines_read.1]
  have hlines : ∀ text ∈ ["\"\"\"ctypes bindings for " ++ library ++ ".", "",
      "Generated by com-header-bindgen from " ++ ", ".intercalate (project.map Header.file) ++ ".",
      "Do not edit by hand.", "\"\"\"", "", "import ctypes", "", "_DLL_NAME = \"" ++ library ++ "\""],
      IsInline text := by
    simp only [List.forall_mem_cons]
    exact ⟨isInline_between hlibrary (by decide) (by decide), by decide,
      isInline_between hfiles (by decide) (by decide), by decide, by decide, by decide, by decide, by decide,
      isInline_between hlibrary (by decide) (by decide), List.forall_mem_nil _⟩
  rw [← flatMap_textLines hlines, ← hpreamble]
  simp only [introductionLines, introduction, List.flatMap_cons, List.flatMap_nil,
    Line.render_text, Line.blank, List.append_nil, List.append_assoc]

/-- A line of a text that binds nothing, opens no class and starts no layout. -/
def ReadsAsNothing (line : String) : Prop :=
  readBinding? line = none ∧ readClass? line = none ∧ readHeading? line = none

instance : DecidablePred ReadsAsNothing := fun line =>
  inferInstanceAs (Decidable (readBinding? line = none ∧ readClass? line = none ∧
    readHeading? line = none))

/-- Nothing is read in a line of which the first word is followed by neither an equals sign nor a point,
and which does not start as a class statement. -/
theorem readsAsNothing_of_behindWord {line : String} {c : Char} {rest : List Char}
    (hbehind : behindWord line.toList = c :: rest) (hpoint : c ≠ '.')
    (hequals : ∀ more, c :: rest ≠ ' ' :: '=' :: more)
    (hclass : ∀ more, line.toList ≠ 'c' :: 'l' :: 'a' :: 's' :: 's' :: ' ' :: more) :
    ReadsAsNothing line := by
  have hnoClass : readClass? line = none := readClass?_eq_none hclass
  refine ⟨readBinding?_eq_none (hbehind ▸ hequals), hnoClass, ?_⟩
  have hnoLayout : ¬ "._fields_ = [".toList <+: behindWord line.toList := by
    rintro ⟨more, hmore⟩
    exact hpoint (List.cons.inj (hmore.trans hbehind)).1.symm
  rw [readClass?] at hnoClass
  rw [readHeading?, headingIn?, hnoClass, layoutIn?, if_neg hnoLayout]
  rfl

/-- Nothing is read in a line that starts with a quotation mark. -/
theorem readsAsNothing_of_quote {line : String} {rest : List Char} (h : line.toList = '"' :: rest) :
    ReadsAsNothing line := by
  have hbehind : behindWord line.toList = '"' :: rest := by
    rw [h, behindWord_cons (isWordCharacter_mark (by decide))]
  exact readsAsNothing_of_behindWord hbehind (by decide) (by simp) (by simp [h])

/-- Nothing is read in the line that says what a module is generated from. -/
theorem readsAsNothing_of_generated {line : String} {rest : List Char}
    (h : line.toList = "Generated by".toList ++ rest) : ReadsAsNothing line := by
  have hword : IsWord "Generated" := by decide +kernel
  have hbehind : behindWord line.toList = ' ' :: 'b' :: 'y' :: rest := by
    rw [h]
    exact behindWord_append hword (isWordCharacter_mark (by decide)) ('b' :: 'y' :: rest)
  exact readsAsNothing_of_behindWord hbehind (by decide) (by simp) (by simp [h])

/-- What the introduction of a module binds and opens, if the names in it are on one line. -/
theorem introductionLines_read {library : String} {project : Project} (hlibrary : IsInline library)
    (hproject : ∀ h ∈ project, IsInline h.file) :
    boundNames (introductionLines library project) = ["_DLL_NAME", "_dll", "_procs", "_FUNCTYPE",
      "_prototypes", "_SLOT_MASK", "_HRESULT_NAMES"] ∧
    classNames (introductionLines library project) = ["HResultError", "Bindable"] ∧
    headings (introductionLines library project) = [.opened "HResultError", .opened "Bindable"] := by
  obtain ⟨-, hbound, hclasses, hheadings⟩ := preambleLines_read
  -- the first line starts with a mark, the third one with a word, and the last one is a binding
  have htitle : ReadsAsNothing ("\"\"\"ctypes bindings for " ++ library ++ ".") :=
    readsAsNothing_of_quote (by rw [String.toList_append, String.toList_append]; rfl)
  have horigin : ReadsAsNothing ("Generated by com-header-bindgen from " ++
      ", ".intercalate (project.map Header.file) ++ ".") :=
    readsAsNothing_of_generated (by rw [String.toList_append, String.toList_append]; rfl)
  have hname : "_DLL_NAME = \"" ++ library ++ "\"" =
      (Line.bind "_DLL_NAME" ("\"" ++ library ++ "\"")).render := by
    rw [Line.render_bind, ← String.append_assoc]
    rfl
  have hlegible : (Line.bind "_DLL_NAME" ("\"" ++ library ++ "\"")).IsLegible :=
    ⟨by decide +kernel, isInline_between hlibrary (by decide) (by decide)⟩
  have hempty : ReadsAsNothing "" := by decide +kernel
  have hedit : ReadsAsNothing "Do not edit by hand." := by decide +kernel
  have hquotes : ReadsAsNothing "\"\"\"" := by decide +kernel
  have himport : ReadsAsNothing "import ctypes" := by decide +kernel
  rw [introductionLines_eq hlibrary hproject, hname]
  refine ⟨?_, ?_, ?_⟩
  · rw [boundNames_append, hbound]
    simp only [boundNames, List.filterMap_cons, List.filterMap_nil, htitle.1, horigin.1,
      hempty.1, hedit.1, hquotes.1, himport.1, readBinding?_render hlegible]
    rfl
  · rw [classNames_append, hclasses]
    simp only [classNames, List.filterMap_cons, List.filterMap_nil, htitle.2.1, horigin.2.1,
      hempty.2.1, hedit.2.1, hquotes.2.1, himport.2.1, readClass?_render hlegible]
    rfl
  · rw [headings_append, hheadings]
    simp only [headings, List.filterMap_cons, List.filterMap_nil, htitle.2.2, horigin.2.2,
      hempty.2.2, hedit.2.2, hquotes.2.2, himport.2.2, readHeading?_render hlegible]
    rfl

/-- Legible lines have one line of text each. -/
theorem LegibleLines.flatMap_textLines {lines : List Line} (h : LegibleLines lines) :
    (lines.flatMap fun line => textLines line.render) = lines.map Line.render := by
  rw [← List.flatMap_map, Module.flatMap_textLines]
  exact List.forall_mem_map.mpr fun line hline => (h line hline).isInline

/-- The lines of the text of a legible module below its introduction are those that are written, without
the white space at the end. -/
theorem exists_shown {library : String} {project : Project} {below : List Line}
    (hbelow : LegibleLines below) (hregistered : .text "_register_hresults(globals())" ∈ below) :
    ∃ shown, Trims (below.map Line.render) shown ∧
      textLines (renderLines (introduction library project ++ below)) =
        introductionLines library project ++ shown ++ [""] := by
  have hink : HasInk (Line.text "_register_hresults(globals())").render.toList :=
    ⟨'_', by decide, by decide⟩
  obtain ⟨all, hall, htext⟩ := textLines_renderLines
    ⟨_, List.mem_append_right (introduction library project) hregistered, hink⟩
  rw [List.flatMap_append, hbelow.flatMap_textLines] at hall
  obtain ⟨shown, rfl, hshown⟩ := hall.append ⟨_, List.mem_map_of_mem hregistered, hink⟩
  exact ⟨shown, hshown, htext⟩

/-- The classes and layouts that start among legible lines start in their text, with or without the white
space at its end. -/
theorem headings_of_trims {below : List Line} (h : LegibleLines below) {shown : List String}
    (hshown : Trims (below.map Line.render) shown) :
    headings shown = below.filterMap Line.heading? := by
  have hread {line : Line} (hline : line ∈ below) : readHeading? line.render = line.heading? :=
    readHeading?_render (h line hline)
  rw [headings, hshown.filterMap_eq fun _ _ hheading => readHeading?_append hheading,
    List.filterMap_map]
  · exact List.filterMap_congr fun line hline => hread hline
  · rw [List.forall_mem_map]
    intro line hline heading hheading
    rw [hread hline] at hheading
    exact exists_getLast?_render hheading

/-- The lines of a module start with its introduction. -/
theorem introduction_isPrefix {ctx : Context} {project : Project} {lines : List Line} {w : Written}
    (h : (moduleLines ctx project).run .start = (.ok lines, w)) :
    introduction ctx.library project <+: lines := by
  obtain ⟨_, _, -, _, _, -, _, _, -, _, _, -, _, _, -, _, -, rfl⟩ := moduleLines_ok h
  simp only [List.append_assoc]
  exact List.prefix_append _ _

/-- The lines of the text of any module below its introduction, legible or not, up to one that ends with
ink. -/
theorem exists_textLines {library : String} {maxSlots : Int} {project : Project}
    {before after : List String} {line : String}
    (h : (((moduleLines ⟨library, maxSlots, enumNames project⟩ project).run .start).1.toOption.map
      fun lines => (lines.drop 10).flatMap fun line => textLines line.render) =
        some (before ++ line :: after))
    (hline : ∃ c ∈ line.toList.getLast?, Text.isBlank c = false) :
    ∃ text log rest, generate library maxSlots project = (.ok text, log) ∧
      textLines text = introductionLines library project ++ before ++ line :: rest := by
  rcases hrun : (moduleLines ⟨library, maxSlots, enumNames project⟩ project).run .start with
    ⟨e | lines, w⟩
  · rw [hrun] at h
    cases h
  obtain ⟨below, rfl⟩ := introduction_isPrefix hrun
  rw [hrun] at h
  have hshown : (below.flatMap fun line => textLines line.render) = before ++ line :: after :=
    Option.some.inj h
  -- the line comes from a line that is written, so the text has ink
  have hmem : line ∈ below.flatMap fun line => textLines line.render := hshown ▸ by simp
  obtain ⟨written, hwritten, hmem⟩ := List.mem_flatMap.mp hmem
  have hink : HasInk written.render.toList := by
    obtain ⟨part, hpart, hpart'⟩ := List.mem_map.mp hmem
    obtain ⟨c, hc, hblank⟩ := hline
    rw [← hpart', String.toList_ofList] at hc
    exact ⟨c, Text.mem_of_mem_splitAt hpart (List.mem_of_getLast? hc), hblank⟩
  obtain ⟨shown, htrims, htext⟩ := textLines_renderLines
    ⟨written, List.mem_append_right (introduction library project) hwritten, hink⟩
  rw [List.flatMap_append, hshown, ← List.append_assoc] at htrims
  obtain ⟨rest, rfl⟩ := htrims.exists_append hline
  refine ⟨renderLines (introduction library project ++ below), timed stage (w.log ++ [summary w]) none,
    rest ++ [""], ?_, ?_⟩
  · rw [generate, hrun]
  · rw [htext, List.append_assoc, List.cons_append, introductionLines]

end SdkBindings.Module
