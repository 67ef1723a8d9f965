import SdkBindings.Grammar.Headers
import SdkBindings.Proofs.Module.Definitions
import SdkBindings.Proofs.Module.Expressions
import SdkBindings.Transform.Pipeline

/-!
# How constants of enumerations are written

A constant whose value is not known keeps the text of its expression, and the module writes it as a
binding or leaves it out in a remark.  What decides is not the grammar of constant expressions but
the names in the text: the constant is left out when its text looks up a name that no constant before
it was bound to, or when it has no tokens at all.  So a text that is no expression, such as two
numbers in a row, can end up in a binding (`generate_juxtaposed`).

`generate_enumerators` says exactly when a text that is no expression gives one remark on one line,
for every constant of every enumeration of a module.  The names that are known at a constant are
those that the lines of constants above it bind (`Agrees`), which each step of the writer extends by
what it writes.
-/

namespace SdkBindings.Module

open Transform

/-! ## One constant -/

/-- The text has tokens, but they are no constant expression. -/
def IsRefused (raw : String) : Prop :=
  ∃ tokens e, Lexer.codeTokens raw = .ok tokens ∧ Constant.toPostfix tokens = .error e

/-- The text, as an expression of the module, looks up a name that is not known. -/
def LooksUpUnknown (known : List String) (raw : String) : Prop :=
  ∃ text, expression raw = .ok text ∧ ∃ name ∈ referencedNames text, name ∉ known

/-- The lines are one remark, which stays on its line. -/
def IsOneRemark (lines : List Line) : Prop :=
  ∃ text, lines = [.comment text] ∧ '\n' ∉ text.toList

/-- What makes a text that is no expression a remark on one line: its value is not known, it is not
the name of the constant itself, it has no tokens or looks up an unknown name, and nothing in it ends
a line. -/
structure IsLeftOut (known : List String) (c : Enumerator) : Prop where
  /-- The value is not known. -/
  unresolved : c.value.isResolved = false
  /-- The constant does not stand for itself. -/
  ne_self : safeName c.ident ≠ c.value.raw
  /-- There is nothing to write, or an unknown name in it. -/
  unusable : Lexer.codeTokens c.value.raw = .ok [] ∨ LooksUpUnknown known c.value.raw
  /-- The name ends no line. -/
  name_inline : '\n' ∉ (safeName c.ident).toList
  /-- The text ends no line. -/
  raw_inline : '\n' ∉ c.value.raw.toList

/-- What is written for a constant where the names in `known` are bound. -/
structure EnumeratorLines (known : List String) (c : Enumerator) (written : List Line) : Prop where
  /-- Nothing is written exactly if the constant stands for itself. -/
  nothing : written = [] ↔ safeName c.ident = c.value.resolve
  /-- What is written is one line, a binding of the name or a remark with the text. -/
  line : written = [] ∨ (∃ expression, written = [.bind (safeName c.ident) expression]) ∨
    written = [.comment (safeName c.ident ++ " = " ++ c.value.raw)]
  /-- A text that is no expression gives a remark on one line exactly if it is left out. -/
  remark : IsRefused c.value.raw → (IsOneRemark written ↔ IsLeftOut known c)

/-- The names in the list are the constants that expressions may refer to. -/
def Agrees (w : Written) (known : List String) : Prop :=
  ∀ name, name ∈ w.values ↔ name ∈ known

/-- A name becomes known with the line that binds it. -/
theorem Agrees.addName {w w' : Written} {known : List String} (h : Agrees w known) {name : String}
    (hvalues : w'.values = Module.addName name w.values) : Agrees w' (known ++ [name]) := by
  intro n
  rw [hvalues, mem_addName, h n, List.mem_append, List.mem_singleton]

/-- What is known stays known where no constant is bound. -/
theorem Agrees.keep {w w' : Written} {known : List String} (h : Agrees w known)
    (hvalues : w'.values = w.values) : Agrees w' known := by
  intro n
  rw [hvalues, h n]

/-- A rewritten text is unusable exactly if the text has no tokens or looks up an unknown name. -/
theorem unusable_iff {w : Written} {known : List String} (hknown : Agrees w known) {raw text : String}
    (htext : expression raw = .ok text) :
    (text = "" ∨ unknownNames w.values text ≠ []) ↔
      Lexer.codeTokens raw = .ok [] ∨ LooksUpUnknown known raw := by
  rw [expression_eq_empty_iff htext, ne_eq, unknownNames_eq_nil_iff]
  refine or_congr_right ⟨fun hnew => ?_, ?_⟩
  · simp only [Classical.not_forall] at hnew
    obtain ⟨name, hname, hnew⟩ := hnew
    exact ⟨text, htext, name, hname, fun hmem => hnew ((hknown name).mpr hmem)⟩
  · rintro ⟨text', htext', name, hname, hnew⟩ hall
    cases htext.symm.trans htext'
    exact hnew ((hknown name).mp (hall name hname))

/-- A remark with a name and a text stays on its line exactly if neither of them ends a line. -/
theorem isOneRemark_iff {name raw : String} :
    IsOneRemark [.comment (name ++ " = " ++ raw)] ↔ '\n' ∉ name.toList ∧ '\n' ∉ raw.toList := by
  have hinline : '\n' ∈ (name ++ " = " ++ raw).toList ↔ '\n' ∈ name.toList ∨ '\n' ∈ raw.toList := by
    simp
  rw [← not_or, ← hinline]
  constructor
  · rintro ⟨text, hremark, htext⟩
    cases hremark
    exact htext
  · exact fun htext => ⟨_, rfl, htext⟩

/-- A binding is no remark. -/
theorem not_isOneRemark_bind (name expression : String) : ¬ IsOneRemark [.bind name expression] := by
  rintro ⟨text, hremark, -⟩
  cases hremark

/-- What is written for a constant, and what is known after it. -/
theorem enumeratorLine_run {c : Enumerator} {w w' : Written} {written : List Line}
    (h : (enumeratorLine c).run w = (.ok written, w')) {known : List String} (hknown : Agrees w known) :
    EnumeratorLines known c written ∧ Agrees w' (known ++ binders written) := by
  unfold enumeratorLine at h
  dsimp only at h
  split at h
  · rename_i hself
    obtain ⟨rfl, rfl⟩ := run_pure_ok h
    refine ⟨⟨⟨fun _ => hself, fun _ => rfl⟩, .inl rfl, fun _ => ⟨?_, fun hout => ?_⟩⟩, ?_⟩
    · rintro ⟨text, hnil, -⟩
      cases hnil
    · rw [resolve_of_unresolved hout.unresolved] at hself
      exact absurd hself hout.ne_self
    · rw [binders, List.flatMap_nil, List.append_nil]
      exact hknown
  rename_i hself
  obtain ⟨line, w₁, hline, h⟩ := run_bind_ok h
  obtain ⟨rfl, rfl⟩ := run_pure_ok h
  have hnothing : [line] = [] ↔ safeName c.ident = c.value.resolve :=
    ⟨fun hnil => absurd hnil (List.cons_ne_nil _ _), fun h => absurd h hself⟩
  -- a line that binds the constant: it is no remark, so the constant must not be left out
  have hbound {expression : String} (hbind : line = .bind (safeName c.ident) expression)
      (hvalues : w'.values = addName (safeName c.ident) w.values) (hin : ¬ IsLeftOut known c) :
      EnumeratorLines known c [line] ∧ Agrees w' (known ++ binders [line]) := by
    subst hbind
    refine ⟨⟨hnothing, .inr (.inl ⟨_, rfl⟩), fun _ => ⟨fun hremark => ?_, fun hout => ?_⟩⟩,
      hknown.addName hvalues⟩
    · exact absurd hremark (not_isOneRemark_bind _ _)
    · exact absurd hout hin
  rcases (assignment_run hline).2 with ⟨hresolved, hbind, hvalues⟩ | ⟨hunresolved, text, htext, hline⟩
  · refine hbound hbind hvalues fun hout => ?_
    cases hresolved.symm.trans hout.unresolved
  rcases hline with ⟨hleft, rfl, hvalues⟩ | ⟨hwritten, hbind, hvalues⟩
  · refine ⟨⟨hnothing, .inr (.inr rfl), fun _ => isOneRemark_iff.trans ⟨fun hinline => ?_, fun hout =>
      ⟨hout.name_inline, hout.raw_inline⟩⟩⟩, ?_⟩
    · have hother : safeName c.ident ≠ c.value.raw := by
        rwa [← resolve_of_unresolved hunresolved]
      exact ⟨hunresolved, hother, (unusable_iff hknown htext).mp hleft, hinline.1, hinline.2⟩
    · rw [binders_eq_nil rfl, List.append_nil]
      exact hknown.keep hvalues
  · exact hbound hbind hvalues fun hout => hwritten ((unusable_iff hknown htext).mpr hout.unusable)

/-! ## The enumerations of a module -/

/-- Lines written for the members of a list in a row: `R` says what may be written for a member where
some names are known, and which names are known after it. -/
inductive InOrder {α : Type} (R : List String → α → List Line → List String → Prop) :
    List String → List α → List Line → List String → Prop
  | nil (known : List String) : InOrder R known [] [] known
  | cons {known known' known'' : List String} {x : α} {xs : List α} {written lines : List Line}
      (h : R known x written known') (rest : InOrder R known' xs lines known'') :
      InOrder R known (x :: xs) (written ++ lines) known''

/-- What is written for a constant makes the names known that it binds. -/
def WritesEnumerator (known : List String) (c : Enumerator) (written : List Line)
    (known' : List String) : Prop :=
  EnumeratorLines known c written ∧ known' = known ++ binders written

/-- An enumeration is written as a binding of its type and its constants in order. -/
def WritesEnumeration (known : List String) (e : Enumeration) (written : List Line)
    (known' : List String) : Prop :=
  ∃ members, InOrder WritesEnumerator known e.enumerators members known' ∧
    written = .bind e.ident uint32Expr :: members ++ [.blank, .blank]

/-- The enumerations of a header are written in order under a heading. -/
def WritesEnums (known : List String) (h : Header) (written : List Line) (known' : List String) :
    Prop :=
  ∃ lines, InOrder WritesEnumeration known h.enums lines known' ∧
    written = underHeading [.comment ("Enums: " ++ h.file)] lines []

/-- A step that writes what `R` says for a member of a list. -/
def Follows {α : Type} (R : List String → α → List Line → List String → Prop)
    (f : α → Writing (List Line)) : Prop :=
  ∀ x w written w', (f x).run w = (.ok written, w') → ∀ known, Agrees w known →
    ∃ known', R known x written known' ∧ Agrees w' known'

/-- Steps for the members of a list write what `R` says in a row. -/
theorem Follows.mapM {α : Type} {R : List String → α → List Line → List String → Prop}
    {f : α → Writing (List Line)} (hf : Follows R f) {xs : List α} {w w' : Written}
    {parts : List (List Line)} (h : (xs.mapM f).run w = (.ok parts, w')) {known : List String}
    (hknown : Agrees w known) :
    ∃ known', InOrder R known xs parts.flatten known' ∧ Agrees w' known' := by
  induction xs generalizing w parts known with
  | nil =>
    obtain ⟨rfl, rfl⟩ := run_pure_ok h
    exact ⟨known, .nil known, hknown⟩
  | cons x xs ih =>
    rw [List.mapM_cons] at h
    obtain ⟨written, w₁, hwritten, h⟩ := run_bind_ok h
    obtain ⟨rest, w₂, hrest, h⟩ := run_bind_ok h
    obtain ⟨rfl, rfl⟩ := run_pure_ok h
    obtain ⟨known₁, hR, hknown₁⟩ := hf x w written w₁ hwritten known hknown
    obtain ⟨known₂, hin, hknown₂⟩ := ih hrest hknown₁
    exact ⟨known₂, .cons hR hin, hknown₂⟩

/-- The constants of enumerations are written in this way. -/
theorem follows_enumeratorLine : Follows WritesEnumerator enumeratorLine := by
  intro c w written w' h known hknown
  obtain ⟨hlines, hknown'⟩ := enumeratorLine_run h hknown
  exact ⟨_, ⟨hlines, rfl⟩, hknown'⟩

/-- Enumerations are written in this way. -/
theorem follows_enumLines : Follows WritesEnumeration enumLines := by
  intro e w written w' h known hknown
  unfold enumLines at h
  obtain ⟨_, w₁, htype, h⟩ := run_bind_ok h
  cases htype
  obtain ⟨parts, w₂, hparts, h⟩ := run_bind_ok h
  obtain ⟨rfl, rfl⟩ := run_pure_ok h
  have hkeep : Agrees { w with types := addName e.ident w.types } known := hknown.keep rfl
  obtain ⟨known', hin, hknown'⟩ := follows_enumeratorLine.mapM hparts hkeep
  exact ⟨known', ⟨parts.flatten, hin, rfl⟩, hknown'⟩

/-- The enumerations of a header are written in this way. -/
theorem follows_enumsSection : Follows WritesEnums enumsSection := by
  intro x w written w' h known hknown
  unfold enumsSection at h
  obtain ⟨parts, w₁, hparts, h⟩ := run_bind_ok h
  obtain ⟨rfl, rfl⟩ := run_pure_ok h
  obtain ⟨known', hin, hknown'⟩ := follows_enumLines.mapM hparts hknown
  exact ⟨known', ⟨parts.flatten, hin, rfl⟩, hknown'⟩

/-! ## What is known when the enumerations start -/

/-- A step that binds no constant. -/
def KeepsValues {α : Type} (m : Writing α) : Prop :=
  ∀ w a w', m.run w = (.ok a, w') → w'.values = w.values

/-- A result binds no constant. -/
theorem keepsValues_pure {α : Type} (a : α) : KeepsValues (pure a : Writing α) := by
  intro w b w' h
  rw [(run_pure_ok h).2]

/-- Two steps in a row bind no constant if neither of them does. -/
theorem KeepsValues.bind {α β : Type} {m : Writing α} {k : α → Writing β} (hm : KeepsValues m)
    (hk : ∀ a, KeepsValues (k a)) : KeepsValues (m >>= k) := by
  intro w b w'' h
  obtain ⟨a, w', ha, hb⟩ := run_bind_ok h
  rw [hk a w' b w'' hb, hm w a w' ha]

/-- Steps for the members of a list bind no constant if none of them does. -/
theorem KeepsValues.mapM {α β : Type} {f : α → Writing β} (hf : ∀ x, KeepsValues (f x))
    (xs : List α) : KeepsValues (xs.mapM f) := by
  induction xs with
  | nil => exact keepsValues_pure []
  | cons x xs ih =>
    rw [List.mapM_cons]
    exact (hf x).bind fun y => ih.bind fun ys => keepsValues_pure (y :: ys)

/-- Reports bind no constant. -/
theorem keepsValues_report (entry : LogEntry) : KeepsValues (report entry) := by
  intro w a w' h
  cases h
  rfl

/-- Types are no constants. -/
theorem keepsValues_addType (name : String) : KeepsValues (addType name) := by
  intro w a w' h
  cases h
  rfl

/-- Asking for what is written binds no constant. -/
theorem keepsValues_get : KeepsValues (getThe Written : Writing Written) := by
  intro w a w' h
  cases h
  rfl

/-- Classes bind no constant. -/
theorem keepsValues_openClass (ident : String) (fields : List Field) (body : List Line) :
    KeepsValues (openClass ident fields body) := by
  intro w c w' h
  unfold openClass at h
  cases hfields : fields.isEmpty <;> rw [hfields] at h <;> cases h
  rfl

/-- The classes of a struct bind no constant. -/
theorem keepsValues_structClasses (ctx : Context) (h : Header) (s : Struct) :
    KeepsValues (structClasses ctx h s) := by
  have hknown (ident : String) : KeepsValues (isKnownType ident) :=
    keepsValues_get.bind fun _ => keepsValues_pure _
  have hpassed {α : Type} (result : Except Error α) : KeepsValues (ofExcept result) := by
    intro w a w' hrun
    rw [(ofExcept_ok hrun).2]
  unfold structClasses
  refine (hknown s.ident).bind fun taken => ?_
  split
  · exact (keepsValues_report _).bind fun _ => keepsValues_pure _
  · refine (hpassed _).bind fun body => (keepsValues_openClass _ _ _).bind fun opened => ?_
    split
    · exact keepsValues_pure _
    · refine (hknown _).bind fun taken => ?_
      split
      · exact keepsValues_pure _
      · exact (keepsValues_openClass _ _ _).bind fun second => keepsValues_pure _

/-- The classes of a header bind no constant. -/
theorem keepsValues_headerClasses (ctx : Context) (h : Header) : KeepsValues (headerClasses ctx h) :=
  (KeepsValues.mapM (keepsValues_structClasses ctx h) h.structs).bind fun _ => keepsValues_pure _

/-- An alias binds no constant. -/
theorem keepsValues_aliasLine (ctx : Context) (file : String) (a : Alias) :
    KeepsValues (aliasLine ctx file a) := by
  unfold aliasLine
  dsimp only
  split
  · exact keepsValues_pure _
  · refine keepsValues_get.bind fun written => ?_
    split
    · exact (keepsValues_report _).bind fun _ => keepsValues_pure _
    · exact (keepsValues_addType _).bind fun _ => keepsValues_pure _

/-- The aliases of a header bind no constant. -/
theorem keepsValues_aliasesSection (ctx : Context) (h : Header) :
    KeepsValues (aliasesSection ctx h) :=
  (KeepsValues.mapM (keepsValues_aliasLine ctx h.file) h.aliases).bind fun _ => keepsValues_pure _

/-- Lines make known what they bind, whatever they are written for. -/
def WritesBinders {α : Type} (known : List String) (_ : α) (written : List Line)
    (known' : List String) : Prop :=
  known' = known ++ binders written

/-- Lines in a row make known what they bind. -/
theorem InOrder.eq_append {α : Type} {known known' : List String} {xs : List α} {lines : List Line}
    (h : InOrder WritesBinders known xs lines known') : known' = known ++ binders lines := by
  induction h with
  | nil known => exact (List.append_nil known).symm
  | cons hwrites _ ih => rw [ih, hwrites, binders_append, List.append_assoc]

/-- The constants of macros make known what they bind. -/
theorem follows_constantLine : Follows WritesBinders constantLine := by
  intro m w lines w' h known hknown
  refine ⟨_, rfl, ?_⟩
  have hnone : Agrees w (known ++ binders []) := by
    rw [binders, List.flatMap_nil, List.append_nil]
    exact hknown
  unfold constantLine at h
  obtain ⟨_, _, hget, h⟩ := run_bind_ok h
  cases hget
  dsimp only at h
  split at h
  · obtain ⟨rfl, rfl⟩ := run_pure_ok h
    exact hnone
  split at h
  · obtain ⟨rfl, rfl⟩ := run_pure_ok h
    exact hnone
  obtain ⟨line, w₁, hline, h⟩ := run_bind_ok h
  have hafter : Agrees w₁ (known ++ binders [line]) := by
    rcases assignment_ok hline with ⟨text, rfl, hvalues, -⟩ | ⟨expression, rfl, hvalues, -⟩
    · rw [binders_eq_nil rfl, List.append_nil]
      exact hknown.keep hvalues
    · exact hknown.addName hvalues
  -- what is kept besides is only which macros have been bound
  split at h <;> cases h <;> exact hafter.keep rfl

/-- The constants of a header make known what they bind. -/
theorem follows_constantsSection : Follows WritesBinders constantsSection := by
  intro x w written w' h known hknown
  unfold constantsSection at h
  obtain ⟨parts, w₁, hparts, h⟩ := run_bind_ok h
  obtain ⟨rfl, rfl⟩ := run_pure_ok h
  obtain ⟨known', hin, hknown'⟩ := follows_constantLine.mapM hparts hknown
  obtain ⟨first, last, hfirst, hlast, hlines⟩ :=
    underHeading_eq [.comment ("Constants: " ++ x.file)] parts.flatten [.blank, .blank] rfl rfl
  refine ⟨known', ?_, hknown'⟩
  rw [WritesBinders, hin.eq_append, hlines, binders_append, binders_append, binders_eq_nil hfirst,
    binders_eq_nil hlast, List.nil_append, List.append_nil]

/-! ## Whole modules -/

/-- In a module that is written, every constant of every enumeration is written where the names are
known that constants above it bind, and a text that is no expression gives a remark on one line
exactly if it is left out there. -/
theorem generate_enumerators {library : String} {maxSlots : Int} {project : Project} {text : String}
    {log : Log} (h : generate library maxSlots project = (.ok text, log)) :
    ∃ constants w between enums rest known,
      (project.mapM constantsSection).run .start = (.ok constants, w) ∧
      text = renderLines (introduction library project ++ constants.flatten ++ between ++ enums ++ rest) ∧
      InOrder WritesEnums (binders constants.flatten) project enums known := by
  obtain ⟨lines, w, hrun, rfl⟩ := generate_ok h
  obtain ⟨constants, w₁, hconstants, classes, w₂, hclasses, aliases, w₃, haliases, enums, w₄,
    henums, layouts, w₅, -, functions, -, rfl⟩ := moduleLines_ok hrun
  have hstart : Agrees .start [] := fun name => Iff.rfl
  obtain ⟨known₁, hin, hknown₁⟩ := follows_constantsSection.mapM hconstants hstart
  rw [hin.eq_append, List.nil_append] at hknown₁
  have hclassesKeep : w₂.values = w₁.values :=
    KeepsValues.mapM (fun x => (keepsValues_headerClasses _ x).bind fun _ => keepsValues_pure _)
      project _ _ _ hclasses
  have haliasesKeep : w₃.values = w₂.values :=
    KeepsValues.mapM (keepsValues_aliasesSection _) project _ _ _ haliases
  have hknown₃ : Agrees w₃ (binders constants.flatten) :=
    hknown₁.keep (haliasesKeep.trans hclassesKeep)
  obtain ⟨known, henumsIn, -⟩ := follows_enumsSection.mapM henums hknown₃
  refine ⟨constants, w₁, [.text "_register_hresults(globals())", .blank, .blank] ++
    classes.flatMap (fun p => classesSection p.1 p.2) ++ aliases.flatten, enums.flatten,
    layouts.flatten ++ functions.flatten, known, hconstants, ?_, henumsIn⟩
  simp only [List.append_assoc]

/-- A header whose only constant has two numbers in a row for a value. -/
def juxtaposedHeader : Header :=
  { Header.empty "test.h" with enums := [⟨"E", [⟨"A", .ofRaw "1 2"⟩]⟩] }

/-- The constant of such a header, written as `generate_enumerators` says. -/
theorem generate_enumerators_juxtaposed :
    ∃ text log, generate "d3d11.dll" 12 [juxtaposedHeader] = (.ok text, log) ∧
      ∃ constants w between enums rest known,
        ([juxtaposedHeader].mapM constantsSection).run .start = (.ok constants, w) ∧
        text = renderLines (introduction "d3d11.dll" [juxtaposedHeader] ++ constants.flatten ++
          between ++ enums ++ rest) ∧
        InOrder WritesEnums (binders constants.flatten) [juxtaposedHeader] enums known := by
  have hok : (generate "d3d11.dll" 12 [juxtaposedHeader]).1.isOk = true := by decide +kernel
  obtain ⟨text, log, hgenerate⟩ := exists_text_of_isOk hok
  exact ⟨text, log, hgenerate, generate_enumerators hgenerate⟩

/-- Two numbers in a row are no expression. -/
theorem isRefused_juxtaposed : IsRefused "1 2" := by
  have hcut : (Lexer.codeTokens "1 2").toOption =
      some [⟨.number, "1", 1, 1⟩, ⟨.number, "2", 1, 3⟩] := by
    decide +kernel
  cases htokens : Lexer.codeTokens "1 2" with
  | error e =>
    rw [htokens] at hcut
    cases hcut
  | ok tokens =>
    rw [htokens] at hcut
    obtain rfl := Option.some.inj hcut
    exact ⟨_, .missingOperator "2", htokens, rfl⟩

/-- The header is read from its text. -/
theorem readHeader_juxtaposed :
    (Grammar.readHeader false "test.h" "typedef enum E \x7b A = 1 2 \x7d E;\n" .start).1 =
      .ok juxtaposedHeader := by
  have hread : (match (Grammar.readHeader false "test.h" "typedef enum E \x7b A = 1 2 \x7d E;\n"
      .start).1 with
      | .ok h => decide (h.file = "test.h" ∧ h.macros = [] ∧ h.aliases = [] ∧
          h.enums = juxtaposedHeader.enums ∧ h.structs.length = 0 ∧ h.functions.length = 0 ∧
          h.vtables.length = 0)
      | .error _ => false) = true := by
    decide +kernel
  split at hread
  · rename_i header heq
    obtain ⟨file, macros, aliases, enums, structs, functions, vtables⟩ := header
    rw [decide_eq_true_eq] at hread
    obtain ⟨rfl, rfl, rfl, rfl, hstructs, hfunctions, hvtables⟩ := hread
    rw [List.length_eq_zero_iff] at hstructs hfunctions hvtables
    subst hstructs hfunctions hvtables
    exact heq
  · cases hread

/-- A text that is no expression is written as a binding: two numbers in a row look up no name, so
the constant of this header gets them for a value, and the only remark of its module is the heading. -/
theorem generate_juxtaposed :
    (Grammar.readHeader false "test.h" "typedef enum E \x7b A = 1 2 \x7d E;\n" .start).1 =
        .ok juxtaposedHeader ∧
      transform [] juxtaposedHeader =
        ⟨juxtaposedHeader, [.entry (debug "Transformed test.h")], none⟩ ∧
      IsRefused "1 2" ∧
      ∃ lines w log, (moduleLines ⟨"d3d11.dll", 12, enumNames [juxtaposedHeader]⟩
          [juxtaposedHeader]).run .start = (.ok lines, w) ∧
        generate "d3d11.dll" 12 [juxtaposedHeader] = (.ok (renderLines lines), log) ∧
        .bind "A" "1 2" ∈ lines ∧ ∀ remark, .comment remark ∈ lines → remark = "Enums: test.h" := by
  refine ⟨readHeader_juxtaposed, rfl, isRefused_juxtaposed, ?_⟩
  have hlines : (match ((moduleLines ⟨"d3d11.dll", 12, enumNames [juxtaposedHeader]⟩
      [juxtaposedHeader]).run .start).1 with
      | .ok lines => lines.contains (.bind "A" "1 2") && lines.all fun line =>
          match line with
          | .comment remark => decide (remark = "Enums: test.h")
          | _ => true
      | .error _ => false) = true := by
    decide +kernel
  rcases hrun : (moduleLines ⟨"d3d11.dll", 12, enumNames [juxtaposedHeader]⟩
      [juxtaposedHeader]).run .start with ⟨e | lines, w⟩
  · rw [hrun] at hlines
    cases hlines
  · rw [hrun] at hlines
    obtain ⟨hbind, hremarks⟩ := Bool.and_eq_true_iff.mp hlines
    refine ⟨lines, w, timed stage (w.log ++ [summary w]) none, rfl, ?_,
      List.contains_iff_mem.mp hbind, fun remark hremark => ?_⟩
    · rw [generate, hrun]
    · exact of_decide_eq_true (List.all_eq_true.mp hremarks _ hremark)

end SdkBindings.Module
