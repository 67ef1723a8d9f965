import SdkBindings.Proofs.Binding.Attaching
import SdkBindings.Proofs.Symbols.Table

/-!
# The constants of a project and the table of symbols

Headers that are read in one session share a table of symbols.  It is filled in two places: every
macro with a value is defined, and a constant of an enumeration only if its value is known.
`readHeaders_constants` says what comes of it for all headers that are read one after the other: the
table holds exactly these names, a name that is declared once has the value that its header records,
every value is a number of 32 unsigned bits, a text or neither, and no number ever fails the check
for 32 unsigned bits.

The proof follows the headers.  One declaration extends a header and the table by the same definitions
(`Extends`), so all declarations do, and so do all headers.  Because a header keeps its macros apart
from its enumerations, the definitions agree with those of the header up to their order only.
-/

namespace SdkBindings

/-! ## What a header defines -/

/-- The definition of a macro. -/
def Macro.definition (m : Macro) : String × Value :=
  (m.ident, m.value)

/-- The definition of a constant of an enumeration, if its value is known. -/
def Enumerator.definition? (e : Enumerator) : Option (String × Value) :=
  if e.value.isResolved then some (e.ident, e.value) else none

/-- The constants of all enumerations of a header. -/
def Header.enumerators (h : Header) : List Enumerator :=
  h.enums.flatMap Enumeration.enumerators

/-- What a header defines: its macros and the constants of enumerations whose value is known. -/
def Header.definitions (h : Header) : List (String × Value) :=
  h.macros.map Macro.definition ++ h.enumerators.filterMap Enumerator.definition?

/-- The values that a header records, known or not. -/
def Header.values (h : Header) : List Value :=
  h.macros.map Macro.value ++ h.enumerators.map Enumerator.value

/-- A value that is defined is recorded. -/
theorem Header.mem_values_of_definition {h : Header} {v : Value}
    (hv : v ∈ h.definitions.map Prod.snd) : v ∈ h.values := by
  obtain ⟨d, hd, rfl⟩ := List.mem_map.mp hv
  rcases List.mem_append.mp hd with hd | hd
  · obtain ⟨m, hm, rfl⟩ := List.mem_map.mp hd
    exact List.mem_append_left _ (List.mem_map.mpr ⟨m, hm, rfl⟩)
  · obtain ⟨e, he, hdefinition⟩ := List.mem_filterMap.mp hd
    unfold Enumerator.definition? at hdefinition
    split at hdefinition
    · cases hdefinition
      exact List.mem_append_right _ (List.mem_map.mpr ⟨e, he, rfl⟩)
    · cases hdefinition

/-- The names that a header defines are those of its macros and of its known constants. -/
theorem Header.mem_names_of_definitions (h : Header) (name : String) :
    name ∈ h.definitions.map Prod.fst ↔ (∃ m ∈ h.macros, m.ident = name) ∨
      ∃ e ∈ h.enumerators, e.value.isResolved ∧ e.ident = name := by
  unfold Header.definitions
  rw [List.map_append, List.mem_append, List.map_map, List.mem_map]
  refine or_congr Iff.rfl ?_
  simp only [List.mem_map, List.mem_filterMap, Enumerator.definition?]
  constructor
  · rintro ⟨d, ⟨e, he, hd⟩, rfl⟩
    split at hd
    · cases hd
      exact ⟨e, he, ‹_›, rfl⟩
    · cases hd
  · rintro ⟨e, he, hresolved, rfl⟩
    exact ⟨(e.ident, e.value), ⟨e, he, if_pos hresolved⟩, rfl⟩

namespace Grammar

open Reader

/-! ## Constants without an expression -/

/-- The value of a constant without an expression, if its number passes the check for 32 unsigned
bits. -/
def checkedFollowing? : Option Value → Option Value
  | none => Value.ofUInt32? 0 ""
  | some previous =>
    match previous.uint32 with
    | some n =>
      if n < 0xFFFFFFFF then Value.ofUInt32? (n + 1) ""
      else some (.ofRaw ("(" ++ previous.raw ++ ") + 1"))
    | none => some (.ofRaw ("(" ++ previous.raw ++ ") + 1"))

/-- Behind an accepted value the check is passed. -/
theorem checkedFollowing?_eq {previous : Option Value} (h : ∀ v ∈ previous, v.IsAccepted) :
    checkedFollowing? previous = some (followingValue previous) := by
  unfold checkedFollowing? followingValue
  cases previous with
  | none => rfl
  | some v =>
    dsimp only
    cases hn : v.uint32 with
    | none => rfl
    | some n =>
      dsimp only
      have hbounds := (h v rfl).bounds hn
      by_cases hlast : n < 0xFFFFFFFF
      · rw [if_pos hlast, if_pos hlast]
        exact Value.ofUInt32?_eq_some_iff.mpr ⟨by omega, rfl⟩
      · rw [if_neg hlast, if_neg hlast]

/-- The value that follows an accepted value is accepted. -/
theorem isAccepted_followingValue {previous : Option Value} (h : ∀ v ∈ previous, v.IsAccepted) :
    (followingValue previous).IsAccepted := by
  unfold followingValue
  cases previous with
  | none => exact Value.isAccepted_ofNumber (by decide) ""
  | some v =>
    dsimp only
    cases hn : v.uint32 with
    | none => exact Value.isAccepted_ofRaw _
    | some n =>
      dsimp only
      have hbounds := (h v rfl).bounds hn
      by_cases hlast : n < 0xFFFFFFFF
      · rw [if_pos hlast]
        exact Value.isAccepted_ofNumber (by omega) ""
      · rw [if_neg hlast]
        exact Value.isAccepted_ofRaw _

/-! ## Values in a session -/

/-- What is evaluated leaves the known constants alone, and a value is that of the evaluation. -/
theorem run_evaluated_ok {notes : Log} {result : Except Constant.Error Value}
    {note : Constant.Error → LogEntry} {s s' : Session} {value? : Option Value}
    (h : (evaluated notes result note).run s = (.ok value?, s')) :
    s'.symbols = s.symbols ∧ ∀ v ∈ value?, result = .ok v := by
  unfold evaluated at h
  obtain ⟨_, s₁, hreport, h⟩ := run_bind_ok h
  cases hreport
  cases result with
  | ok v =>
    cases h
    exact ⟨rfl, fun _ hv => congrArg Except.ok (Option.mem_some.mp hv)⟩
  | error e =>
    dsimp only at h
    split at h
    · obtain ⟨_, s₂, hnote, h⟩ := run_bind_ok h
      cases hnote
      cases h
      exact ⟨rfl, nofun⟩
    · cases h

/-- The value of an expression is accepted, and evaluating it leaves the known constants alone. -/
theorem run_expressionValue_ok {tokens : List Token} {s s' : Session} {value : Value}
    (h : (expressionValue tokens).run s = (.ok value, s')) :
    value.IsAccepted ∧ s'.symbols = s.symbols := by
  obtain ⟨table, s₁, hsymbols, h⟩ := run_bind_ok h
  cases hsymbols
  obtain ⟨value?, s₂, hevaluated, h⟩ := run_bind_ok h
  cases h
  obtain ⟨hsymbols, hresult⟩ := run_evaluated_ok hevaluated
  refine ⟨?_, hsymbols⟩
  cases value? with
  | none => exact Value.isAccepted_ofRaw _
  | some v => exact Constant.isAccepted_of_evaluate (hresult v rfl)

/-- A constant with a value is defined if the value is known. -/
theorem knownWith_eq (table : SymbolTable) (e : Enumerator) :
    knownWith table e = table.defineAll e.definition?.toList := by
  unfold knownWith Enumerator.definition?
  split <;> rfl

/-- The value of a constant of an enumeration is accepted, and it is defined if it is known. -/
theorem run_enumeratorValue_ok {previous : Option Value} {written : WrittenEnumerator}
    {s s' : Session} {value : Value}
    (h : (enumeratorValue previous written).run s = (.ok value, s'))
    (hprevious : ∀ v ∈ previous, v.IsAccepted) :
    value.IsAccepted ∧
      s'.symbols = s.symbols.defineAll (Enumerator.definition? ⟨written.ident, value⟩).toList := by
  have hvalue : ∃ found s₁, found.IsAccepted ∧ s₁.symbols = s.symbols ∧
      (do
        if found.isResolved then define written.ident found
        pure found : InSession Value).run s₁ = (.ok value, s') := by
    unfold enumeratorValue at h
    cases hwritten : written.expression with
    | none =>
      rw [hwritten] at h
      exact ⟨_, s, isAccepted_followingValue hprevious, rfl, h⟩
    | some tokens =>
      rw [hwritten] at h
      obtain ⟨found, s₁, hexpression, h⟩ := run_bind_ok h
      obtain ⟨haccepted, hsymbols⟩ := run_expressionValue_ok hexpression
      exact ⟨found, s₁, haccepted, hsymbols, h⟩
  obtain ⟨found, s₁, haccepted, hsymbols, hrun⟩ := hvalue
  obtain ⟨s₂, hdefine, hknown⟩ := run_define written.ident found s₁
  cases hdefine.symm.trans hrun
  exact ⟨haccepted, by rw [hknown, knownWith_eq, hsymbols]⟩

/-- The constants of an enumeration that are read have accepted values, and those whose value is known
are defined, in order. -/
theorem exec_enumerators_ok {enum : String} {bound : Nat} {previous : Option Value} {c c' : Cursor}
    {s s' : Session} {list : List Enumerator}
    (h : (enumerators enum bound previous).exec c s = (.ok (list, c'), s'))
    (hprevious : ∀ v ∈ previous, v.IsAccepted) :
    (∀ e ∈ list, e.value.IsAccepted) ∧
      s'.symbols = s.symbols.defineAll (list.filterMap Enumerator.definition?) := by
  induction bound generalizing previous c s list with
  | zero =>
    cases h
    exact ⟨nofun, rfl⟩
  | succ bound ih =>
    obtain ⟨written?, c₁, -, h⟩ := exec_read_bind_ok.mp h
    cases written? with
    | none =>
      cases h
      exact ⟨nofun, rfl⟩
    | some written =>
      dsimp only at h
      obtain ⟨value, c₂, s₁, hlift, hafter⟩ := exec_bind_ok h
      obtain ⟨hvalue, rfl⟩ := exec_lift_ok.mp hlift
      obtain ⟨haccepted, hsymbols⟩ := run_enumeratorValue_ok hvalue hprevious
      by_cases hlast : written.isLast = true
      · rw [if_pos hlast] at hafter
        cases hafter
        refine ⟨fun e he => List.mem_singleton.mp he ▸ haccepted, ?_⟩
        rw [hsymbols, List.filterMap_cons, List.filterMap_nil]
        cases Enumerator.definition? ⟨written.ident, value⟩ <;> rfl
      · rw [if_neg hlast] at hafter
        obtain ⟨rest, c₃, s₂, hrest, hlist⟩ := exec_bind_ok hafter
        cases hlist
        obtain ⟨hall, hdefined⟩ := ih hrest fun v hv => Option.mem_some.mp hv ▸ haccepted
        refine ⟨List.forall_mem_cons.mpr ⟨haccepted, hall⟩, ?_⟩
        rw [hdefined, hsymbols, ← SymbolTable.defineAll_append, List.filterMap_cons]
        cases Enumerator.definition? ⟨written.ident, value⟩ <;> rfl

/-- While the constants of an enumeration are read, the value before each of them is accepted. -/
theorem ReachedConstant.isAccepted {enum : String} {c c' : Cursor} {previous previous' : Option Value}
    {s s' : Session} (h : ReachedConstant enum c previous s c' previous' s')
    (hprevious : ∀ v ∈ previous, v.IsAccepted) : ∀ v ∈ previous', v.IsAccepted := by
  induction h with
  | here => exact hprevious
  | next _ hvalue _ _ ih =>
    have haccepted := (run_enumeratorValue_ok hvalue hprevious).1
    exact ih fun v hv => Option.mem_some.mp hv ▸ haccepted

/-! ## What a declaration adds -/

/-- A header and the table of symbols have grown by the same definitions, up to their order, and by
accepted values only. -/
def Extends (h : Header) (table : SymbolTable) (h' : Header) (table' : SymbolTable) : Prop :=
  ∃ definitions, table' = table.defineAll definitions ∧
    h'.definitions.Perm (h.definitions ++ definitions) ∧
    ∀ v ∈ h'.values, v ∈ h.values ∨ v.IsAccepted

namespace Extends

/-- Other declarations add no constants. -/
theorem of_eq {h h' : Header} {table table' : SymbolTable} (hmacros : h'.macros = h.macros)
    (henums : h'.enums = h.enums) (htable : table' = table) : Extends h table h' table' := by
  refine ⟨[], htable, ?_, fun v hv => .inl ?_⟩
  · unfold Header.definitions Header.enumerators
    rw [hmacros, henums, List.append_nil]
  · unfold Header.values Header.enumerators at hv
    rwa [hmacros, henums] at hv

/-- Definitions after others. -/
theorem trans {h h' h'' : Header} {table table' table'' : SymbolTable}
    (hfirst : Extends h table h' table') (hsecond : Extends h' table' h'' table'') :
    Extends h table h'' table'' := by
  obtain ⟨ds, rfl, hds, hvalues⟩ := hfirst
  obtain ⟨es, rfl, hes, hvalues'⟩ := hsecond
  refine ⟨ds ++ es, (SymbolTable.defineAll_append _ _ _).symm, ?_, fun v hv => ?_⟩
  · rw [← List.append_assoc]
    exact hes.trans (hds.append_right es)
  · rcases hvalues' v hv with hv | hv
    · exact hvalues v hv
    · exact .inr hv

/-- A macro is defined. -/
theorem addMacro {h : Header} {table : SymbolTable} {name : String} {value : Value}
    (haccepted : value.IsAccepted) :
    Extends h table { h with macros := h.macros ++ [⟨name, value⟩] } (table.insert name value) := by
  refine ⟨[(name, value)], rfl, ?_, fun v hv => ?_⟩
  · unfold Header.definitions
    rw [List.map_append, List.append_assoc, List.append_assoc]
    exact List.perm_append_comm.append_left _
  · unfold Header.values at hv ⊢
    rw [List.map_append] at hv
    simp only [List.mem_append, List.map_cons, List.map_nil, List.mem_singleton] at hv ⊢
    rcases hv with (hv | rfl) | hv
    · exact .inl (.inl hv)
    · exact .inr haccepted
    · exact .inl (.inr hv)

/-- Those constants of an enumeration are defined whose value is known. -/
theorem addEnumeration {h : Header} {table : SymbolTable} {e : Enumeration}
    (haccepted : ∀ k ∈ e.enumerators, k.value.IsAccepted) :
    Extends h table { h with enums := h.enums ++ [e] }
      (table.defineAll (e.enumerators.filterMap Enumerator.definition?)) := by
  have henumerators : Header.enumerators { h with enums := h.enums ++ [e] } =
      h.enumerators ++ e.enumerators := by
    simp [Header.enumerators]
  refine ⟨_, rfl, ?_, fun v hv => ?_⟩
  · unfold Header.definitions
    rw [henumerators, List.filterMap_append, List.append_assoc]
  · unfold Header.values at hv ⊢
    rw [henumerators, List.map_append, ← List.append_assoc] at hv
    rcases List.mem_append.mp hv with hv | hv
    · exact .inl hv
    · obtain ⟨k, hk, rfl⟩ := List.mem_map.mp hv
      exact .inr (haccepted k hk)

end Extends

/-- The statement leaves the known constants alone. -/
def IsSilent {α : Type} (m : Statement α) : Prop :=
  ∀ c s a c' s', m.exec c s = (.ok (a, c'), s') → s'.symbols = s.symbols

namespace IsSilent

/-- A reader does not know the session. -/
theorem read {α : Type} (m : Reader α) : IsSilent (Grammar.read m) := by
  intro c s a c' s' h
  obtain ⟨-, rfl⟩ := exec_read_ok.mp h
  rfl

/-- Asking for the known constants leaves them alone. -/
theorem symbols : IsSilent (liftM Grammar.symbols : Statement SymbolTable) := by
  intro c s a c' s' h
  cases h
  rfl

/-- A report leaves the known constants alone. -/
theorem report (entries : Log) : IsSilent (liftM (Grammar.report entries) : Statement Unit) := by
  intro c s a c' s' h
  cases h
  rfl

/-- A result by itself leaves them alone. -/
theorem pure {α : Type} (a : α) : IsSilent (Pure.pure a) := by
  intro c s b c' s' h
  cases h
  rfl

end IsSilent

/-- The declaration that starts from a header adds the same definitions to the header and to the
table. -/
def Records (h : Header) (m : Statement Draft) : Prop :=
  ∀ c s draft' c' s', m.exec c s = (.ok (draft', c'), s') →
    Extends h s.symbols draft'.header s'.symbols

namespace Records

variable {h : Header}

/-- A result by itself adds no constants. -/
theorem pure {draft' : Draft} (hmacros : draft'.header.macros = h.macros)
    (henums : draft'.header.enums = h.enums) : Records h (Pure.pure draft') := by
  intro c s draft c' s' heq
  cases heq
  exact .of_eq hmacros henums rfl

/-- What comes first leaves the known constants alone. -/
theorem bind {α : Type} {x : Statement α} {k : α → Statement Draft} (hx : IsSilent x)
    (hk : ∀ a, Records h (k a)) : Records h (x >>= k) := by
  intro c s draft' c' s' heq
  obtain ⟨a, c₁, s₁, hfirst, hrest⟩ := exec_bind_ok heq
  rw [← hx c s a c₁ s₁ hfirst]
  exact hk a c₁ s₁ draft' c' s' hrest

/-- A statement that is chosen by a condition. -/
theorem ite {p : Prop} [Decidable p] {m k : Statement Draft} (hm : Records h m)
    (hk : Records h k) : Records h (if p then m else k) := by
  split
  · exact hm
  · exact hk

end Records

/-- A directive defines a macro, or nothing. -/
theorem records_directive (draft : Draft) : Records draft.header (directive draft) := by
  refine .bind (.read _) fun word => .ite (.pure rfl rfl) (.ite ?_ ?_)
  · exact .bind (.read _) fun _ => .pure rfl rfl
  refine .bind (.read _) fun name => ?_
  have hbody : Records draft.header (read readLine >>= Comparison.defineMacro draft name) := by
    refine .bind (.read _) fun body => .ite ?_ ?_
    · exact .bind (.report _) fun _ => .pure rfl rfl
    refine .bind .symbols fun table => ?_
    intro c s draft' c' s' h
    obtain ⟨value?, c₁, s₁, hlift, h⟩ := exec_bind_ok h
    obtain ⟨hvalue, -⟩ := exec_lift_ok.mp hlift
    obtain ⟨hsymbols, hresult⟩ := run_evaluated_ok hvalue
    rw [← hsymbols]
    cases value? with
    | none =>
      cases h
      exact .of_eq rfl rfl rfl
    | some v =>
      cases h
      exact .addMacro (Constant.isAccepted_of_evaluateMacro (hresult v rfl))
  exact .ite (.bind (.read _) fun _ => hbody) hbody

/-- An enumeration defines its constants whose values are known. -/
theorem records_typedefEnum (draft : Draft) : Records draft.header (typedefEnum draft) := by
  refine .bind (.read _) fun tag => ?_
  cases tag with
  | none => exact .pure rfl rfl
  | some tag =>
    intro c s draft' c' s' h
    obtain ⟨e, c₁, s₁, henum, h⟩ := exec_bind_ok h
    cases h
    obtain ⟨bound, c₂, -, henum⟩ := exec_read_bind_ok.mp henum
    obtain ⟨list, c₃, s₂, hlist, henum⟩ := exec_bind_ok henum
    obtain ⟨name, c₄, -, henum⟩ := exec_read_bind_ok.mp henum
    obtain ⟨_, c₅, -, henum⟩ := exec_read_bind_ok.mp henum
    cases henum
    obtain ⟨haccepted, hsymbols⟩ := exec_enumerators_ok hlist nofun
    rw [hsymbols]
    exact .addEnumeration haccepted

/-- A struct declares no constants. -/
theorem records_typedefStruct (draft : Draft) : Records draft.header (typedefStruct draft) := by
  refine .bind (.read _) fun tag => ?_
  cases tag with
  | none => exact .pure rfl rfl
  | some tag =>
    refine .bind .symbols fun table => .bind (.read _) fun members => .bind (.read _) fun name => ?_
    refine .bind (.read _) fun _ => ?_
    have hadd (ident : String) : (draft.addStruct ident members).header.macros = draft.header.macros ∧
        (draft.addStruct ident members).header.enums = draft.header.enums := by
      rw [addStruct_eq]
      split <;> exact ⟨rfl, rfl⟩
    exact .pure (hadd _).1 (hadd _).2

/-- A type declaration defines the constants of an enumeration, or nothing. -/
theorem records_typedef (draft : Draft) : Records draft.header (typedef draft) := by
  refine .bind (.read _) fun kind => .ite (records_typedefEnum draft) ?_
  refine .ite (records_typedefStruct draft) (.ite (.pure rfl rfl) (.bind (.read _) fun name => ?_))
  refine .ite (.pure rfl rfl) (.ite (.bind (.read _) fun token => ?_) (.pure rfl rfl))
  exact .ite (.pure rfl rfl) (.pure rfl rfl)

/-- A function declares no constants. -/
theorem records_function (draft : Draft) : Records draft.header (function draft) := by
  refine .bind (.read _) fun convention => .ite (.pure rfl rfl) (.bind (.read _) fun name => ?_)
  refine .bind (.read _) fun _ => .bind (.read _) fun first => .bind (.read _) fun second => ?_
  extract_lets header ending
  have hending (parameters : List Field) : Records draft.header (ending parameters) :=
    .bind (.read _) fun _ => .pure rfl rfl
  refine .ite ?_ (.bind .symbols fun table => .bind (.read _) hending)
  exact .bind (.read _) fun _ => .bind (.read _) fun _ => .bind (.pure _) hending

/-- An interface declares no constants. -/
theorem records_interface (draft : Draft) : Records draft.header (interface draft) := by
  refine .bind (.read _) fun name => .bind (.read _) fun token => .ite (.pure rfl rfl) ?_
  extract_lets header members
  have hmembers (u : Unit) : Records draft.header (members u) :=
    .bind .symbols fun table => .bind (.read _) fun members => .pure rfl rfl
  exact .ite (.bind (.read _) hmembers) (hmembers ())

/-- A declaration adds the same definitions to the header and to the table. -/
theorem records_declaration (draft : Draft) (keyword : Token) :
    Records draft.header (declaration draft keyword) := by
  unfold declaration
  split
  · exact records_directive draft
  · refine .bind (.read _) fun _ => .bind (.read _) fun guid => .bind (.read _) fun _ => ?_
    exact .bind (.read _) fun name => .pure rfl rfl
  · exact records_typedef draft
  · exact records_function draft
  · exact records_interface draft
  · exact .pure rfl rfl

/-- All declarations of a header together do. -/
theorem records_declarations (bound : Nat) (draft : Draft) :
    Records draft.header (declarations bound draft) := by
  induction bound generalizing draft with
  | zero => exact .pure rfl rfl
  | succ bound ih =>
    refine .bind (.read _) fun token => .ite (.pure rfl rfl) (.bind (.read _) fun keyword => ?_)
    intro c s draft' c' s' h
    obtain ⟨draft₁, c₁, s₁, hfirst, hrest⟩ := exec_bind_ok h
    exact (records_declaration draft keyword _ _ _ _ _ hfirst).trans
      (ih draft₁ _ _ _ _ _ hrest)

/-! ## Whole headers -/

/-- What a header defines is what is defined in the table while it is read, and its values are
accepted. -/
theorem run_header_ok {strict : Bool} {file source : String} {s s' : Session} {h : Header}
    (hread : (header strict file source).run s = (.ok h, s')) :
    ∃ definitions, s'.symbols = s.symbols.defineAll definitions ∧
      h.definitions.Perm definitions ∧ ∀ v ∈ h.values, v.IsAccepted := by
  unfold header at hread
  split at hread
  · cases hread
  split at hread
  · unfold headerOfCursor at hread
    obtain ⟨⟨draft, c'⟩, s₁, hdeclarations, hread⟩ := run_bind_ok hread
    obtain ⟨_, s₂, hguids, hread⟩ := run_bind_ok hread
    cases hread
    obtain ⟨definitions, hsymbols, hperm, hvalues⟩ :=
      records_declarations _ ⟨.empty _, [], []⟩ _ _ _ _ _ hdeclarations
    have hsame : s₂.symbols = s₁.symbols := by
      unfold checkGuids at hguids
      split at hguids
      · cases hguids
        rfl
      · split at hguids
        · cases hguids
        · cases hguids
          rfl
    exact ⟨definitions, hsame.trans hsymbols, hperm, fun v hv => (hvalues v hv).resolve_left nofun⟩
  · cases hread
    exact ⟨[], rfl, .refl _, nofun⟩

/-- Headers, each with its name and its text, are read one after the other. -/
def readHeaders (strict : Bool) (sources : List (String × String)) : InSession (List Header) :=
  sources.mapM fun source => header strict source.1 source.2

/-- What all headers define is what is defined in the table while they are read. -/
theorem run_readHeaders_ok {strict : Bool} {sources : List (String × String)} {s s' : Session}
    {headers : List Header} (hread : (readHeaders strict sources).run s = (.ok headers, s')) :
    ∃ definitions, s'.symbols = s.symbols.defineAll definitions ∧
      (headers.flatMap Header.definitions).Perm definitions ∧
      ∀ h ∈ headers, ∀ v ∈ h.values, v.IsAccepted := by
  unfold readHeaders at hread
  induction sources generalizing s headers with
  | nil =>
    cases hread
    exact ⟨[], rfl, .refl _, nofun⟩
  | cons source sources ih =>
    rw [List.mapM_cons] at hread
    obtain ⟨h, s₁, hfirst, hread⟩ := run_bind_ok hread
    obtain ⟨rest, s₂, hrest, hread⟩ := run_bind_ok hread
    cases hread
    obtain ⟨ds, hds, hperm, haccepted⟩ := run_header_ok hfirst
    obtain ⟨es, hes, hperm', hall⟩ := ih hrest
    refine ⟨ds ++ es, ?_, hperm.append hperm', List.forall_mem_cons.mpr ⟨haccepted, hall⟩⟩
    rw [hes, hds, SymbolTable.defineAll_append]

/-- The table holds the constants of the headers. -/
structure HoldsConstants (table : SymbolTable) (headers : List Header) : Prop where
  /-- The names are those of the macros, and of the constants of enumerations whose value is known. -/
  names : ∀ name, name ∈ table.names ↔
    ∃ h ∈ headers, (∃ m ∈ h.macros, m.ident = name) ∨
      ∃ e ∈ h.enumerators, e.value.isResolved ∧ e.ident = name
  /-- A name that has one definition in all headers has the value that this definition records. -/
  single : ∀ name value,
    ((headers.flatMap Header.definitions).filter fun d => d.1 = name) = [(name, value)] →
      table.get? name = some value
  /-- The number of a value, in the table or in a header, is within 32 unsigned bits. -/
  bounds : ∀ v, (v ∈ table.values ∨ ∃ h ∈ headers, v ∈ h.values) →
    ∀ n, v.uint32 = some n → 0 ≤ n ∧ n < 0x100000000
  /-- No value, in the table or in a header, is both a number and a text. -/
  not_both : ∀ v, (v ∈ table.values ∨ ∃ h ∈ headers, v ∈ h.values) →
    v.uint32 = none ∨ v.string = none

/-- No number fails the check for 32 unsigned bits before it becomes a value. -/
structure PassesChecks : Prop where
  /-- The number of an expression passes it, under any table. -/
  evaluated : ∀ table tokens v, Constant.evaluate table tokens = .ok v → v.IsAccepted
  /-- Wherever in an enumeration a constant has no expression, its number passes it; the table and the
  place of the enumeration do not matter. -/
  following : ∀ enum c s c' previous s', ReachedConstant enum c none s c' previous s' →
    checkedFollowing? previous = some (followingValue previous)

/-- **Constants of a project.**  After headers have been read one after the other, without a failure
and starting with no known constants, the table holds the constants of the headers, and no number has
failed the check for 32 unsigned bits. -/
theorem readHeaders_constants {strict : Bool} {sources : List (String × String)} {s : Session}
    {headers : List Header} (hread : (readHeaders strict sources).run .start = (.ok headers, s)) :
    HoldsConstants s.symbols headers ∧ PassesChecks := by
  obtain ⟨definitions, htable, hperm, haccepted⟩ := run_readHeaders_ok hread
  have hstart : Session.start.symbols = .empty := rfl
  rw [hstart] at htable
  have hvalue : ∀ v, (v ∈ s.symbols.values ∨ ∃ h ∈ headers, v ∈ h.values) → v.IsAccepted := by
    rintro v (hv | ⟨h, hh, hv⟩)
    · rw [htable] at hv
      have hv := (SymbolTable.mem_values_defineAll hv).resolve_left List.not_mem_nil
      rw [← (hperm.map Prod.snd).mem_iff, List.map_flatMap, List.mem_flatMap] at hv
      obtain ⟨h, hh, hv⟩ := hv
      exact haccepted h hh v (Header.mem_values_of_definition hv)
    · exact haccepted h hh v hv
  refine ⟨⟨fun name => ?_, fun name value hsingle => ?_, ?_, ?_⟩, ?_, ?_⟩
  · have hnames : name ∈ s.symbols.names ↔
        name ∈ (headers.flatMap Header.definitions).map Prod.fst := by
      rw [htable, SymbolTable.mem_names_defineAll, (hperm.map Prod.fst).mem_iff]
      exact or_iff_right List.not_mem_nil
    rw [hnames, List.map_flatMap, List.mem_flatMap]
    exact exists_congr fun h => and_congr_right fun _ => h.mem_names_of_definitions name
  · rw [htable]
    refine SymbolTable.get?_defineAll_of_single (List.perm_singleton.mp ?_)
    rw [← hsingle]
    exact (hperm.filter _).symm
  · exact fun v hv n => (hvalue v hv).bounds
  · exact fun v hv => (hvalue v hv).not_both
  · exact fun _ _ _ => Constant.isAccepted_of_evaluate
  · exact fun _ _ _ _ _ _ hreached => checkedFollowing?_eq (hreached.isAccepted nofun)

/-- Two headers.  The second one defines two names of the first again; one constant of each keeps its
text. -/
def redefinedSources : List (String × String) :=
  [("a.h", "#define A 1\n#define S \"x\"\ntypedef enum E \x7b B = A, C, D = foo \x7d E;\n"),
    ("b.h", "#define A -5\n#define G C\ntypedef enum H \x7b B = 4294967295, K \x7d H;\n")]

/-- Both headers are read, and the table they leave holds the constants of both under the names of the
first definitions. -/
theorem readHeaders_constants_redefined :
    ∃ headers s, (readHeaders true redefinedSources).run .start = (.ok headers, s) ∧
      s.symbols.names = ["A", "S", "B", "C", "G"] ∧ HoldsConstants s.symbols headers ∧
      PassesChecks := by
  obtain ⟨hread, hnames⟩ : ((readHeaders true redefinedSources).run .start).1.toBool = true ∧
      ((readHeaders true redefinedSources).run .start).2.symbols.names =
        ["A", "S", "B", "C", "G"] := by
    decide +kernel
  rcases hrun : (readHeaders true redefinedSources).run .start with ⟨_ | headers, s⟩
  · rw [hrun] at hread
    cases hread
  · rw [hrun] at hnames
    exact ⟨headers, s, rfl, hnames, readHeaders_constants hrun⟩

end Grammar

end SdkBindings
