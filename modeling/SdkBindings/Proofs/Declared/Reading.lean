import SdkBindings.Proofs.Binding.Attaching
import SdkBindings.Proofs.Declared.Types
import SdkBindings.Proofs.Fields.Lists
import SdkBindings.Proofs.Grammar.Statement

/-!
# Headers that have been read are declared

The grammar makes types in three places only: at the end of a plain field, at the end of a method and
for a union.  Each of them fills in what the shape calls for, so what a list of fields yields is
declared (`yields_fieldList`), by induction on its bound.  A header that is being read collects
nothing but such lists (`Draft.IsDeclared`), and attaching the tables of methods at the end adds none.
-/

namespace SdkBindings.Grammar

open Reader

/-! ## What readers yield -/

/-- Whenever the reader succeeds, its result is `P`. -/
def Yields {α : Type} (m : Reader α) (P : α → Prop) : Prop :=
  ∀ c a c', m c = .ok (a, c') → P a

namespace Yields

variable {α β : Type} {P : α → Prop} {Q : β → Prop}

/-- A result by itself. -/
theorem pure {a : α} (h : P a) : Yields (Pure.pure a) P := by
  rintro c _ _ ⟨⟩
  exact h

/-- A failure yields nothing. -/
theorem fail (token : Token) (expected context : String) :
    Yields (Reader.fail token expected context : Reader α) P := by
  rintro c _ _ ⟨⟩

/-- The second reader may rely on what the first one yields. -/
theorem bind {m : Reader α} {k : α → Reader β} (hm : Yields m P)
    (hk : ∀ a, P a → Yields (k a) Q) : Yields (m >>= k) Q := by
  intro c b c'' h
  obtain ⟨a, c', ha, hb⟩ := reader_bind_ok h
  exact hk a (hm c a c' ha) c' b c'' hb

/-- The second reader need not rely on anything. -/
theorem after {m : Reader α} {k : α → Reader β} (hk : ∀ a, Yields (k a) Q) :
    Yields (m >>= k) Q :=
  bind (fun _ _ _ _ => trivial) fun a (_ : True) => hk a

/-- A reader that is chosen by a condition may rely on it. -/
theorem ite {p : Prop} [Decidable p] {m k : Reader α} (hm : p → Yields m P)
    (hk : ¬ p → Yields k P) : Yields (if p then m else k) P := by
  split
  · exact hm ‹p›
  · exact hk ‹¬ p›

end Yields

/-! ## Fields -/

/-- What a pointer may lead to: a name or an array of the name, with nothing inside it. -/
structure IsTarget (typeName : String) (target : CType) : Prop where
  /-- The type is declared. -/
  declared : target.All CType.IsDeclared Field.IsUnpaired
  /-- It is a name or an array. -/
  shape : target.shape = .basic ∨ target.shape = .array
  /-- It is of the name. -/
  ident : target.ident = typeName

/-- A name is a target. -/
theorem isTarget_basic (typeName : String) : IsTarget typeName (.basic typeName) := by
  refine ⟨CType.all_iff.mpr ⟨⟨rfl, nofun, nofun, nofun⟩, ?_⟩, .inl rfl, rfl⟩
  simp [CType.basic, CType.ofShape]

/-- An array with dimensions is a target. -/
theorem isTarget_array (typeName : String) {sizes : List Int} (h : sizes ≠ []) :
    IsTarget typeName (.array typeName sizes) := by
  refine ⟨CType.all_iff.mpr ⟨⟨rfl, fun _ => h, nofun, nofun⟩, ?_⟩, .inr rfl, rfl⟩
  simp [CType.array, CType.ofShape]

/-- A pointer to a target is declared. -/
theorem all_pointer {typeName : String} {target : CType} (h : IsTarget typeName target) {depth : Nat}
    (hdepth : depth ≠ 0) :
    (CType.pointer typeName depth target).All CType.IsDeclared Field.IsUnpaired := by
  have hpositive : (1 : Int) ≤ depth := by omega
  have hself : (CType.pointer typeName depth target).IsDeclared :=
    ⟨rfl, nofun, nofun, fun _ => ⟨hpositive, target, rfl, h.shape, h.ident⟩⟩
  refine CType.all_iff.mpr ⟨hself, ?_⟩
  simpa [CType.pointer, CType.ofShape] using h.declared

/-- A union of declared fields is declared. -/
theorem all_union {members : List Field} (h : Field.AreDeclared members) :
    (CType.union members).All CType.IsDeclared Field.IsUnpaired := by
  refine CType.all_iff.mpr ⟨⟨rfl, nofun, nofun, nofun⟩, ?_⟩
  simpa [CType.union, CType.ofShape] using h

/-- A method with declared parameters, the receiver first, is declared. -/
theorem all_functionPointer (name result : String) {parameters : List Field}
    (h : Field.AreDeclared parameters)
    (hreceiver : parameters.head?.map Field.name = some receiverName) :
    (CType.functionPointer name parameters result).All CType.IsDeclared Field.IsUnpaired := by
  refine CType.all_iff.mpr ⟨⟨rfl, nofun, fun _ => hreceiver, nofun⟩, ?_⟩
  simpa [CType.functionPointer, CType.ofShape] using h

/-- The field is declared and so is everything inside it. -/
abbrev IsDeclaredField (x : Field) : Prop :=
  x.All CType.IsDeclared Field.IsUnpaired

/-- A field that is not paired is declared if its type is. -/
theorem isDeclaredField_mk {name : String} {type : CType} {isOut hasCount isErased : Bool}
    (h : type.All CType.IsDeclared Field.IsUnpaired) :
    IsDeclaredField ⟨name, type, isOut, hasCount, false, false, isErased⟩ :=
  Field.all_iff.mpr ⟨⟨rfl, rfl⟩, h⟩

/-- From a bracket on at least one dimension is read. -/
theorem yields_dimensions (symbols : SymbolTable) (typeName : String) (bound : Nat) {token : Token}
    (h : token.text = "[") :
    Yields (dimensions symbols typeName (bound + 1) token) fun p => p.1 ≠ [] := by
  rw [dimensions]
  refine .ite (fun _ => ?_) fun hno => absurd h hno
  refine .after fun size => .after fun n => .after fun _ => .after fun following => ?_
  exact .after fun rest => .pure (List.cons_ne_nil _ _)

/-- The end of a plain field makes a pointer, or leaves the target as it is. -/
theorem yields_terminatedField (brackets : Brackets) (usage : Usage) {typeName : String}
    (name : String) (depth : Nat) {target : CType} (h : IsTarget typeName target) (token : Token) :
    Yields (terminatedField brackets usage typeName name depth target token)
      fun p => IsDeclaredField p.1 := by
  unfold terminatedField
  extract_lets type ending
  have htype : type.All CType.IsDeclared Field.IsUnpaired := by
    by_cases hdepth : depth = 0
    · simpa [type, hdepth] using h.declared
    · simpa [type, hdepth] using all_pointer h hdepth
  have hending (u : Unit) : Yields (ending u) fun p => IsDeclaredField p.1 :=
    .pure (isDeclaredField_mk htype)
  exact .ite (fun _ => .after hending) fun _ => hending ()

/-- From its name on, a plain field is one of its target, which is an array if a bracket follows. -/
theorem yields_namedField (symbols : SymbolTable) (brackets : Brackets) (usage : Usage)
    (typeName : String) (bound depth : Nat) (token : Token) :
    Yields (namedField symbols brackets usage typeName (bound + 1) depth token)
      fun p => IsDeclaredField p.1 := by
  unfold namedField
  extract_lets name afterName
  have hafterName (u : Unit) : Yields (afterName u) fun p => IsDeclaredField p.1 := by
    refine .after fun following => .ite (fun hopen => ?_) fun _ => ?_
    · refine .bind (yields_dimensions symbols typeName bound hopen) fun p hsizes => ?_
      exact yields_terminatedField brackets usage name depth (isTarget_array typeName hsizes) p.2
    · exact yields_terminatedField brackets usage name depth (isTarget_basic typeName) following
  exact .ite (fun _ => .after hafterName) fun _ => hafterName ()

/-- A plain field is declared. -/
theorem yields_plainField (symbols : SymbolTable) (brackets : Brackets) (usage : Usage)
    (typeName : String) (token : Token) :
    Yields (plainField symbols brackets usage typeName token) fun p => IsDeclaredField p.1 := by
  rw [plainField_eq]
  refine .after fun bound => .after fun leading => .ite (fun _ => ?_) fun _ => ?_
  · refine .after fun following => .after fun trailing => ?_
    exact yields_namedField symbols brackets usage typeName bound _ _
  · exact yields_namedField symbols brackets usage typeName bound _ _

/-- A method passes the check only if the receiver comes first. -/
theorem yields_checkReceiver (name : String) (first : Token) (parameters : List Field) :
    Yields (checkReceiver name first parameters)
      fun _ => parameters.head?.map Field.name = some receiverName := by
  unfold checkReceiver
  refine .ite (fun _ => .fail _ _ _) fun hactual => .pure ?_
  have hactual := Classical.not_not.mp hactual
  cases parameters with
  | nil => exact absurd hactual (by decide)
  | cons p rest => exact congrArg some hactual

mutual

/-- What is read as a list of fields is declared. -/
theorem yields_fieldList (symbols : SymbolTable) (bound : Nat) (brackets : Brackets) :
    Yields (fieldList symbols bound brackets) Field.AreDeclared := by
  cases bound with
  | zero =>
    rw [fieldList]
    exact .after fun c => .fail _ _ _
  | succ bound =>
    have hlist (brackets : Brackets) : Yields (fieldList symbols bound brackets) Field.AreDeclared :=
      yields_fieldList symbols bound brackets
    rw [fieldList]
    refine .after fun token => ?_
    refine .ite (fun _ => .pure (by simp)) fun _ => .ite (fun _ => .fail _ _ _) fun _ => ?_
    refine .ite (fun _ => ?_) fun _ => .ite (fun _ => hlist brackets) fun _ => ?_
    · refine .bind (hlist brackets) fun rest hrest => .pure ?_
      exact Field.allOf_cons.mpr ⟨isDeclaredField_mk (isTarget_basic "").declared, hrest⟩
    refine .ite (fun _ => ?_) fun _ => ?_
    · refine .after fun _ => .bind (hlist .members) fun members hmembers => .after fun _ => ?_
      refine .bind (hlist brackets) fun rest hrest => .pure ?_
      exact Field.allOf_cons.mpr ⟨isDeclaredField_mk (all_union hmembers), hrest⟩
    · refine .bind (yields_field symbols bound brackets token) fun p hfield => ?_
      refine .ite (fun _ => .pure ?_) fun _ => .bind (hlist brackets) fun rest hrest => .pure ?_
      · exact Field.allOf_cons.mpr ⟨hfield, Field.allOf_nil.mpr trivial⟩
      · exact Field.allOf_cons.mpr ⟨hfield, hrest⟩

/-- What is read as a field is declared. -/
theorem yields_field (symbols : SymbolTable) (bound : Nat) (brackets : Brackets) (token : Token) :
    Yields (field symbols bound brackets token) fun p => IsDeclaredField p.1 := by
  cases bound with
  | zero =>
    rw [field]
    exact .fail _ _ _
  | succ bound =>
    have hmethod (usage : Usage) (type : String) :
        Yields (methodField symbols bound brackets usage type) fun p => IsDeclaredField p.1 := by
      refine .after fun name => .after fun first => ?_
      refine .bind (yields_fieldList symbols bound .parameters) fun parameters hparameters => ?_
      refine .bind (yields_checkReceiver name first parameters) fun _ hreceiver => ?_
      refine .after fun token => ?_
      extract_lets ending
      have hending (u : Unit) : Yields (ending u) fun p => IsDeclaredField p.1 :=
        .pure (isDeclaredField_mk (all_functionPointer name type hparameters hreceiver))
      exact .ite (fun _ => .after hending) fun _ => hending ()
    have hafterUsage (usage : Usage) (token : Token) :
        Yields (fieldAfterUsage symbols bound brackets usage token)
          fun p => IsDeclaredField p.1 := by
      refine .after fun n => .after fun type => .ite (fun _ => hmethod usage type.1) fun _ => ?_
      exact yields_plainField symbols brackets usage type.1 type.2
    rw [field_succ]
    refine .ite (fun _ => ?_) fun _ => .after fun p => hafterUsage p.1 p.2
    exact .after fun _ => .after fun following => .after fun p => hafterUsage p.1 p.2

end

/-- A list that has just been opened is declared. -/
theorem yields_fields (symbols : SymbolTable) (brackets : Brackets) :
    Yields (fields symbols brackets) Field.AreDeclared :=
  .after fun n => yields_fieldList symbols (n + 1) brackets

/-! ## Headers that are being read -/

/-- Everything that has been collected so far is declared. -/
structure Draft.IsDeclared (draft : Draft) : Prop where
  /-- The parameters of the functions. -/
  parameters : ∀ f ∈ draft.header.functions, Field.AreDeclared f.parameters
  /-- The members of the structs, none of which has its table yet. -/
  members : ∀ s ∈ draft.header.structs, Field.AreDeclared s.fields ∧ s.vtable = none
  /-- The tables of methods. -/
  tables : ∀ name table, draft.tables.lookup name = some table →
    Field.AreDeclared table.fields ∧ table.vtable = none

namespace Draft.IsDeclared

variable {draft : Draft}

/-- Nothing has been collected at the start. -/
theorem start (file : String) : Draft.IsDeclared ⟨.empty file, [], []⟩ :=
  ⟨nofun, nofun, nofun⟩

/-- A function with declared parameters. -/
theorem addFunction (h : draft.IsDeclared) {f : Function} (hf : Field.AreDeclared f.parameters) :
    Draft.IsDeclared { draft with header := { draft.header with
      functions := draft.header.functions ++ [f] } } := by
  refine ⟨fun g hg => ?_, h.members, h.tables⟩
  rcases List.mem_append.mp hg with hg | hg
  · exact h.parameters g hg
  · rwa [List.mem_singleton.mp hg]

/-- A struct with declared members. -/
theorem addPlain (h : draft.IsDeclared) (ident : String) {members : List Field}
    (hmembers : Field.AreDeclared members) :
    Draft.IsDeclared { draft with header := { draft.header with
      structs := draft.header.structs ++ [plainStruct ident members] } } := by
  refine ⟨h.parameters, fun s hs => ?_, h.tables⟩
  rcases List.mem_append.mp hs with hs | hs
  · exact h.members s hs
  · rw [List.mem_singleton.mp hs]
    exact ⟨hmembers, rfl⟩

/-- A struct, or a table of methods, with declared members. -/
theorem addStruct (h : draft.IsDeclared) (ident : String) {members : List Field}
    (hmembers : Field.AreDeclared members) : (draft.addStruct ident members).IsDeclared := by
  rw [addStruct_eq]
  split
  · refine ⟨h.parameters, h.members, fun name table htable => ?_⟩
    have htail : Field.AreDeclared members.tail :=
      Field.allOf_iff.mpr fun x hx => Field.allOf_iff.mp hmembers x (List.mem_of_mem_tail hx)
    rw [Entries.lookup_set] at htable
    split at htable
    · cases htable
      exact ⟨htail, rfl⟩
    · exact h.tables name table htable
  · exact h.addPlain ident hmembers

end Draft.IsDeclared

/-- Whenever the statement succeeds, its result is `P`. -/
def Establishes {α : Type} (m : Statement α) (P : α → Prop) : Prop :=
  ∀ c s a c' s', m.exec c s = (.ok (a, c'), s') → P a

namespace Establishes

variable {α β : Type} {P : α → Prop} {Q : β → Prop}

/-- A result by itself. -/
theorem pure {a : α} (h : P a) : Establishes (Pure.pure a) P := by
  intro c s b c' s' heq
  cases heq
  exact h

/-- A reader as a statement. -/
theorem read {m : Reader α} (hm : Yields m P) : Establishes (Grammar.read m) P :=
  fun c _ a c' _ h => hm c a c' (exec_read_ok.mp h).1

/-- The second statement may rely on what the first one establishes. -/
theorem bind {m : Statement α} {k : α → Statement β} (hm : Establishes m P)
    (hk : ∀ a, P a → Establishes (k a) Q) : Establishes (m >>= k) Q := by
  intro c s b c'' s'' h
  obtain ⟨a, c', s', ha, hb⟩ := exec_bind_ok h
  exact hk a (hm c s a c' s' ha) c' s' b c'' s'' hb

/-- The second statement need not rely on anything. -/
theorem after {m : Statement α} {k : α → Statement β} (hk : ∀ a, Establishes (k a) Q) :
    Establishes (m >>= k) Q :=
  bind (fun _ _ _ _ _ _ => trivial) fun a (_ : True) => hk a

/-- A statement that is chosen by a condition. -/
theorem ite {p : Prop} [Decidable p] {m k : Statement α} (hm : Establishes m P)
    (hk : Establishes k P) : Establishes (if p then m else k) P := by
  split
  · exact hm
  · exact hk

end Establishes

section

variable {draft : Draft} (h : draft.IsDeclared)

include h

/-- A directive collects no fields. -/
theorem establishes_directive : Establishes (directive draft) Draft.IsDeclared := by
  refine .after fun word => .ite (.pure h) (.ite (.after fun _ => .pure h) ?_)
  refine .after fun name => ?_
  have hbody : Establishes (read readLine >>= Comparison.defineMacro draft name)
      Draft.IsDeclared := by
    refine .after fun body => .ite (.after fun _ => .pure h) ?_
    refine .after fun table => .after fun value => ?_
    cases value with
    | none => exact .pure h
    | some v => exact .after fun _ => .pure ⟨h.parameters, h.members, h.tables⟩
  exact .ite (.after fun _ => hbody) hbody

/-- An interface identifier has no fields. -/
theorem establishes_interfaceGuid : Establishes (interfaceGuid draft) Draft.IsDeclared := by
  refine .after fun _ => .after fun guid => .after fun _ => .after fun name => ?_
  exact .pure ⟨h.parameters, h.members, h.tables⟩

/-- An enumeration has no fields. -/
theorem establishes_typedefEnum : Establishes (typedefEnum draft) Draft.IsDeclared := by
  refine .after fun tag => ?_
  cases tag with
  | none => exact .pure h
  | some tag => exact .after fun enum => .pure ⟨h.parameters, h.members, h.tables⟩

/-- A struct has declared members. -/
theorem establishes_typedefStruct : Establishes (typedefStruct draft) Draft.IsDeclared := by
  refine .after fun tag => ?_
  cases tag with
  | none => exact .pure h
  | some tag =>
    refine .after fun table => .bind (.read (yields_fields table .members)) fun members hmembers => ?_
    exact .after fun name => .after fun _ => .pure (h.addStruct _ hmembers)

/-- A type declaration keeps what has been collected declared. -/
theorem establishes_typedef : Establishes (typedef draft) Draft.IsDeclared := by
  refine .after fun kind => .ite (establishes_typedefEnum h) (.ite (establishes_typedefStruct h) ?_)
  have halias (ident target : String) : (draft.addAlias ident target).IsDeclared :=
    ⟨h.parameters, h.members, h.tables⟩
  refine .ite (.pure h) (.after fun name => .ite (.pure (halias _ _)) ?_)
  exact .ite (.after fun token => .ite (.pure (halias _ _)) (.pure h)) (.pure h)

/-- A function has declared parameters. -/
theorem establishes_function : Establishes (function draft) Draft.IsDeclared := by
  refine .after fun convention => .ite (.pure h) ?_
  refine .after fun name => .after fun _ => .after fun first => .after fun second => ?_
  extract_lets header ending
  have hending (parameters : List Field) (hparameters : Field.AreDeclared parameters) :
      Establishes (ending parameters) Draft.IsDeclared :=
    .after fun _ => .pure (h.addFunction hparameters)
  refine .ite (.after fun _ => .after fun _ => ?_) (.after fun table => ?_)
  · exact .bind (.pure (Field.allOf_nil.mpr trivial)) hending
  · exact .bind (.read (yields_fields table .parameters)) hending

/-- An interface has declared members. -/
theorem establishes_interface : Establishes (interface draft) Draft.IsDeclared := by
  refine .after fun name => .after fun token => .ite (.pure h) ?_
  extract_lets header members
  have hmembers (u : Unit) : Establishes (members u) Draft.IsDeclared := by
    refine .after fun table => .bind (.read (yields_fields table .members)) fun members hmembers => ?_
    exact .pure (h.addPlain name.text hmembers)
  exact .ite (.after hmembers) (hmembers ())

/-- One declaration keeps what has been collected declared. -/
theorem establishes_declaration (keyword : Token) :
    Establishes (declaration draft keyword) Draft.IsDeclared := by
  unfold declaration
  split
  · exact establishes_directive h
  · exact establishes_interfaceGuid h
  · exact establishes_typedef h
  · exact establishes_function h
  · exact establishes_interface h
  · exact .pure h

end

/-- All declarations of a header together do. -/
theorem establishes_declarations (bound : Nat) {draft : Draft} (h : draft.IsDeclared) :
    Establishes (declarations bound draft) Draft.IsDeclared := by
  induction bound generalizing draft with
  | zero => exact .pure h
  | succ bound ih =>
    refine .after fun token => .ite (.pure h) (.after fun keyword => ?_)
    exact .bind (establishes_declaration h keyword) fun draft' h' => ih h'

/-! ## Headers that have been read -/

/-- Attaching the tables of methods leaves everything declared. -/
theorem Draft.IsDeclared.finish {draft : Draft} (h : draft.IsDeclared) :
    draft.finish.IsDeclared := by
  have hnone : draft.IsAttached [] := fun p hp => absurd hp List.not_mem_nil
  obtain ⟨hattached, -, hsame, -⟩ :=
    completeAll_spec draft (fun s hs => (h.members s hs).2) hnone
  have htable : ∀ t ∈ draft.finish.vtables, Field.AreDeclared t.fields ∧ t.vtable = none := by
    intro t ht
    obtain ⟨entry, hentry, rfl⟩ := List.mem_map.mp ht
    exact h.tables entry.1 entry.2 (hattached entry hentry)
  refine ⟨⟨h.parameters, fun s hs => ?_, fun t ht => (htable t ht).1⟩, fun t ht => (htable t ht).2⟩
  have hmem : (s.ident, s.fields) ∈ draft.header.structs.map fun s => (s.ident, s.fields) := by
    rw [← hsame]
    exact List.mem_map_of_mem hs
  obtain ⟨r, hr, hfields⟩ := List.mem_map.mp hmem
  have hfields : r.fields = s.fields := congrArg Prod.snd hfields
  rw [← hfields]
  exact (h.members r hr).1

/-- A header that has been read is declared. -/
theorem isDeclared_of_run_header {strict : Bool} {file source : String} {s s' : Session}
    {h : Header} (hread : (header strict file source).run s = (.ok h, s')) : h.IsDeclared := by
  unfold header at hread
  split at hread
  · cases hread
  split at hread
  · rename_i c hcursor
    obtain ⟨⟨draft, c'⟩, s₁, hdeclarations, hread⟩ := run_bind_ok hread
    obtain ⟨_, s₂, hguids, hread⟩ := run_bind_ok hread
    cases hread
    exact (establishes_declarations _ (.start c.file) _ _ _ _ _ hdeclarations).finish
  · cases hread
    exact ⟨⟨nofun, nofun, nofun⟩, nofun⟩

/-- So is a header that is the outcome of a file. -/
theorem isDeclared_of_readHeader {strict : Bool} {file source : String} {s : Session} {h : Header}
    (hread : (readHeader strict file source s).1 = .ok h) : h.IsDeclared := by
  rcases hrun : (header strict file source).run s with ⟨result, s'⟩
  have hresult : result = .ok h := by
    rw [readHeader, hrun] at hread
    exact hread
  rw [hresult] at hrun
  exact isDeclared_of_run_header hrun

end SdkBindings.Grammar
