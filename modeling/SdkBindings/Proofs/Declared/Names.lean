import SdkBindings.Proofs.Binding.Attaching
import SdkBindings.Proofs.Declared.Reading

/-!
# Declared names

A name enters a header as the text of a token.  A token of a header is an identifier by its kind exactly
if its text is spelled as one (`Token.IsFaithful`), so a name that is taken from a token of that kind is
an identifier.  The grammar asks for the kind everywhere but in one place: what follows `typedef UINT`
becomes an alias whatever it is (`NamesUnsigned`).

What declarations add is looked at item by item.  Each item has identifiers for names, an alias apart,
and the alias of an item has one exactly if it does not come from such a place
(`addsNames_declaration`).  Declarations add one item after the other, so both hold of the whole header
(`readHeader_names`).
-/

namespace SdkBindings

/-! ## Names of declarations -/

/-- The text is an identifier. -/
def IsName (text : String) : Prop :=
  Lexer.isIdentifier text.toList = true

instance (text : String) : Decidable (IsName text) :=
  inferInstanceAs (Decidable (_ = true))

/-- The name of a method is `p`. -/
def CType.HasName (p : String → Prop) (t : CType) : Prop :=
  t.shape = .functionPointer → p t.name

/-- The name of the field is `p`; a union has an empty one instead. -/
structure Field.HasName (p : String → Prop) (x : Field) : Prop where
  /-- A union. -/
  union : x.type.shape = .union → x.name = ""
  /-- Anything else. -/
  other : x.type.shape ≠ .union → p x.name

/-- The names of all fields and methods of a list and inside it are `p`. -/
abbrev Field.HaveNames (p : String → Prop) : List Field → Prop :=
  Field.AllOf (CType.HasName p) (Field.HasName p)

/-- The name of an enumeration and those of its constants are `p`. -/
structure Enumeration.HasNames (p : String → Prop) (e : Enumeration) : Prop where
  /-- The enumeration. -/
  ident : p e.ident
  /-- Its constants. -/
  enumerators : ∀ x ∈ e.enumerators, p x.ident

/-- The names of all declarations of a header and of all fields and methods inside them are `p`,
macros and aliases apart. -/
structure Header.HasNames (p : String → Prop) (h : Header) : Prop where
  /-- Enumerations and their constants. -/
  enums : ∀ e ∈ h.enums, e.HasNames p
  /-- Functions and their parameters. -/
  functions : ∀ f ∈ h.functions, p f.ident ∧ Field.HaveNames p f.parameters
  /-- Structs and their members. -/
  structs : ∀ s ∈ h.structs, p s.ident ∧ Field.HaveNames p s.fields
  /-- Tables of methods and their entries. -/
  tables : ∀ t ∈ h.vtables, p t.ident ∧ Field.HaveNames p t.fields

/-! ## Tokens -/

/-- The kind of a token tells whether its text is an identifier. -/
def Token.IsFaithful (token : Token) : Prop :=
  token.kind = .ident ↔ IsName token.text

/-- A piece of a header is faithful. -/
theorem Lexer.IsPiece.isFaithful {token : Token} (h : IsPiece token) : token.IsFaithful := by
  obtain ⟨c, rest, k, hscan, htext⟩ := h
  rw [Token.IsFaithful, IsName, htext, String.toList_ofList, isIdentifier, Bool.and_eq_true]
  constructor
  · intro hkind
    rw [hkind] at hscan
    rcases scan_eq_some hscan with h | ⟨h, -⟩ | ⟨-, hstart, hk⟩ | ⟨h, -⟩ | ⟨h, -⟩ | ⟨h, -⟩
    · cases h
    · cases h
    · refine ⟨hstart, List.all_eq_true.mpr fun d hd => ?_⟩
      rw [hk] at hd
      exact mem_take_run hd
    all_goals cases h
  · rintro ⟨hstart, -⟩
    rw [scan_ident hstart] at hscan
    exact (Option.some.inj (congrArg Prod.fst (Option.some.inj hscan))).symm

/-- All tokens from the cursor on are faithful, and so is the end of the header. -/
structure Cursor.IsFaithful (c : Cursor) : Prop where
  /-- The tokens ahead. -/
  ahead : ∀ t ∈ c.ahead, t.IsFaithful
  /-- The end of the header. -/
  eof : c.eof.IsFaithful

/-- What is ahead later is faithful as well. -/
theorem Cursor.IsFaithful.of_isBefore {c c' : Cursor} (h : c.IsFaithful) (hbefore : c.IsBefore c') :
    c'.IsFaithful :=
  ⟨fun t ht => h.ahead t (hbefore.mem_ahead ht), hbefore.2.1.symm ▸ h.eof⟩

/-- The token that is read is faithful. -/
theorem Cursor.IsFaithful.next {c : Cursor} (h : c.IsFaithful) (mode : Mode) :
    (c.next mode).1.IsFaithful := by
  have hsettled := h.of_isBefore (c.isBefore_settle mode)
  simp only [Cursor.next, Cursor.current]
  split
  · rename_i token rest hahead
    exact hsettled.ahead token (hahead ▸ List.mem_cons_self)
  · exact hsettled.eof

namespace Grammar

open Reader

/-- A cursor over the tokens of a header is faithful. -/
theorem isFaithful_of_ofTokens? {file source : String} {lexed : List Token} {c : Cursor}
    (hlexed : (Lexer.lex file source).tokens? = .ok lexed)
    (hcursor : Cursor.ofTokens? file lexed = some c) : c.IsFaithful := by
  obtain ⟨hpieces, heof⟩ := pieces_of_ofTokens? hlexed hcursor
  refine ⟨fun t ht => (hpieces t ht).isFaithful, ?_⟩
  unfold Lexer.Lexed.tokens? at hlexed
  split at hlexed <;> cases hlexed
  unfold Cursor.ofTokens? at hcursor
  split at hcursor
  · rename_i last hlast
    split at hcursor
    · cases hcursor
      rcases Lexer.isPiece_of_mem_lexFrom (List.mem_of_getLast? hlast) with hpiece | ⟨-, htext⟩
      · exact hpiece.isFaithful
      · refine iff_of_false (by rw [heof]; nofun) ?_
        rw [htext]
        decide
    · cases hcursor
  · cases hcursor

/-! ## What is read from faithful tokens -/

/-- Whenever the reader succeeds on faithful tokens, its result is `P` and those behind it are
faithful. -/
def Offers {α : Type} (m : Reader α) (P : α → Prop) : Prop :=
  ∀ c a c', c.IsFaithful → m c = .ok (a, c') → P a ∧ c'.IsFaithful

namespace Offers

variable {α β : Type} {P : α → Prop} {Q : β → Prop}

/-- A result by itself. -/
theorem pure {a : α} (h : P a) : Offers (Pure.pure a) P := by
  rintro c _ _ hc ⟨⟩
  exact ⟨h, hc⟩

/-- A failure has no result. -/
theorem fail (token : Token) (expected context : String) :
    Offers (Reader.fail token expected context : Reader α) P := by
  rintro c _ _ - ⟨⟩

/-- A reader that moves forward stays on faithful tokens. -/
theorem of_forward {m : Reader α} (hm : Forward m) : Offers m fun _ => True :=
  fun c a c' hc h => ⟨trivial, hc.of_isBefore (hm c a c' h)⟩

/-- The second reader may rely on what the first one offers. -/
theorem bind {m : Reader α} {k : α → Reader β} (hm : Offers m P) (hk : ∀ a, P a → Offers (k a) Q) :
    Offers (m >>= k) Q := by
  intro c b c'' hc h
  obtain ⟨a, c', ha, hb⟩ := reader_bind_ok h
  obtain ⟨hP, hc'⟩ := hm c a c' hc ha
  exact hk a hP c' b c'' hc' hb

/-- The second reader relies on nothing but faithful tokens. -/
theorem after {m : Reader α} {k : α → Reader β} (hm : Forward m) (hk : ∀ a, Offers (k a) Q) :
    Offers (m >>= k) Q :=
  bind (of_forward hm) fun a _ => hk a

/-- A reader that is chosen by a condition may rely on it. -/
theorem ite {p : Prop} [Decidable p] {m k : Reader α} (hm : p → Offers m P) (hk : ¬ p → Offers k P) :
    Offers (if p then m else k) P := by
  split
  · exact hm ‹p›
  · exact hk ‹¬ p›

/-- A check that fails unless the condition holds. -/
theorem check {p : Prop} [Decidable p] {token : Token} {expected context : String}
    {k : Unit → Reader α} (hk : ¬ p → Offers (k ()) P) :
    Offers (if p then Reader.fail token expected context >>= k else k ()) P :=
  ite (fun _ => bind (P := fun _ => False) (fail _ _ _) fun _ h => h.elim) hk

/-- The token that is read is faithful. -/
theorem next : Offers Reader.next Token.IsFaithful := by
  rintro c _ _ hc ⟨⟩
  exact ⟨hc.next .code, hc.of_isBefore (c.isBefore_next .code)⟩

/-- An identifier that is asked for has a name for a text. -/
theorem expectIdent (context : String) :
    Offers (expectKind .ident context) fun token => IsName token.text :=
  next.bind fun _ htoken => ite (fun hkind => pure (htoken.mp hkind)) fun _ => fail _ _ _

/-- Behind a type name stands a faithful token. -/
theorem typeName (bound : Nat) (parts : List String) {token : Token} (h : token.IsFaithful) :
    Offers (Grammar.typeName bound parts token) fun p => p.2.IsFaithful := by
  induction bound generalizing parts token with
  | zero => exact fail _ _ _
  | succ bound ih =>
    rw [Grammar.typeName]
    refine ite (fun _ => next.bind fun following hfollowing => ih parts hfollowing) fun _ => ?_
    refine ite (fun _ => fail _ _ _) fun _ => next.bind fun following hfollowing => ?_
    exact ite (fun _ => ih _ hfollowing) fun _ => pure hfollowing

/-- Behind asterisks stands a faithful token. -/
theorem pointerDepth (bound : Nat) {token : Token} (h : token.IsFaithful) :
    Offers (Grammar.pointerDepth bound token) fun p => p.2.IsFaithful := by
  induction bound generalizing token with
  | zero => exact pure h
  | succ bound ih =>
    rw [Grammar.pointerDepth]
    refine ite (fun _ => next.bind fun following hfollowing => ?_) fun _ => pure h
    exact (ih hfollowing).bind fun p hp => pure hp

end Offers

/-! ## Fields -/

/-- The name of the field and those inside it are identifiers. -/
abbrev IsNamedField (x : Field) : Prop :=
  x.All (CType.HasName IsName) (Field.HasName IsName)

/-- The names inside a type are identifiers. -/
abbrev IsNamedType (t : CType) : Prop :=
  t.All (CType.HasName IsName) (Field.HasName IsName)

/-- A name for a type has no names inside it. -/
theorem isNamedType_basic (typeName : String) : IsNamedType (.basic typeName) := by
  refine CType.all_iff.mpr ⟨nofun, ?_⟩
  simp [CType.basic, CType.ofShape]

/-- An array has no names inside it. -/
theorem isNamedType_array (typeName : String) (sizes : List Int) :
    IsNamedType (.array typeName sizes) := by
  refine CType.all_iff.mpr ⟨nofun, ?_⟩
  simp [CType.array, CType.ofShape]

/-- The names inside a pointer are those inside what it points to. -/
theorem isNamedType_pointer (typeName : String) (depth : Int) {target : CType}
    (h : IsNamedType target) : IsNamedType (.pointer typeName depth target) := by
  refine CType.all_iff.mpr ⟨nofun, ?_⟩
  simpa [CType.pointer, CType.ofShape] using h

/-- The names inside a union are those of its members. -/
theorem isNamedType_union {members : List Field} (h : Field.HaveNames IsName members) :
    IsNamedType (.union members) := by
  refine CType.all_iff.mpr ⟨nofun, ?_⟩
  simpa [CType.union, CType.ofShape] using h

/-- The names inside a method are its own and those of its parameters. -/
theorem isNamedType_functionPointer {name : String} (hname : IsName name) {parameters : List Field}
    (h : Field.HaveNames IsName parameters) (result : String) :
    IsNamedType (.functionPointer name parameters result) := by
  refine CType.all_iff.mpr ⟨fun _ => hname, ?_⟩
  simpa [CType.functionPointer, CType.ofShape] using h

/-- A field that is no union has a name of its own. -/
theorem isNamedField_mk {name : String} (hname : IsName name) {type : CType}
    (hshape : decide (type.shape = .union) = false) (htype : IsNamedType type)
    {isOut hasCount isArray isLength isErased : Bool} :
    IsNamedField ⟨name, type, isOut, hasCount, isArray, isLength, isErased⟩ :=
  Field.all_iff.mpr ⟨⟨fun h => absurd h (of_decide_eq_false hshape), fun _ => hname⟩, htype⟩

/-- The end of a plain field leaves its name as it is. -/
theorem Offers.terminatedField (brackets : Brackets) (usage : Usage) (typeName : String)
    {name : String} (hname : IsName name) (depth : Nat) {target : CType}
    (hshape : decide (target.shape = .union) = false) (htarget : IsNamedType target) (token : Token) :
    Offers (Grammar.terminatedField brackets usage typeName name depth target token)
      fun p => IsNamedField p.1 := by
  unfold Grammar.terminatedField
  refine .check fun _ => .pure ?_
  dsimp only
  split
  · exact isNamedField_mk hname hshape htarget
  · exact isNamedField_mk hname rfl (isNamedType_pointer typeName _ htarget)

/-- A plain field has the name that its token spells. -/
theorem Offers.namedField (symbols : SymbolTable) (brackets : Brackets) (usage : Usage)
    (typeName : String) (bound depth : Nat) {token : Token} (h : token.IsFaithful) :
    Offers (Grammar.namedField symbols brackets usage typeName bound depth token)
      fun p => IsNamedField p.1 := by
  unfold Grammar.namedField
  refine .check fun hkind => .after .next fun following => ?_
  have hname := h.mp (Classical.not_not.mp hkind)
  refine .ite (fun _ => .after (forward_dimensions _ _ _ _) fun p => ?_) fun _ => ?_
  · exact .terminatedField brackets usage typeName hname depth rfl (isNamedType_array _ _) p.2
  · exact .terminatedField brackets usage typeName hname depth rfl (isNamedType_basic _) following

/-- A plain field is named. -/
theorem Offers.plainField (symbols : SymbolTable) (brackets : Brackets) (usage : Usage)
    (typeName : String) {token : Token} (h : token.IsFaithful) :
    Offers (Grammar.plainField symbols brackets usage typeName token) fun p => IsNamedField p.1 := by
  rw [plainField_eq]
  refine .after .ahead fun bound => (pointerDepth (bound + 1) h).bind fun leading hleading => ?_
  refine .ite (fun _ => next.bind fun following hfollowing => ?_) fun _ => ?_
  · refine (pointerDepth (bound + 1) hfollowing).bind fun trailing htrailing => ?_
    exact namedField symbols brackets usage typeName (bound + 1) _ htrailing
  · exact namedField symbols brackets usage typeName (bound + 1) _ hleading

/-- The head of a method gives its name. -/
theorem Offers.methodHead (result : String) : Offers (Grammar.methodHead result) IsName := by
  refine .after .next fun _ => .after .ahead fun bound => next.bind fun token htoken => ?_
  refine (pointerDepth (bound + 1) htoken).bind fun p hp => .check fun hkind => ?_
  refine .after (.expect ")" _) fun _ => .after (.expect "(" _) fun _ => .pure ?_
  exact hp.mp (Classical.not_not.mp hkind)

mutual

/-- What is read as a list of fields is named. -/
theorem Offers.fieldList (symbols : SymbolTable) (bound : Nat) (brackets : Brackets) :
    Offers (Grammar.fieldList symbols bound brackets) (Field.HaveNames IsName) := by
  cases bound with
  | zero =>
    rw [Grammar.fieldList]
    rintro c _ _ - ⟨⟩
  | succ bound =>
    have hlist (brackets : Brackets) :
        Offers (Grammar.fieldList symbols bound brackets) (Field.HaveNames IsName) :=
      Offers.fieldList symbols bound brackets
    rw [Grammar.fieldList]
    refine next.bind fun token htoken => .ite (fun _ => .pure (by simp)) fun _ => ?_
    refine .ite (fun _ => .fail _ _ _) fun _ => .ite (fun _ => ?_) fun _ => ?_
    · refine (hlist brackets).bind fun rest hrest => .pure ?_
      have hmarker : IsName tableMarker := by decide
      exact Field.allOf_cons.mpr ⟨isNamedField_mk hmarker rfl (isNamedType_basic ""), hrest⟩
    refine .ite (fun _ => hlist brackets) fun _ => .ite (fun _ => ?_) fun _ => ?_
    · refine .after (.expect _ _) fun _ => (hlist .members).bind fun members hmembers => ?_
      refine .after (.expect _ _) fun _ => (hlist brackets).bind fun rest hrest => .pure ?_
      refine Field.allOf_cons.mpr ⟨Field.all_iff.mpr ⟨?_, isNamedType_union hmembers⟩, hrest⟩
      exact ⟨fun _ => rfl, fun h => absurd rfl h⟩
    · refine (Offers.field symbols bound brackets htoken).bind fun p hfield => ?_
      refine .ite (fun _ => .pure ?_) fun _ => (hlist brackets).bind fun rest hrest => .pure ?_
      · exact Field.allOf_cons.mpr ⟨hfield, Field.allOf_nil.mpr trivial⟩
      · exact Field.allOf_cons.mpr ⟨hfield, hrest⟩

/-- What is read as a field is named. -/
theorem Offers.field (symbols : SymbolTable) (bound : Nat) (brackets : Brackets) {token : Token}
    (h : token.IsFaithful) :
    Offers (Grammar.field symbols bound brackets token) fun p => IsNamedField p.1 := by
  cases bound with
  | zero =>
    rw [Grammar.field]
    exact .fail _ _ _
  | succ bound =>
    have hmethod (usage : Usage) (type : String) :
        Offers (methodField symbols bound brackets usage type) fun p => IsNamedField p.1 := by
      refine (Offers.methodHead type).bind fun name hname => .after .peek fun first => ?_
      refine (Offers.fieldList symbols bound .parameters).bind fun parameters hparameters => ?_
      refine .after (forward_checkReceiver _ _ _) fun _ => .after .next fun token => ?_
      refine .check fun _ => .pure ?_
      exact isNamedField_mk hname rfl (isNamedType_functionPointer hname hparameters type)
    have hafterUsage (usage : Usage) {token : Token} (htoken : token.IsFaithful) :
        Offers (fieldAfterUsage symbols bound brackets usage token)
          fun p => IsNamedField p.1 := by
      refine .after .ahead fun n => (Offers.typeName (n + 2) [] htoken).bind fun type htype => ?_
      refine .ite (fun _ => hmethod usage type.1) fun _ => ?_
      exact .plainField symbols brackets usage type.1 htype
    rw [field_succ]
    refine .ite (fun _ => ?_) fun _ => (Offers.pure h).bind fun p hp => hafterUsage _ hp
    refine .after forward_skipArguments fun _ => next.bind fun following hfollowing => ?_
    exact (Offers.pure hfollowing).bind fun p hp => hafterUsage _ hp

end

/-! ## Items -/

/-- The names that an item declares and those inside it are `p`, that of an alias apart. -/
def Item.HasNames (p : String → Prop) : Item → Prop
  | .nothing => True
  | .definition name _ => p name
  | .alias _ _ => True
  | .enumeration e => e.HasNames p
  | .function f => p f.ident ∧ Field.HaveNames p f.parameters
  | .identifier _ _ => True
  | .struct ident members => p ident ∧ Field.HaveNames p members
  | .interface ident members => p ident ∧ Field.HaveNames p members

/-- The alias that an item adds. -/
def Item.aliases : Item → List Alias
  | .alias ident target => [⟨ident, target⟩]
  | _ => []

/-- The names of everything that has been collected are `p`, those of aliases apart. -/
structure Draft.HasNames (p : String → Prop) (draft : Draft) : Prop where
  /-- Macros. -/
  macros : ∀ m ∈ draft.header.macros, p m.ident
  /-- Enumerations and their constants. -/
  enums : ∀ e ∈ draft.header.enums, e.HasNames p
  /-- Functions and their parameters. -/
  functions : ∀ f ∈ draft.header.functions, p f.ident ∧ Field.HaveNames p f.parameters
  /-- Structs and their members. -/
  structs : ∀ s ∈ draft.header.structs, p s.ident ∧ Field.HaveNames p s.fields
  /-- Tables of methods and their entries. -/
  tables : ∀ name table, draft.tables.lookup name = some table →
    p table.ident ∧ Field.HaveNames p table.fields

/-- What is added to a list is what was there and one more. -/
theorem forall_mem_concat {α : Type} {p : α → Prop} {xs : List α} {x : α} (hxs : ∀ y ∈ xs, p y)
    (hx : p x) : ∀ y ∈ xs ++ [x], p y := by
  intro y hy
  rcases List.mem_append.mp hy with hy | hy
  · exact hxs y hy
  · rwa [List.mem_singleton.mp hy]

namespace Draft

variable {p : String → Prop} {draft : Draft} {item : Item}

/-- An item brings its names to those that are there. -/
theorem HasNames.add (h : draft.HasNames p) (hitem : item.HasNames p) : (draft.add item).HasNames p := by
  have hplain {ident : String} {members : List Field} (hident : p ident)
      (hmembers : Field.HaveNames p members) :
      Draft.HasNames p { draft with header := { draft.header with
        structs := draft.header.structs ++ [plainStruct ident members] } } :=
    { h with structs := forall_mem_concat h.structs ⟨hident, hmembers⟩ }
  match item, hitem with
  | .nothing, _ => exact h
  | .definition name value, hname => exact { h with macros := forall_mem_concat h.macros hname }
  | .alias ident target, _ => exact { h with }
  | .enumeration e, he => exact { h with enums := forall_mem_concat h.enums he }
  | .function f, hf => exact { h with functions := forall_mem_concat h.functions hf }
  | .identifier interface guid, _ => exact { h with }
  | .interface ident members, ⟨hident, hmembers⟩ => exact hplain hident hmembers
  | .struct ident members, ⟨hident, hmembers⟩ =>
    rw [Draft.add, addStruct_eq]
    split
    · refine { h with tables := fun name table htable => ?_ }
      have htail : Field.HaveNames p members.tail :=
        Field.allOf_iff.mpr fun x hx =>
          Field.allOf_iff.mp hmembers x (List.mem_of_mem_tail hx)
      rw [Entries.lookup_set] at htable
      split at htable
      · cases htable
        exact ⟨hident, htail⟩
      · exact h.tables name table htable
    · exact hplain hident hmembers

/-- An item brings its alias to those that are there. -/
theorem aliases_add : (draft.add item).header.aliases = draft.header.aliases ++ item.aliases := by
  match item with
  | .alias ident target => rfl
  | .struct ident members =>
    rw [Draft.add, addStruct_eq]
    split <;> exact (List.append_nil _).symm
  | .nothing | .definition _ _ | .enumeration _ | .function _ | .identifier _ _ | .interface _ _ =>
    exact (List.append_nil _).symm

/-- Nothing but an item with identifiers for names has been added, and no alias. -/
def Gains (draft draft' : Draft) : Prop :=
  ∃ item, Item.HasNames IsName item ∧ item.aliases = [] ∧ draft' = draft.add item

/-- Nothing has been added. -/
theorem Gains.nothing : draft.Gains draft :=
  ⟨.nothing, trivial, rfl, rfl⟩

end Draft

/-! ## Statements -/

/-- Whenever the statement succeeds on faithful tokens, its result is `P` and those behind it are
faithful. -/
def Secures {α : Type} (m : Statement α) (P : α → Prop) : Prop :=
  ∀ c s a c' s', c.IsFaithful → m.exec c s = (.ok (a, c'), s') → P a ∧ c'.IsFaithful

namespace Secures

variable {α β : Type} {P : α → Prop} {Q : β → Prop}

/-- A result by itself. -/
theorem pure {a : α} (h : P a) : Secures (Pure.pure a) P := by
  intro c s b c' s' hc heq
  cases heq
  exact ⟨h, hc⟩

/-- A reader as a statement. -/
theorem read {m : Reader α} (hm : Offers m P) : Secures (Grammar.read m) P :=
  fun c _ a c' _ hc h => hm c a c' hc (exec_read_ok.mp h).1

/-- A statement that moves forward stays on faithful tokens. -/
theorem of_isForward {m : Statement α} (hm : IsForward m) : Secures m fun _ => True :=
  fun c s a c' s' hc h => ⟨trivial, hc.of_isBefore (hm c s a c' s' h)⟩

/-- The second statement may rely on what the first one secures. -/
theorem bind {m : Statement α} {k : α → Statement β} (hm : Secures m P)
    (hk : ∀ a, P a → Secures (k a) Q) : Secures (m >>= k) Q := by
  intro c s b c'' s'' hc h
  obtain ⟨a, c', s', ha, hb⟩ := exec_bind_ok h
  obtain ⟨hP, hc'⟩ := hm c s a c' s' hc ha
  exact hk a hP c' s' b c'' s'' hc' hb

/-- Behind a reader that moves forward. -/
theorem afterRead {m : Reader α} {k : α → Statement β} (hm : Forward m)
    (hk : ∀ a, Secures (k a) Q) : Secures (Grammar.read m >>= k) Q :=
  bind (of_isForward (.read hm)) fun a _ => hk a

/-- Behind an action in the session. -/
theorem afterLift {m : InSession α} {k : α → Statement β} (hk : ∀ a, Secures (k a) Q) :
    Secures (liftM m >>= k) Q :=
  bind (of_isForward (.lift m)) fun a _ => hk a

/-- A statement that is chosen by a condition may rely on it. -/
theorem ite {p : Prop} [Decidable p] {m k : Statement α} (hm : p → Secures m P)
    (hk : ¬ p → Secures k P) : Secures (if p then m else k) P := by
  split
  · exact hm ‹p›
  · exact hk ‹¬ p›

/-- A check that fails unless the condition holds. -/
theorem check {p : Prop} [Decidable p] {token : Token} {expected context : String}
    {k : Unit → Statement α} (hk : ¬ p → Secures (k ()) P) :
    Secures (if p then Grammar.read (Reader.fail token expected context) >>= k else k ()) P :=
  ite (fun _ => bind (P := fun _ => False) (read (.fail _ _ _)) fun _ h => h.elim) hk

end Secures

section

variable (draft : Draft)

/-- A macro has the name that its token spells. -/
theorem secures_directive : Secures (directive draft) draft.Gains := by
  refine .afterRead .nextInLine fun word => .ite (fun _ => .pure .nothing) fun _ => ?_
  refine .ite (fun _ => .afterRead .readLine fun _ => .pure .nothing) fun _ => ?_
  have hname : Offers nextInLine Token.IsFaithful := by
    rintro c _ _ hc ⟨⟩
    exact ⟨hc.next .line, hc.of_isBefore (c.isBefore_next .line)⟩
  refine (Secures.read hname).bind fun name hfaithful => .check fun hkind => ?_
  refine .afterRead .readLine fun body => .ite (fun _ => .afterLift fun _ => .pure .nothing) fun _ => ?_
  refine .afterLift fun table => .afterLift fun value => ?_
  cases value with
  | none => exact .pure .nothing
  | some v =>
    refine .afterLift fun _ => .pure ?_
    exact ⟨.definition name.text v, hfaithful.mp (Classical.not_not.mp hkind), rfl, rfl⟩

/-- An interface identifier declares no name. -/
theorem secures_interfaceGuid : Secures (interfaceGuid draft) draft.Gains := by
  refine .afterRead (.expect _ _) fun _ => .afterRead (.expectKind _ _) fun guid => ?_
  refine .afterRead (.expect _ _) fun _ => .afterRead (.expectKind _ _) fun name => .pure ?_
  exact ⟨.identifier name.text (literalBody guid.text), trivial, rfl, rfl⟩

/-- A constant has the name that its token spells. -/
theorem offers_writtenEnumerator (enum : String) :
    Offers (writtenEnumerator enum) fun w => ∀ x ∈ w, IsName x.ident := by
  refine Offers.next.bind fun token htoken => .ite (fun _ => .pure nofun) fun _ => .check fun hkind => ?_
  have hname := htoken.mp (Classical.not_not.mp hkind)
  refine .after .next fun separator => .ite (fun _ => ?_) fun _ => .ite (fun _ => ?_) fun _ => .fail _ _ _
  · refine .after (forward_enumExpression _) fun p => .pure fun x hx => ?_
    rwa [← Option.mem_some.mp hx]
  · refine .pure fun x hx => ?_
    rwa [← Option.mem_some.mp hx]

/-- Constants have the names that their tokens spell. -/
theorem secures_enumerators (enum : String) (bound : Nat) (previous : Option Value) :
    Secures (enumerators enum bound previous) fun list => ∀ x ∈ list, IsName x.ident := by
  induction bound generalizing previous with
  | zero => exact .pure nofun
  | succ bound ih =>
    rw [enumerators]
    refine (Secures.read (offers_writtenEnumerator enum)).bind fun written? hwritten => ?_
    cases written? with
    | none => exact .pure nofun
    | some written =>
      have hname := hwritten written rfl
      refine .afterLift fun value => .ite (fun _ => .pure ?_) fun _ => ?_
      · exact List.forall_mem_singleton.mpr hname
      · exact (ih (some value)).bind fun rest hrest =>
          .pure (List.forall_mem_cons.mpr ⟨hname, hrest⟩)

/-- An enumeration is called by its last name. -/
theorem secures_typedefEnum : Secures (typedefEnum draft) draft.Gains := by
  refine .afterRead forward_openBody fun tag => ?_
  cases tag with
  | none => exact .pure .nothing
  | some tag =>
    have henum (tag : String) : Secures (enumeration tag) (Enumeration.HasNames IsName) := by
      refine .afterRead .ahead fun bound => ?_
      refine (secures_enumerators tag (bound + 1) none).bind fun list hlist => ?_
      refine (Secures.read (.expectIdent _)).bind fun name hname => ?_
      exact .afterRead (.expect _ _) fun _ => .pure ⟨hname, hlist⟩
    exact (henum _).bind fun enum henum => .pure ⟨.enumeration enum, henum, rfl, rfl⟩

/-- Opening a body gives its tag. -/
theorem offers_openBody : Offers openBody fun tag => ∀ t ∈ tag, t.IsFaithful := by
  refine Offers.next.bind fun tag htag => ?_
  have hsome : ∀ t ∈ some tag, t.IsFaithful := fun t ht => Option.mem_some.mp ht ▸ htag
  refine .ite (fun _ => .pure hsome) fun _ => .after .peek fun token => ?_
  exact .ite (fun _ => .after .next fun _ => .pure hsome) fun _ => .pure nofun

/-- A struct is called by its tag, or by its last name. -/
theorem secures_typedefStruct : Secures (typedefStruct draft) draft.Gains := by
  refine (Secures.read offers_openBody).bind fun tag htag => ?_
  cases tag with
  | none => exact .pure .nothing
  | some tag =>
    refine .afterLift fun table => ?_
    refine (Secures.read (Offers.after .ahead fun n => .fieldList table (n + 1) .members)).bind
      fun members hmembers => ?_
    refine (Secures.read (.expectIdent _)).bind fun name hname => ?_
    refine .afterRead (.expect _ _) fun _ => .pure ⟨.struct _ members, ⟨?_, hmembers⟩, rfl, rfl⟩
    split
    · exact (htag tag rfl).mp ‹_›
    · exact hname

/-- A function has the name that its token spells. -/
theorem secures_function : Secures (function draft) draft.Gains := by
  refine .afterRead .next fun convention => .ite (fun _ => .pure .nothing) fun _ => ?_
  refine (Secures.read (.expectIdent _)).bind fun name hname => .afterRead (.expect _ _) fun _ => ?_
  refine .afterRead .peek fun first => .afterRead .peekSecond fun second => ?_
  extract_lets header ending
  have hending (parameters : List Field) (hparameters : Field.HaveNames IsName parameters) :
      Secures (ending parameters) draft.Gains :=
    .afterRead (.expect _ _) fun _ => .pure ⟨.function _, ⟨hname, hparameters⟩, rfl, rfl⟩
  refine .ite (fun _ => .afterRead .next fun _ => .afterRead .next fun _ => ?_) fun _ =>
    .afterLift fun table => ?_
  · exact (Secures.pure (Field.allOf_nil.mpr trivial)).bind hending
  · exact (Secures.read (Offers.after .ahead fun n => .fieldList table (n + 1) .parameters)).bind hending

/-- An interface has the name that its token spells. -/
theorem secures_interface : Secures (interface draft) draft.Gains := by
  refine (Secures.read (.expectIdent _)).bind fun name hname => .afterRead .next fun token => ?_
  refine .ite (fun _ => .pure .nothing) fun _ => .check fun _ => .afterLift fun table => ?_
  refine (Secures.read (Offers.after .ahead fun n => .fieldList table (n + 1) .members)).bind
    fun members hmembers => ?_
  exact .pure ⟨.interface name.text members, ⟨hname, hmembers⟩, rfl, rfl⟩

end

/-! ## Aliases of an unsigned integer -/

/-- Behind `typedef UINT` stands the token, whatever it is. -/
def NamesUnsigned (keyword : Token) (c : Cursor) (name : Token) : Prop :=
  keyword.text = "typedef" ∧ ∃ kind c', Passes c [kind, name] c' ∧ kind.text = "UINT"

/-- A declaration adds an item whose names are identifiers.  If it is an alias, so is its name, unless
it stands behind `typedef UINT` and its token is of another kind. -/
def AddsNames (keyword : Token) (c : Cursor) (draft draft' : Draft) : Prop :=
  ∃ item, Item.HasNames IsName item ∧ draft' = draft.add item ∧
    ((∀ a ∈ item.aliases, IsName a.ident) ↔ ∀ name, NamesUnsigned keyword c name → name.kind = .ident)

section

variable {keyword : Token} {c c' : Cursor} {draft draft' : Draft} {s s' : Session}

/-- Where nothing stands behind `typedef UINT`, only aliases with identifiers for names may be added. -/
theorem addsNames_of_plain (item : Item) (hitem : Item.HasNames IsName item)
    (halias : ∀ a ∈ item.aliases, IsName a.ident) (hplain : ∀ name, ¬ NamesUnsigned keyword c name) :
    AddsNames keyword c draft (draft.add item) :=
  ⟨item, hitem, rfl, iff_of_true halias fun name h => absurd h (hplain name)⟩

/-- A declaration that gains an item without an alias. -/
theorem Draft.Gains.addsNames (h : draft.Gains draft')
    (hplain : ∀ name, ¬ NamesUnsigned keyword c name) : AddsNames keyword c draft draft' := by
  obtain ⟨item, hitem, halias, rfl⟩ := h
  exact addsNames_of_plain item hitem (by rw [halias]; exact nofun) hplain

/-- An alias of `UINT` has the name that its token spells, whatever its kind. -/
theorem addsNames_unsigned {kind name : Token} (hkeyword : keyword.text = "typedef")
    (hpasses : Passes c [kind, name] c') (hkind : kind.text = "UINT") (hname : name.IsFaithful) :
    AddsNames keyword c draft (draft.add (.alias name.text uint32Expr)) := by
  refine ⟨.alias name.text uint32Expr, trivial, rfl, ?_⟩
  constructor
  · rintro halias other ⟨-, first, c₁, ⟨-, hother, -⟩, -⟩
    obtain rfl : name = other := by
      rw [← hpasses.2.1, ← hother]
    exact hname.mpr (halias _ List.mem_cons_self)
  · intro hall
    have hident := hname.mp (hall name ⟨hkeyword, kind, c', hpasses, hkind⟩)
    exact List.forall_mem_singleton.mpr hident

/-- A type declaration asks for the kind of a name unless it is one of `UINT`. -/
theorem addsNames_typedef (hkeyword : keyword.text = "typedef") (hc : c.IsFaithful)
    (h : (typedef draft).exec c s = (.ok (draft', c'), s')) : AddsNames keyword c draft draft' := by
  obtain ⟨kind, c₁, hkind, h⟩ := exec_read_bind_ok.mp h
  have hc₁ : c₁.IsFaithful := (Offers.next c kind c₁ hc hkind).2
  have hplain (hother : kind.text ≠ "UINT") (name : Token) : ¬ NamesUnsigned keyword c name := by
    rintro ⟨-, first, c₂, ⟨hfirst, -⟩, hunsigned⟩
    obtain rfl : kind = first := (next_ok.mp hkind).1.symm.trans hfirst
    exact hother hunsigned
  by_cases henum : kind.text = "enum"
  · rw [if_pos henum] at h
    exact (secures_typedefEnum draft c₁ s draft' c' s' hc₁ h).1.addsNames
      (hplain (by rw [henum]; decide))
  rw [if_neg henum] at h
  by_cases hstruct : kind.text = "struct"
  · rw [if_pos hstruct] at h
    exact (secures_typedefStruct draft c₁ s draft' c' s' hc₁ h).1.addsNames
      (hplain (by rw [hstruct]; decide))
  rw [if_neg hstruct] at h
  by_cases hinterface : kind.text = "interface"
  · rw [if_pos hinterface] at h
    cases h
    exact Draft.Gains.nothing.addsNames (hplain (by rw [hinterface]; decide))
  rw [if_neg hinterface] at h
  obtain ⟨name, c₂, hname, h⟩ := exec_read_bind_ok.mp h
  have hfaithful : name.IsFaithful := (Offers.next c₁ name c₂ hc₁ hname).1
  by_cases hunsigned : kind.text = "UINT"
  · rw [if_pos hunsigned] at h
    cases h
    have hpasses : Passes c [kind, name] c' :=
      passes_append.mpr ⟨c₁, next_ok.mp hkind, next_ok.mp hname⟩
    exact addsNames_unsigned hkeyword hpasses hunsigned hfaithful
  rw [if_neg hunsigned] at h
  by_cases hidents : kind.kind = .ident ∧ name.kind = .ident
  · rw [if_pos hidents] at h
    obtain ⟨token, c₃, -, h⟩ := exec_read_bind_ok.mp h
    by_cases hend : token.text = ";"
    · rw [if_pos hend] at h
      cases h
      have hident := hfaithful.mp hidents.2
      exact addsNames_of_plain (.alias name.text kind.text) trivial
        (List.forall_mem_singleton.mpr hident) (hplain hunsigned)
    · rw [if_neg hend] at h
      cases h
      exact Draft.Gains.nothing.addsNames (hplain hunsigned)
  · rw [if_neg hidents] at h
    cases h
    exact Draft.Gains.nothing.addsNames (hplain hunsigned)

/-- **One declaration.**  It adds an item with identifiers for names. -/
theorem addsNames_declaration (hc : c.IsFaithful)
    (h : (declaration draft keyword).exec c s = (.ok (draft', c'), s')) :
    AddsNames keyword c draft draft' := by
  have hplain (hother : keyword.text ≠ "typedef") (name : Token) : ¬ NamesUnsigned keyword c name :=
    fun h => hother h.1
  unfold declaration at h
  split at h
  · rename_i hkeyword
    exact (secures_directive draft c s draft' c' s' hc h).1.addsNames
      (hplain (by rw [hkeyword]; decide))
  · rename_i hkeyword
    exact (secures_interfaceGuid draft c s draft' c' s' hc h).1.addsNames
      (hplain (by rw [hkeyword]; decide))
  · rename_i hkeyword
    exact addsNames_typedef hkeyword hc h
  · rename_i hkeyword
    exact (secures_function draft c s draft' c' s' hc h).1.addsNames
      (hplain (by rw [hkeyword]; decide))
  · rename_i hkeyword
    exact (secures_interface draft c s draft' c' s' hc h).1.addsNames
      (hplain (by rw [hkeyword]; decide))
  · rename_i htypedef _ _
    cases h
    exact Draft.Gains.nothing.addsNames (hplain htypedef)

end

/-! ## Whole headers -/

/-- While declarations are read, the token stands behind `typedef UINT`. -/
def UnsignedAhead (c : Cursor) (draft : Draft) (s : Session) (name : Token) : Prop :=
  ∃ c₁ draft₁ s₁ keyword c₂, Reached c draft s c₁ draft₁ s₁ ∧ StartsWord c₁ keyword c₂ ∧
    NamesUnsigned keyword c₂ name

/-- One word is at the cursor. -/
theorem StartsWord.unique {c c₁ c₂ : Cursor} {keyword keyword' : Token}
    (h : StartsWord c keyword c₁) (h' : StartsWord c keyword' c₂) : keyword = keyword' ∧ c₁ = c₂ := by
  obtain ⟨token, c₀, hpeek, -, hnext⟩ := h
  obtain ⟨token', c₀', hpeek', -, hnext'⟩ := h'
  cases hpeek.symm.trans hpeek'
  cases hnext.symm.trans hnext'
  exact ⟨rfl, rfl⟩

/-- It stands so in the declaration at the cursor or in those that follow it. -/
theorem unsignedAhead_iff {c : Cursor} {draft : Draft} {s : Session} {name : Token} :
    UnsignedAhead c draft s name ↔
      ∃ keyword c₁, StartsWord c keyword c₁ ∧
        (NamesUnsigned keyword c₁ name ∨
          ∃ draft₁ c₂ s₁, (declaration draft keyword).exec c₁ s = (.ok (draft₁, c₂), s₁) ∧
            UnsignedAhead c₂ draft₁ s₁ name) := by
  constructor
  · rintro ⟨c₃, draft₃, s₃, keyword, c₄, hreached, hstarts, hnames⟩
    cases hreached with
    | here => exact ⟨keyword, c₄, hstarts, .inl hnames⟩
    | next hfirst hread hrest =>
      exact ⟨_, _, hfirst, .inr ⟨_, _, _, hread, c₃, draft₃, s₃, keyword, c₄, hrest, hstarts, hnames⟩⟩
  · rintro ⟨keyword, c₁, hstarts, hnames | ⟨draft₁, c₂, s₁, hread, hrest⟩⟩
    · exact ⟨c, draft, s, keyword, c₁, .here, hstarts, hnames⟩
    · obtain ⟨c₃, draft₃, s₃, last, c₄, hreached, hnames⟩ := hrest
      exact ⟨c₃, draft₃, s₃, last, c₄, hreached.next hstarts hread, hnames⟩

/-- **Declarations.**  The names that are collected are identifiers, and those of aliases are exactly if
only identifiers stand behind `typedef UINT`. -/
theorem names_declarations {bound : Nat} {c c' : Cursor} {draft draft' : Draft} {s s' : Session}
    (hc : c.IsFaithful) (heof : c.eof.kind = .eof) (hbound : c.ahead.length < bound)
    (hdraft : draft.HasNames IsName)
    (h : (declarations bound draft).exec c s = (.ok (draft', c'), s')) :
    draft'.HasNames IsName ∧
      ((∀ a ∈ draft'.header.aliases, IsName a.ident) ↔
        (∀ a ∈ draft.header.aliases, IsName a.ident) ∧
          ∀ name, UnsignedAhead c draft s name → name.kind = .ident) := by
  induction bound generalizing c draft s with
  | zero => exact absurd hbound (Nat.not_lt_zero _)
  | succ bound ih =>
    obtain ⟨token, c₀, hpeek, h⟩ := exec_read_bind_ok.mp h
    by_cases hcode : token.kind = .eof
    · rw [if_pos hcode] at h
      cases h
      refine ⟨hdraft, (and_iff_left ?_).symm⟩
      intro name hname
      obtain ⟨keyword, c₁, ⟨token', c₂, hpeek', hcode', -⟩, -⟩ := unsignedAhead_iff.mp hname
      cases hpeek.symm.trans hpeek'
      exact absurd hcode hcode'
    rw [if_neg hcode] at h
    obtain ⟨keyword, c₁, hkeyword, h⟩ := exec_read_bind_ok.mp h
    obtain ⟨draft₁, c₂, s₁, hread, h⟩ := exec_bind_ok h
    have hstarts : StartsWord c keyword c₁ := ⟨token, c₀, hpeek, hcode, hkeyword⟩
    have hc₁ := hc.of_isBefore hstarts.isBefore
    have hc₂ := hc₁.of_isBefore (isForward_declaration draft keyword _ _ _ _ _ hread)
    obtain ⟨heof', hshorter⟩ := hstarts.declaration_shorter hread heof
    obtain ⟨item, hitem, rfl, halias⟩ := addsNames_declaration hc₁ hread
    obtain ⟨hnames, haliases⟩ := ih hc₂ heof' (by omega) (hdraft.add hitem) h
    refine ⟨hnames, haliases.trans ?_⟩
    rw [Draft.aliases_add, List.forall_mem_append, and_assoc, halias]
    refine and_congr_right fun _ => ⟨?_, ?_⟩
    · rintro ⟨hhere, hahead⟩ name hname
      obtain ⟨keyword', c₁', hstarts', hname⟩ := unsignedAhead_iff.mp hname
      obtain ⟨rfl, rfl⟩ := hstarts.unique hstarts'
      rcases hname with hname | ⟨draft₁', c₂', s₁', hread', hname⟩
      · exact hhere name hname
      · cases hread.symm.trans hread'
        exact hahead name hname
    · intro hall
      refine ⟨fun name hname => hall name ?_, fun name hname => hall name ?_⟩
      · exact unsignedAhead_iff.mpr ⟨keyword, c₁, hstarts, .inl hname⟩
      · exact unsignedAhead_iff.mpr ⟨keyword, c₁, hstarts, .inr ⟨_, c₂, s₁, hread, hname⟩⟩

/-- Attaching the tables of methods gives no other names. -/
theorem Draft.HasNames.finish {p : String → Prop} {draft : Draft} (h : draft.HasNames p)
    (hdeclared : draft.IsDeclared) :
    (∀ m ∈ draft.finish.macros, p m.ident) ∧ draft.finish.HasNames p := by
  have hnone : draft.IsAttached [] := fun p hp => absurd hp List.not_mem_nil
  obtain ⟨hattached, -, hsame, -⟩ :=
    completeAll_spec draft (fun s hs => (hdeclared.members s hs).2) hnone
  refine ⟨h.macros, h.enums, h.functions, fun s hs => ?_, fun t ht => ?_⟩
  · have hmem : (s.ident, s.fields) ∈ draft.header.structs.map fun s => (s.ident, s.fields) := by
      rw [← hsame]
      exact List.mem_map_of_mem hs
    obtain ⟨r, hr, hpair⟩ := List.mem_map.mp hmem
    have hident : r.ident = s.ident := congrArg Prod.fst hpair
    have hfields : r.fields = s.fields := congrArg Prod.snd hpair
    rw [← hident, ← hfields]
    exact h.structs r hr
  · obtain ⟨entry, hentry, rfl⟩ := List.mem_map.mp ht
    exact h.tables entry.1 entry.2 (hattached entry hentry)

/-- A header that has been read declares what the declarations of its tokens collect, or nothing. -/
theorem readHeader_cases {strict : Bool} {file source : String} {session : Session} {h : Header}
    (hread : (readHeader strict file source session).1 = .ok h) :
    ∃ lexed, (Lexer.lex file source).tokens? = .ok lexed ∧
      ((Cursor.ofTokens? file lexed = none ∧ h = .empty file) ∨
        ∃ c draft c' s, Cursor.ofTokens? file lexed = some c ∧
          (declarations (c.ahead.length + 1) ⟨.empty c.file, [], []⟩).exec c session =
            (.ok (draft, c'), s) ∧ h = draft.finish) := by
  rcases hrun : (header strict file source).run session with ⟨result, s'⟩
  rw [readHeader, hrun] at hread
  obtain rfl : result = .ok h := hread
  unfold header at hrun
  split at hrun
  · cases hrun
  rename_i lexed hlexed
  split at hrun
  · rename_i c hcursor
    obtain ⟨⟨draft, c'⟩, s₁, hdeclarations, hrun⟩ := run_bind_ok hrun
    obtain ⟨_, s₂, hguids, hrun⟩ := run_bind_ok hrun
    cases hrun
    exact ⟨lexed, hlexed, .inr ⟨c, draft, c', s₁, hcursor, hdeclarations, rfl⟩⟩
  · rename_i hcursor
    cases hrun
    exact ⟨lexed, hlexed, .inl ⟨hcursor, rfl⟩⟩

/-- Nothing has been collected before the first declaration. -/
theorem Draft.HasNames.empty (p : String → Prop) (file : String) :
    Draft.HasNames p ⟨.empty file, [], []⟩ :=
  ⟨nofun, nofun, nofun, nofun, nofun⟩

/-- The names that are collected from the tokens of a header, in the draft and in the end. -/
theorem names_of_ofTokens? {file source : String} {lexed : List Token} {c c' : Cursor} {draft : Draft}
    {session s : Session} (hlexed : (Lexer.lex file source).tokens? = .ok lexed)
    (hcursor : Cursor.ofTokens? file lexed = some c)
    (h : (declarations (c.ahead.length + 1) ⟨.empty c.file, [], []⟩).exec c session =
      (.ok (draft, c'), s)) :
    ((∀ m ∈ draft.finish.macros, IsName m.ident) ∧ draft.finish.HasNames IsName) ∧
      ((∀ a ∈ draft.header.aliases, IsName a.ident) ↔
        ∀ name, UnsignedAhead c ⟨.empty c.file, [], []⟩ session name → name.kind = .ident) := by
  obtain ⟨-, heof⟩ := pieces_of_ofTokens? hlexed hcursor
  obtain ⟨hnames, haliases⟩ := names_declarations (isFaithful_of_ofTokens? hlexed hcursor) heof
    (Nat.lt_succ_self _) (.empty IsName c.file) h
  have hdeclared := establishes_declarations _ (.start c.file) _ _ _ _ _ h
  exact ⟨hnames.finish hdeclared, haliases.trans (and_iff_right nofun)⟩

/-- In a header that has been read, macros and all declarations but aliases have identifiers for
names. -/
theorem hasNames_of_readHeader {strict : Bool} {file source : String} {session : Session} {h : Header}
    (hread : (readHeader strict file source session).1 = .ok h) :
    (∀ m ∈ h.macros, IsName m.ident) ∧ h.HasNames IsName := by
  obtain ⟨lexed, hlexed, ⟨-, rfl⟩ | ⟨c, draft, c', s, hcursor, hrun, rfl⟩⟩ := readHeader_cases hread
  · exact ⟨nofun, ⟨nofun, nofun, nofun, nofun⟩⟩
  · exact (names_of_ofTokens? hlexed hcursor hrun).1

/-- While a header is read, the token stands behind `typedef UINT`. -/
def HeaderNamesUnsigned (file source : String) (session : Session) (name : Token) : Prop :=
  ∃ lexed c, (Lexer.lex file source).tokens? = .ok lexed ∧ Cursor.ofTokens? file lexed = some c ∧
    UnsignedAhead c ⟨.empty c.file, [], []⟩ session name

/-- **Declared names.**  In a header that has been read, every macro, enumeration, constant, struct,
table of methods, function, field, parameter and method has an identifier for a name.  So has every
alias exactly if only identifiers stand behind `typedef UINT`. -/
theorem readHeader_names {strict : Bool} {file source : String} {session : Session} {h : Header}
    (hread : (readHeader strict file source session).1 = .ok h) :
    (∀ m ∈ h.macros, IsName m.ident) ∧ h.HasNames IsName ∧
      ((∀ a ∈ h.aliases, IsName a.ident) ↔
        ∀ name, HeaderNamesUnsigned file source session name → name.kind = .ident) := by
  obtain ⟨hmacros, hnames⟩ := hasNames_of_readHeader hread
  refine ⟨hmacros, hnames, ?_⟩
  obtain ⟨lexed, hlexed, ⟨hcursor, rfl⟩ | ⟨c, draft, c', s, hcursor, hrun, rfl⟩⟩ :=
    readHeader_cases hread
  · refine iff_of_true nofun ?_
    rintro name ⟨lexed', c, hlexed', hcursor', -⟩
    cases hlexed.symm.trans hlexed'
    cases hcursor.symm.trans hcursor'
  · refine (names_of_ofTokens? hlexed hcursor hrun).2.trans ?_
    refine forall_congr' fun name => imp_congr_left ⟨fun h => ⟨lexed, c, hlexed, hcursor, h⟩, ?_⟩
    rintro ⟨lexed', c₂, hlexed', hcursor', h⟩
    cases hlexed.symm.trans hlexed'
    cases hcursor.symm.trans hcursor'
    exact h

/-- A struct with a union and an alias of an unsigned integer. -/
def namedSource : String :=
  "typedef struct S { union { float x; }; int y; } T;\ntypedef UINT Flags;\n"

/-- All its names are identifiers, that of the alias included. -/
theorem readHeader_names_alias :
    ∃ h, (readHeader false "a.h" namedSource .start).1 = .ok h ∧
      h.structs.map (fun s => (s.ident, s.fields.map Field.name)) = [("S", ["", "y"])] ∧
      h.aliases = [⟨"Flags", uint32Expr⟩] ∧
      (∀ m ∈ h.macros, IsName m.ident) ∧ h.HasNames IsName ∧
      ((∀ a ∈ h.aliases, IsName a.ident) ↔
        ∀ name, HeaderNamesUnsigned "a.h" namedSource .start name → name.kind = .ident) := by
  have hread : (match (readHeader false "a.h" namedSource .start).1 with
      | .ok h => decide (h.structs.map (fun s => (s.ident, s.fields.map Field.name)) =
          [("S", ["", "y"])] ∧ h.aliases = [⟨"Flags", uint32Expr⟩])
      | .error _ => false) = true := by
    -- evaluated from the characters of the text, so that the kernel builds no bytes
    have hsource : namedSource.toList = _ := String.toList_ofList
    rw [readHeader, header, Lexer.lex, hsource]
    decide +kernel
  split at hread
  · rename_i h hok
    obtain ⟨hstructs, haliases⟩ := of_decide_eq_true hread
    exact ⟨h, hok, hstructs, haliases, readHeader_names hok⟩
  · cases hread

/-- A numeral behind `typedef UINT` becomes the name of an alias. -/
theorem readHeader_numeralAlias :
    ∃ h, (readHeader false "test.h" "typedef UINT 5;\n" .start).1 = .ok h ∧
      ¬ ∀ a ∈ h.aliases, IsName a.ident := by
  have hread : (match (readHeader false "test.h" "typedef UINT 5;\n" .start).1 with
      | .ok h => decide (h.aliases = [⟨"5", uint32Expr⟩])
      | .error _ => false) = true := by
    decide +kernel
  split at hread
  · rename_i h hok
    refine ⟨h, hok, fun hall => ?_⟩
    rw [of_decide_eq_true hread] at hall
    exact absurd (hall _ List.mem_cons_self) (by decide)
  · cases hread

end Grammar

end SdkBindings
