import SdkBindings.Proofs.Comparison.Headers
import SdkBindings.Proofs.Enumeration.Bodies
import SdkBindings.Proofs.Grammar.Evaluations

/-!
# What declarations add to a header

A declaration that is read adds one item to the header, or nothing, and which one does not depend on
what has been read before.  Interface identifiers, structs and interfaces are the items that are bound
to each other once the whole header has been read, so the code that declares them is given in full
(`Declares`).  Of the other items it matters only that they are added.

A header consists of the items of its declarations in order (`Consists`).  A header that consists of
items is read to the sum of them (`Consists.exec`), and every header that is read without a failure
consists of items (`exists_consists`).
-/

namespace SdkBindings.Grammar

open Reader

/-! ## Items -/

/-- What a declaration adds to a header. -/
inductive Item where
  /-- Nothing. -/
  | nothing
  /-- A macro with its value. -/
  | definition (name : String) (value : Value)
  /-- A type alias. -/
  | alias (ident target : String)
  /-- An enumeration. -/
  | enumeration (e : Enumeration)
  /-- An exported function. -/
  | function (f : Function)
  /-- An interface identifier. -/
  | identifier (interface guid : String)
  /-- A struct after `typedef`, which may be a table of methods. -/
  | struct (ident : String) (members : List Field)
  /-- An interface. -/
  | interface (ident : String) (members : List Field)

/-- The item takes no part in binding. -/
def Item.IsUnbound : Item → Prop
  | .identifier _ _ => False
  | .struct _ _ => False
  | .interface _ _ => False
  | _ => True

/-- The header with one more item. -/
def Draft.add (draft : Draft) : Item → Draft
  | .nothing => draft
  | .definition name value =>
    { draft with header := { draft.header with macros := draft.header.macros ++ [⟨name, value⟩] } }
  | .alias ident target => draft.addAlias ident target
  | .enumeration e =>
    { draft with header := { draft.header with enums := draft.header.enums ++ [e] } }
  | .function f =>
    { draft with header := { draft.header with functions := draft.header.functions ++ [f] } }
  | .identifier interface guid => { draft with guids := Entries.set interface guid draft.guids }
  | .struct ident members => draft.addStruct ident members
  | .interface ident members =>
    { draft with header := { draft.header with
      structs := draft.header.structs ++ [plainStruct ident members] } }

/-! ## Items that are not bound -/

/-- Whatever has been read before, the statement fails in the same way or adds the same item, which is
not bound. -/
def Adds (m : Draft → Statement Draft) : Prop :=
  ∀ c s, (∃ f s', ∀ draft, (m draft).exec c s = (.error f, s')) ∨
    ∃ item c' s', item.IsUnbound ∧ ∀ draft, (m draft).exec c s = (.ok (draft.add item, c'), s')

namespace Adds

/-- A single item. -/
theorem pure (item : Item) (h : item.IsUnbound) : Adds (fun draft => Pure.pure (draft.add item)) :=
  fun c s => .inr ⟨item, c, s, h, fun _ => rfl⟩

/-- What comes first does not depend on what has been read before. -/
theorem bind {α : Type} (x : Statement α) {m : α → Draft → Statement Draft} (h : ∀ a, Adds (m a)) :
    Adds (fun draft => x >>= fun a => m a draft) := by
  intro c s
  cases hfirst : x.exec c s with
  | mk result s₁ =>
    cases result with
    | error f =>
      refine .inl ⟨f, s₁, fun draft => ?_⟩
      show (x c >>= fun p => m p.1 draft p.2).run s = _
      rw [run_bind, show (x c).run s = _ from hfirst]
    | ok p =>
      rcases h p.1 p.2 s₁ with ⟨f, s', hfails⟩ | ⟨item, c', s', hunbound, hadds⟩
      · exact .inl ⟨f, s', fun draft => (exec_bind hfirst).trans (hfails draft)⟩
      · exact .inr ⟨item, c', s', hunbound, fun draft => (exec_bind hfirst).trans (hadds draft)⟩

/-- A choice that does not depend on what has been read before. -/
theorem ite {p : Prop} [Decidable p] {m k : Draft → Statement Draft} (hm : Adds m) (hk : Adds k) :
    Adds (fun draft => if p then m draft else k draft) := by
  by_cases hp : p
  · simpa only [if_pos hp] using hm
  · simpa only [if_neg hp] using hk

/-- Nothing is added. -/
theorem nothing : Adds (fun draft => Pure.pure draft) :=
  pure .nothing trivial

end Adds

/-- A definition adds a macro unless it is skipped. -/
theorem adds_defineMacro (name : Token) (body : List Token) :
    Adds (fun draft => Comparison.defineMacro draft name body) := by
  refine .ite (.bind _ fun _ => .nothing) (.bind _ fun table => .bind _ fun value => ?_)
  cases value with
  | none => exact .nothing
  | some v => exact .bind _ fun _ => .pure (.definition name.text v) trivial

/-- A directive adds a macro or nothing. -/
theorem adds_directive : Adds directive := by
  refine .bind _ fun word => .ite .nothing (.ite (.bind _ fun _ => .nothing) ?_)
  refine .bind _ fun name => ?_
  have hbody : Adds (fun draft => read readLine >>= Comparison.defineMacro draft name) :=
    .bind _ fun body => adds_defineMacro name body
  exact .ite (.bind _ fun _ => hbody) hbody

/-- An enumeration without a body adds nothing. -/
theorem adds_typedefEnum : Adds typedefEnum := by
  refine .bind _ fun tag => ?_
  cases tag with
  | none => exact .nothing
  | some tag => exact .bind _ fun e => .pure (.enumeration e) trivial

/-- A type declaration that is neither a struct nor an enumeration adds an alias or nothing. -/
theorem adds_typedefOther (kind : Token) :
    Adds (fun draft =>
      if kind.text = "interface" then pure draft
      else do
        let name ← read next
        if kind.text = "UINT" then pure (draft.addAlias name.text uint32Expr)
        else if kind.kind = .ident ∧ name.kind = .ident then do
          let token ← read peek
          if token.text = ";" then pure (draft.addAlias name.text kind.text) else pure draft
        else pure draft) := by
  refine .ite .nothing (.bind _ fun name => .ite (.pure (.alias _ _) trivial) (.ite ?_ .nothing))
  exact .bind _ fun token => .ite (.pure (.alias _ _) trivial) .nothing

/-- A function adds itself if it is exported. -/
theorem adds_function : Adds function := by
  refine .bind _ fun convention => .ite .nothing (.bind _ fun name => .bind _ fun _ => ?_)
  refine .bind _ fun first => .bind _ fun second => ?_
  have hend (parameters : List Field) : Adds (fun draft => do
      let _ ← read (expect ";" ("after parameters of " ++ name.text))
      pure (draft.add (.function ⟨name.text, name.text, parameters⟩))) :=
    .bind _ fun _ => .pure (.function _) trivial
  refine .ite (.bind _ fun _ => .bind _ fun _ => .bind _ hend) (.bind _ fun table => .bind _ hend)

/-! ## Code of the items that are bound -/

/-- Reading code from one cursor to another passes the tokens. -/
def Passes : Cursor → List Token → Cursor → Prop
  | c, [], c' => c = c'
  | c, t :: ts, c' => (c.next .code).1 = t ∧ Passes (c.next .code).2 ts c'

/-- Whether tokens are passed can be decided. -/
instance Passes.decidable :
    (c : Cursor) → (ts : List Token) → (c' : Cursor) → Decidable (Passes c ts c')
  | c, [], c' => inferInstanceAs (Decidable (c = c'))
  | c, t :: ts, c' =>
    have := Passes.decidable (c.next .code).2 ts c'
    inferInstanceAs (Decidable ((c.next .code).1 = t ∧ Passes (c.next .code).2 ts c'))

/-- The code gives an interface its identifier: `("…") Name`. -/
def WritesIdentifier (c : Cursor) (interface guid : String) (c' : Cursor) : Prop :=
  ∃ opening literal closing name, Passes c [opening, literal, closing, name] c' ∧
    opening.text = "(" ∧ literal.kind = .string ∧ closing.text = ")" ∧ name.kind = .ident ∧
    interface = name.text ∧ guid = literalBody literal.text

/-- The code declares a struct behind the word `typedef`: `struct Tag { … } Name;`, where the tag may
be missing and takes precedence over the name. -/
def WritesStruct (table : SymbolTable) (c : Cursor) (ident : String) (members : List Field)
    (c' : Cursor) : Prop :=
  ∃ kind tag more c₁ c₂ name semicolon, Passes c (kind :: tag :: more) c₁ ∧ kind.text = "struct" ∧
    IsOpening (tag :: more) ∧ fields table .members c₁ = .ok (members, c₂) ∧
    Passes c₂ [name, semicolon] c' ∧ name.kind = .ident ∧ semicolon.text = ";" ∧
    ident = if tag.kind = .ident then tag.text else name.text

/-- The code declares an interface behind the word `interface`: `Name { … }`. -/
def WritesInterface (table : SymbolTable) (c : Cursor) (ident : String) (members : List Field)
    (c' : Cursor) : Prop :=
  ∃ name brace c₁, Passes c [name, brace] c₁ ∧ name.kind = .ident ∧ brace.text ≠ name.text ∧
    brace.text = "\x7b" ∧ fields table .members c₁ = .ok (members, c') ∧ ident = name.text

/-- The declaration that a word starts adds an item; it extends from one cursor and session to
another. -/
inductive Declares (keyword : Token) (c : Cursor) (s : Session) : Item → Cursor → Session → Prop where
  /-- An interface identifier. -/
  | identifier {interface guid : String} {c' : Cursor} (hkeyword : keyword.text = "MIDL_INTERFACE")
      (h : WritesIdentifier c interface guid c') :
      Declares keyword c s (.identifier interface guid) c' s
  /-- A struct. -/
  | struct {ident : String} {members : List Field} {c' : Cursor} (hkeyword : keyword.text = "typedef")
      (h : WritesStruct s.symbols c ident members c') :
      Declares keyword c s (.struct ident members) c' s
  /-- An interface. -/
  | interface {ident : String} {members : List Field} {c' : Cursor}
      (hkeyword : keyword.text = "interface") (h : WritesInterface s.symbols c ident members c') :
      Declares keyword c s (.interface ident members) c' s
  /-- Anything else. -/
  | other {item : Item} {c' : Cursor} {s' : Session} (hunbound : item.IsUnbound)
      (h : ∀ draft, (declaration draft keyword).exec c s = (.ok (draft.add item, c'), s')) :
      Declares keyword c s item c' s'

/-! ## Reading them -/

section

variable {c c' : Cursor} {s s' : Session} {draft draft' : Draft}

/-- A statement that starts with a reader succeeds if the reader does and what comes after it. -/
theorem exec_read_bind_ok {α β : Type} {m : Reader α} {k : α → Statement β} {b : β} :
    (read m >>= k).exec c s = (.ok (b, c'), s') ↔
      ∃ a c₁, m c = .ok (a, c₁) ∧ (k a).exec c₁ s = (.ok (b, c'), s') := by
  constructor
  · intro h
    obtain ⟨a, c₁, s₁, hm, hk⟩ := exec_bind_ok h
    obtain ⟨hread, rfl⟩ := exec_read_ok.mp hm
    exact ⟨a, c₁, hread, hk⟩
  · rintro ⟨a, c₁, hm, hk⟩
    exact (exec_bind (exec_read_ok.mpr ⟨hm, rfl⟩)).trans hk

/-- After asking for the known constants a statement goes on with them. -/
theorem exec_symbols_bind {α : Type} {k : SymbolTable → Statement α} :
    (liftM symbols >>= k : Statement α).exec c s = (k s.symbols).exec c s :=
  rfl

/-- A token is passed. -/
theorem next_ok {t : Token} : next c = .ok (t, c') ↔ Passes c [t] c' := by
  constructor
  · intro h
    cases h
    exact ⟨rfl, rfl⟩
  · rintro ⟨rfl, rfl⟩
    rfl

/-- Tokens are passed behind others. -/
theorem passes_append {ts us : List Token} :
    Passes c (ts ++ us) c' ↔ ∃ c₁, Passes c ts c₁ ∧ Passes c₁ us c' := by
  induction ts generalizing c with
  | nil => exact ⟨fun h => ⟨c, rfl, h⟩, fun ⟨_, heq, h⟩ => heq ▸ h⟩
  | cons t ts ih =>
    show _ ∧ Passes _ (ts ++ us) c' ↔ _
    rw [ih]
    exact ⟨fun ⟨ht, c₁, h, h'⟩ => ⟨c₁, ⟨ht, h⟩, h'⟩, fun ⟨c₁, ⟨ht, h⟩, h'⟩ => ⟨ht, c₁, h, h'⟩⟩

/-- A token that is checked is passed if it is as it should be. -/
theorem checked_ok {p : Token → Prop} [DecidablePred p] {expected context : String} {t : Token} :
    (do
        let token ← next
        if p token then pure token else fail token expected context : Reader Token) c = .ok (t, c') ↔
      Passes c [t] c' ∧ p t := by
  show (if p (c.next .code).1 then pure (c.next .code).1
    else fail (c.next .code).1 expected context : Reader Token) (c.next .code).2 = _ ↔ _
  by_cases hp : p (c.next .code).1
  · rw [if_pos hp]
    constructor
    · intro h
      cases h
      exact ⟨⟨rfl, rfl⟩, hp⟩
    · rintro ⟨⟨rfl, rfl⟩, -⟩
      rfl
  · rw [if_neg hp]
    refine iff_of_false nofun ?_
    rintro ⟨⟨rfl, -⟩, h⟩
    exact hp h

/-- A token that has to have a text is passed if it has. -/
theorem expect_ok {text context : String} {t : Token} :
    expect text context c = .ok (t, c') ↔ Passes c [t] c' ∧ t.text = text :=
  checked_ok

/-- A token that has to be of a kind is passed if it is. -/
theorem expectKind_ok {kind : Token.Kind} {context : String} {t : Token} :
    expectKind kind context c = .ok (t, c') ↔ Passes c [t] c' ∧ t.kind = kind :=
  checked_ok

/-- A token that stays ahead is the next one. -/
theorem peek_ok {t : Token} (h : peek c = .ok (t, c')) :
    (c.next .code).1 = t ∧ c'.next .code = c.next .code := by
  cases h
  exact ⟨rfl, c.next_settle⟩

/-- An interface identifier is read from the code that gives it. -/
theorem exec_interfaceGuid_ok :
    (interfaceGuid draft).exec c s = (.ok (draft', c'), s') ↔
      ∃ interface guid, WritesIdentifier c interface guid c' ∧
        draft' = draft.add (.identifier interface guid) ∧ s' = s := by
  unfold interfaceGuid
  constructor
  · intro h
    obtain ⟨opening, c₁, h₁, h⟩ := exec_read_bind_ok.mp h
    obtain ⟨literal, c₂, h₂, h⟩ := exec_read_bind_ok.mp h
    obtain ⟨closing, c₃, h₃, h⟩ := exec_read_bind_ok.mp h
    obtain ⟨name, c₄, h₄, h⟩ := exec_read_bind_ok.mp h
    obtain ⟨⟨rfl, rfl⟩, hopening⟩ := expect_ok.mp h₁
    obtain ⟨⟨rfl, rfl⟩, hliteral⟩ := expectKind_ok.mp h₂
    obtain ⟨⟨rfl, rfl⟩, hclosing⟩ := expect_ok.mp h₃
    obtain ⟨⟨rfl, rfl⟩, hname⟩ := expectKind_ok.mp h₄
    cases h
    exact ⟨_, _, ⟨_, _, _, _, ⟨rfl, rfl, rfl, rfl, rfl⟩, hopening, hliteral, hclosing, hname, rfl, rfl⟩,
      rfl, rfl⟩
  · rintro ⟨_, _, ⟨opening, literal, closing, name, ⟨h₁, h₂, h₃, h₄, hend⟩, hopening, hliteral,
      hclosing, hname, rfl, rfl⟩, rfl, rfl⟩
    refine exec_read_bind_ok.mpr ⟨_, _, expect_ok.mpr ⟨⟨h₁, rfl⟩, hopening⟩, ?_⟩
    refine exec_read_bind_ok.mpr ⟨_, _, expectKind_ok.mpr ⟨⟨h₂, rfl⟩, hliteral⟩, ?_⟩
    refine exec_read_bind_ok.mpr ⟨_, _, expect_ok.mpr ⟨⟨h₃, rfl⟩, hclosing⟩, ?_⟩
    refine exec_read_bind_ok.mpr ⟨_, _, expectKind_ok.mpr ⟨⟨h₄, rfl⟩, hname⟩, ?_⟩
    rw [hend]
    rfl

/-- A body is opened by the tokens that open one. -/
theorem openBody_ok {tag : Token} :
    openBody c = .ok (some tag, c') ↔
      ∃ more, IsOpening (tag :: more) ∧ Passes c (tag :: more) c' := by
  constructor
  · intro h
    obtain ⟨first, c₁, hfirst, h⟩ := reader_bind_ok h
    have hfirst : Passes c [first] c₁ := next_ok.mp hfirst
    by_cases hbrace : first.text = "\x7b"
    · rw [if_pos hbrace] at h
      cases h
      exact ⟨[], ⟨tag, hbrace, .inl rfl⟩, hfirst⟩
    · rw [if_neg hbrace] at h
      obtain ⟨second, c₂, hpeek, h⟩ := reader_bind_ok h
      obtain ⟨hsecond, hsame⟩ := peek_ok hpeek
      by_cases htext : second.text = "\x7b"
      · rw [if_pos htext] at h
        obtain ⟨_, _, hnext, h⟩ := reader_bind_ok h
        cases hnext
        cases h
        have hmore : Passes c₁ [second] (c₂.next .code).2 := ⟨hsecond, congrArg Prod.snd hsame.symm⟩
        exact ⟨[second], ⟨second, htext, .inr ⟨tag, hbrace, rfl⟩⟩,
          passes_append.mpr ⟨c₁, hfirst, hmore⟩⟩
      · rw [if_neg htext] at h
        cases h
  · rintro ⟨more, ⟨brace, hbrace, hmore⟩, htag, hpasses⟩
    show (if (c.next .code).1.text = "\x7b" then pure (some (c.next .code).1)
      else do
        let token ← peek
        if token.text = "\x7b" then do
          let _ ← next
          pure (some (c.next .code).1)
        else pure none : Reader (Option Token)) (c.next .code).2 = _
    rw [htag]
    rcases hmore with hmore | ⟨_, hne, hmore⟩
    · obtain ⟨rfl, rfl⟩ := List.cons.inj hmore
      rw [if_pos hbrace, hpasses]
      rfl
    · obtain ⟨rfl, rfl⟩ := List.cons.inj hmore
      obtain ⟨rfl, rfl⟩ := hpasses
      rw [if_neg hne]
      show (if ((c.next .code).2.next .code).1.text = "\x7b" then do
          let _ ← next
          pure (some tag)
        else pure none : Reader (Option Token)) ((c.next .code).2.settle .code) = _
      rw [if_pos hbrace]
      show Except.ok (some tag, (((c.next .code).2.settle .code).next .code).2) = _
      rw [Cursor.next_settle]

/-- The tokens behind the members of a struct are read. -/
theorem exec_structEnd_ok {tag : Token} {members : List Field} :
    (do
        let name ← read (expectKind .ident "struct name")
        let ident := if tag.kind = .ident then tag.text else name.text
        let _ ← read (expect ";" ("end of struct " ++ ident))
        pure (draft.addStruct ident members) : Statement Draft).exec c s = (.ok (draft', c'), s') ↔
      ∃ name semicolon, Passes c [name, semicolon] c' ∧ name.kind = .ident ∧ semicolon.text = ";" ∧
        draft' = draft.add (.struct (if tag.kind = .ident then tag.text else name.text) members) ∧
        s' = s := by
  constructor
  · intro h
    obtain ⟨name, c₁, h₁, h⟩ := exec_read_bind_ok.mp h
    obtain ⟨semicolon, c₂, h₂, h⟩ := exec_read_bind_ok.mp h
    obtain ⟨⟨rfl, rfl⟩, hname⟩ := expectKind_ok.mp h₁
    obtain ⟨⟨rfl, rfl⟩, hsemicolon⟩ := expect_ok.mp h₂
    cases h
    exact ⟨_, _, ⟨rfl, rfl, rfl⟩, hname, hsemicolon, rfl, rfl⟩
  · rintro ⟨name, semicolon, ⟨h₁, h₂, hend⟩, hname, hsemicolon, rfl, rfl⟩
    refine exec_read_bind_ok.mpr ⟨_, _, expectKind_ok.mpr ⟨⟨h₁, rfl⟩, hname⟩, ?_⟩
    refine exec_read_bind_ok.mpr ⟨_, _, expect_ok.mpr ⟨⟨h₂, rfl⟩, hsemicolon⟩, ?_⟩
    rw [hend]
    rfl

/-- A struct is read from the code that declares it; without a body nothing is declared. -/
theorem exec_typedefStruct_ok {kind : Token} {c₀ : Cursor} (hkind : kind.text = "struct")
    (hpasses : Passes c₀ [kind] c) :
    (typedefStruct draft).exec c s = (.ok (draft', c'), s') ↔
      (openBody c = .ok (none, c') ∧ draft' = draft ∧ s' = s) ∨
        ∃ ident members, WritesStruct s.symbols c₀ ident members c' ∧
          draft' = draft.add (.struct ident members) ∧ s' = s := by
  unfold typedefStruct
  constructor
  · intro h
    obtain ⟨tag, c₁, hopen, h⟩ := exec_read_bind_ok.mp h
    cases tag with
    | none =>
      cases h
      exact .inl ⟨hopen, rfl, rfl⟩
    | some tag =>
      dsimp only at h
      rw [exec_symbols_bind] at h
      obtain ⟨more, hopening, hmore⟩ := openBody_ok.mp hopen
      obtain ⟨members, c₂, hmembers, h⟩ := exec_read_bind_ok.mp h
      obtain ⟨name, semicolon, hend, hname, hsemicolon, hdraft, hs⟩ := exec_structEnd_ok.mp h
      exact .inr ⟨_, members, ⟨kind, tag, more, c₁, c₂, name, semicolon,
        passes_append.mpr ⟨c, hpasses, hmore⟩, hkind, hopening, hmembers, hend, hname, hsemicolon,
        rfl⟩, hdraft, hs⟩
  · rintro (⟨hopen, rfl, rfl⟩ | ⟨_, members, ⟨_, tag, more, c₁, c₂, name, semicolon, hcode, -, hopening,
      hmembers, hend, hname, hsemicolon, rfl⟩, hdraft, hs⟩)
    · exact exec_read_bind_ok.mpr ⟨none, c', hopen, rfl⟩
    · obtain ⟨-, rfl⟩ := hpasses
      refine exec_read_bind_ok.mpr ⟨some tag, c₁, openBody_ok.mpr ⟨more, hopening, hcode.2⟩, ?_⟩
      dsimp only
      rw [exec_symbols_bind]
      refine exec_read_bind_ok.mpr ⟨members, c₂, hmembers, ?_⟩
      exact exec_structEnd_ok.mpr ⟨name, semicolon, hend, hname, hsemicolon, hdraft, hs⟩

/-- An interface is read from the code that declares it; its name twice declares nothing. -/
theorem exec_interface_ok :
    (interface draft).exec c s = (.ok (draft', c'), s') ↔
      (∃ name again, Passes c [name, again] c' ∧ name.kind = .ident ∧ again.text = name.text ∧
          draft' = draft ∧ s' = s) ∨
        ∃ ident members, WritesInterface s.symbols c ident members c' ∧
          draft' = draft.add (.interface ident members) ∧ s' = s := by
  unfold interface
  constructor
  · intro h
    obtain ⟨name, c₁, h₁, h⟩ := exec_read_bind_ok.mp h
    obtain ⟨brace, c₂, h₂, h⟩ := exec_read_bind_ok.mp h
    obtain ⟨h₁, hname⟩ := expectKind_ok.mp h₁
    have hpasses : Passes c [name, brace] c₂ := passes_append.mpr ⟨c₁, h₁, next_ok.mp h₂⟩
    by_cases hagain : brace.text = name.text
    · rw [if_pos hagain] at h
      cases h
      exact .inl ⟨name, brace, hpasses, hname, hagain, rfl, rfl⟩
    · rw [if_neg hagain] at h
      by_cases hbrace : brace.text = "\x7b"
      · rw [if_neg (not_not_intro hbrace)] at h
        dsimp only at h
        rw [exec_symbols_bind] at h
        obtain ⟨members, c₃, hmembers, h⟩ := exec_read_bind_ok.mp h
        cases h
        exact .inr ⟨_, members, ⟨name, brace, c₂, hpasses, hname, hagain, hbrace, hmembers, rfl⟩,
          rfl, rfl⟩
      · rw [if_pos hbrace] at h
        obtain ⟨_, _, hfail, -⟩ := exec_read_bind_ok.mp h
        cases hfail
  · rintro (⟨name, again, hpasses, hname, hagain, rfl, rfl⟩ | ⟨_, members, ⟨name, brace, c₁, hpasses,
      hname, hagain, hbrace, hmembers, rfl⟩, rfl, rfl⟩)
    · obtain ⟨h₁, h₂⟩ := hpasses
      refine exec_read_bind_ok.mpr ⟨name, _, expectKind_ok.mpr ⟨⟨h₁, rfl⟩, hname⟩, ?_⟩
      refine exec_read_bind_ok.mpr ⟨again, c', next_ok.mpr h₂, ?_⟩
      rw [if_pos hagain]
      rfl
    · obtain ⟨h₁, h₂⟩ := hpasses
      refine exec_read_bind_ok.mpr ⟨name, _, expectKind_ok.mpr ⟨⟨h₁, rfl⟩, hname⟩, ?_⟩
      refine exec_read_bind_ok.mpr ⟨brace, c₁, next_ok.mpr h₂, ?_⟩
      rw [if_neg hagain, if_neg (not_not_intro hbrace)]
      dsimp only
      rw [exec_symbols_bind]
      exact exec_read_bind_ok.mpr ⟨members, c', hmembers, rfl⟩

end

/-! ## One declaration -/

section

variable {keyword : Token} {c c' : Cursor} {s s' : Session} {item : Item}

/-- A declaration adds its item to whatever has been read before. -/
theorem Declares.exec (h : Declares keyword c s item c' s') (draft : Draft) :
    (declaration draft keyword).exec c s = (.ok (draft.add item, c'), s') := by
  unfold declaration
  cases h with
  | identifier hkeyword h =>
    rw [hkeyword]
    exact exec_interfaceGuid_ok.mpr ⟨_, _, h, rfl, rfl⟩
  | struct hkeyword h =>
    rw [hkeyword]
    obtain ⟨kind, tag, more, c₁, c₂, name, semicolon, hcode, hkind, hrest⟩ := h
    have hpasses : Passes c [kind] (c.next .code).2 := ⟨hcode.1, rfl⟩
    refine exec_read_bind_ok.mpr ⟨kind, _, next_ok.mpr hpasses, ?_⟩
    rw [if_neg (by rw [hkind]; decide), if_pos hkind]
    exact (exec_typedefStruct_ok hkind hpasses).mpr <|
      .inr ⟨_, _, ⟨kind, tag, more, c₁, c₂, name, semicolon, hcode, hkind, hrest⟩, rfl, rfl⟩
  | interface hkeyword h =>
    rw [hkeyword]
    exact exec_interface_ok.mpr (.inr ⟨_, _, h, rfl, rfl⟩)
  | other _ h => exact h draft

/-- A declaration that adds an item that is not bound declares it. -/
theorem Adds.declares {m : Draft → Statement Draft} (hm : Adds m) {c₁ : Cursor}
    (hkeyword : ∀ draft, (declaration draft keyword).exec c s = (m draft).exec c₁ s)
    {draft draft' : Draft} (h : (m draft).exec c₁ s = (.ok (draft', c'), s')) :
    ∃ item, Declares keyword c s item c' s' ∧ draft' = draft.add item := by
  rcases hm c₁ s with ⟨f, s₂, hfails⟩ | ⟨item, c₂, s₂, hunbound, hadds⟩
  · cases (hfails draft).symm.trans h
  · cases (hadds draft).symm.trans h
    exact ⟨item, .other hunbound fun draft => (hkeyword draft).trans (hadds draft), rfl⟩

/-- A type declaration that is read declares an item, which is added. -/
theorem exists_declares_typedef (hkeyword : keyword.text = "typedef") {draft draft' : Draft}
    (h : (typedef draft).exec c s = (.ok (draft', c'), s')) :
    ∃ item, Declares keyword c s item c' s' ∧ draft' = draft.add item := by
  obtain ⟨kind, c₁, hnext, h⟩ := exec_read_bind_ok.mp h
  have hdeclaration (draft : Draft) : (declaration draft keyword).exec c s =
      (if kind.text = "enum" then typedefEnum draft
        else if kind.text = "struct" then typedefStruct draft
        else if kind.text = "interface" then pure draft
        else do
          let name ← read next
          if kind.text = "UINT" then pure (draft.addAlias name.text uint32Expr)
          else if kind.kind = .ident ∧ name.kind = .ident then do
            let token ← read peek
            if token.text = ";" then pure (draft.addAlias name.text kind.text) else pure draft
          else pure draft).exec c₁ s := by
    unfold declaration
    rw [hkeyword]
    exact exec_bind (exec_read_ok.mpr ⟨hnext, rfl⟩)
  by_cases henum : kind.text = "enum"
  · simp only [if_pos henum] at h hdeclaration
    exact adds_typedefEnum.declares hdeclaration h
  · simp only [if_neg henum] at h hdeclaration
    by_cases hstruct : kind.text = "struct"
    · rw [if_pos hstruct] at h
      rcases (exec_typedefStruct_ok hstruct (next_ok.mp hnext)).mp h with
        ⟨hopen, rfl, rfl⟩ | ⟨ident, members, hwrites, rfl, rfl⟩
      · refine ⟨.nothing, .other trivial fun draft => (hdeclaration draft).trans ?_, rfl⟩
        rw [if_pos hstruct]
        exact exec_read_bind_ok.mpr ⟨none, c', hopen, rfl⟩
      · exact ⟨_, .struct hkeyword hwrites, rfl⟩
    · simp only [if_neg hstruct] at h hdeclaration
      exact (adds_typedefOther kind).declares hdeclaration h

/-- A declaration that is read declares an item, which is added. -/
theorem exists_declares {draft draft' : Draft}
    (h : (declaration draft keyword).exec c s = (.ok (draft', c'), s')) :
    ∃ item, Declares keyword c s item c' s' ∧ draft' = draft.add item := by
  unfold declaration at h
  split at h
  · rename_i hkeyword
    refine adds_directive.declares (fun draft => ?_) h
    rw [declaration, hkeyword]
    rfl
  · rename_i hkeyword
    obtain ⟨name, guid, hwrites, rfl, rfl⟩ := exec_interfaceGuid_ok.mp h
    exact ⟨_, .identifier hkeyword hwrites, rfl⟩
  · rename_i hkeyword
    exact exists_declares_typedef hkeyword h
  · rename_i hkeyword
    refine adds_function.declares (fun draft => ?_) h
    rw [declaration, hkeyword]
    rfl
  · rename_i hkeyword
    rcases exec_interface_ok.mp h with
      ⟨name, again, hpasses, hname, hagain, rfl, rfl⟩ | ⟨ident, members, hwrites, rfl, rfl⟩
    · refine ⟨.nothing, .other trivial fun draft => ?_, rfl⟩
      rw [declaration, hkeyword]
      exact exec_interface_ok.mpr (.inl ⟨name, again, hpasses, hname, hagain, rfl, rfl⟩)
    · exact ⟨_, .interface hkeyword hwrites, rfl⟩
  · rename_i hdirective hidentifier htypedef hfunction hinterface
    refine Adds.nothing.declares (fun draft => ?_) h
    unfold declaration
    split
    · exact absurd ‹_› hdirective
    · exact absurd ‹_› hidentifier
    · exact absurd ‹_› htypedef
    · exact absurd ‹_› hfunction
    · exact absurd ‹_› hinterface
    · rfl

end

/-! ## Headers -/

/-- From a place on, to the end, the declarations of a header add the items. -/
inductive Consists : Cursor → Session → List Item → Session → Prop where
  /-- Nothing but line ends is ahead. -/
  | done {c : Cursor} {s : Session} (heof : (c.peek .code).1.kind = .eof) : Consists c s [] s
  /-- A word starts a declaration or is passed over, and others follow. -/
  | next {c c₁ c₂ : Cursor} {s s₁ s₂ : Session} {keyword : Token} {item : Item} {items : List Item}
      (hstarts : StartsWord c keyword c₁) (hdeclares : Declares keyword c₁ s item c₂ s₁)
      (hrest : Consists c₂ s₁ items s₂) : Consists c s (item :: items) s₂

/-- Behind a declaration fewer tokens are ahead. -/
theorem StartsWord.declaration_shorter {c c₁ c₂ : Cursor} {keyword : Token} {draft draft' : Draft}
    {s s' : Session} (h : StartsWord c keyword c₁)
    (hread : (declaration draft keyword).exec c₁ s = (.ok (draft', c₂), s'))
    (heof : c.eof.kind = .eof) : c₂.eof.kind = .eof ∧ c₂.ahead.length < c.ahead.length := by
  have hforward := isForward_declaration draft keyword _ _ _ _ _ hread
  refine ⟨(h.isBefore.trans hforward).2.1 ▸ heof, ?_⟩
  exact Nat.lt_of_le_of_lt hforward.length_le (h.length_lt heof)

/-- Declarations are read to the sum of what they add. -/
theorem Consists.exec {c : Cursor} {s s' : Session} {items : List Item}
    (h : Consists c s items s') (heof : c.eof.kind = .eof) {bound : Nat}
    (hbound : c.ahead.length < bound) (draft : Draft) :
    ∃ c', (declarations bound draft).exec c s = (.ok (items.foldl Draft.add draft, c'), s') := by
  induction h generalizing bound draft with
  | @done c s hend =>
    cases bound with
    | zero => exact absurd hbound (Nat.not_lt_zero _)
    | succ bound =>
      refine ⟨c.settle .code, exec_read_bind_ok.mpr ⟨(c.peek .code).1, c.settle .code, rfl, ?_⟩⟩
      rw [if_pos hend]
      rfl
  | @next c c₁ c₂ s s₁ s₂ keyword item items hstarts hdeclares _ ih =>
    cases bound with
    | zero => exact absurd hbound (Nat.not_lt_zero _)
    | succ bound =>
      have hread := hdeclares.exec draft
      obtain ⟨heof', hshorter⟩ := hstarts.declaration_shorter hread heof
      have hlength : c₂.ahead.length < bound := by omega
      obtain ⟨c', hrest⟩ := ih heof' hlength (draft.add item)
      obtain ⟨token, c₀, hpeek, hcode, hkeyword⟩ := hstarts
      refine ⟨c', exec_read_bind_ok.mpr ⟨token, c₀, hpeek, ?_⟩⟩
      rw [if_neg hcode]
      refine exec_read_bind_ok.mpr ⟨keyword, c₁, hkeyword, ?_⟩
      exact (exec_bind hread).trans hrest

/-- Declarations that are read add items. -/
theorem exists_consists {bound : Nat} {draft draft' : Draft} {c c' : Cursor} {s s' : Session}
    (h : (declarations bound draft).exec c s = (.ok (draft', c'), s')) (heof : c.eof.kind = .eof)
    (hbound : c.ahead.length < bound) :
    ∃ items, Consists c s items s' ∧ draft' = items.foldl Draft.add draft := by
  induction bound generalizing draft c s with
  | zero => exact absurd hbound (Nat.not_lt_zero _)
  | succ bound ih =>
    obtain ⟨token, c₀, hpeek, h⟩ := exec_read_bind_ok.mp h
    by_cases hcode : token.kind = .eof
    · rw [if_pos hcode] at h
      cases h
      cases hpeek
      exact ⟨[], .done hcode, rfl⟩
    · rw [if_neg hcode] at h
      obtain ⟨keyword, c₁, hkeyword, h⟩ := exec_read_bind_ok.mp h
      obtain ⟨draft₁, c₂, s₁, hread, h⟩ := exec_bind_ok h
      obtain ⟨item, hdeclares, rfl⟩ := exists_declares hread
      have hstarts : StartsWord c keyword c₁ := ⟨token, c₀, hpeek, hcode, hkeyword⟩
      obtain ⟨heof', hshorter⟩ := hstarts.declaration_shorter hread heof
      have hlength : c₂.ahead.length < bound := by omega
      obtain ⟨items, hconsists, hdraft⟩ := ih h heof' hlength
      exact ⟨item :: items, .next hstarts hdeclares hconsists, hdraft⟩

end SdkBindings.Grammar
