import SdkBindings.Grammar.Headers
import SdkBindings.Proofs.Expression.Unconvertible
import SdkBindings.Proofs.Grammar.Forward

/-!
# Statements, forwards and without breaking

A statement moves a cursor and may change the session.  Like a reader it moves forward whenever it
succeeds.  When it fails, the failure belongs to the errors of the headers unless an evaluation broke
or a list of fields came to an array length that the host does not read (`Breaks`).  Statements that
ask for neither are plain: they move forward and do not break (`IsPlain`), which follows from their
parts (`IsPlain.bind`).
-/

namespace SdkBindings.Grammar

/-! ## Outcomes -/

/-- The outcome of a statement and the session after it. -/
def Statement.exec {α : Type} (m : Statement α) (c : Cursor) (s : Session) :
    Except Failure (α × Cursor) × Session :=
  (m c).run s

variable {α β : Type}

/-- A statement that succeeds went through its first part. -/
theorem exec_bind_ok {m : Statement α} {k : α → Statement β} {c c'' : Cursor} {s s'' : Session}
    {b : β} (h : Statement.exec (m >>= k) c s = (.ok (b, c''), s'')) :
    ∃ a c' s', m.exec c s = (.ok (a, c'), s') ∧ (k a).exec c' s' = (.ok (b, c''), s'') := by
  obtain ⟨⟨a, c'⟩, s', ha, hb⟩ := run_bind_ok (m := m c) h
  exact ⟨a, c', s', ha, hb⟩

/-- A reader as a statement leaves the session alone. -/
theorem exec_read_ok {m : Reader α} {c c' : Cursor} {s s' : Session} {a : α} :
    (read m).exec c s = (.ok (a, c'), s') ↔ m c = .ok (a, c') ∧ s' = s := by
  unfold Statement.exec read
  cases m c with
  | error e =>
    refine iff_of_false (fun h => nomatch h) fun h => nomatch h.1
  | ok p =>
    constructor
    · intro h
      cases h
      exact ⟨rfl, rfl⟩
    · rintro ⟨h, rfl⟩
      cases h
      rfl

/-- An action as a statement leaves the cursor alone. -/
theorem exec_lift_ok {m : InSession α} {c c' : Cursor} {s s' : Session} {a : α} :
    (liftM m : Statement α).exec c s = (.ok (a, c'), s') ↔ m.run s = (.ok a, s') ∧ c' = c := by
  constructor
  · intro h
    obtain ⟨b, s₁, hm, h⟩ := run_bind_ok (m := m) h
    cases h
    exact ⟨hm, rfl⟩
  · rintro ⟨hm, rfl⟩
    show ExceptT.run (m >>= fun a => pure (a, c')) s = _
    rw [run_bind, hm]
    rfl

/-- A reader as a statement fails as the reader does. -/
theorem exec_read_error {m : Reader α} {c : Cursor} {s s' : Session} {f : Failure} :
    (read m).exec c s = (.error f, s') ↔ m c = .error f ∧ s' = s := by
  unfold Statement.exec read
  cases m c with
  | error e =>
    constructor
    · intro h
      cases h
      exact ⟨rfl, rfl⟩
    · rintro ⟨h, rfl⟩
      cases h
      rfl
  | ok p => exact iff_of_false (fun h => nomatch h) fun h => nomatch h.1

/-! ## Breaking -/

/-- The failure is one of the errors of the headers, which are reported; the others pass through
every handler. -/
def Failure.IsReported : Failure → Prop
  | .grammar _ => True
  | .constant e => ¬ e.IsUnhandled
  | .unresolvedGuid _ _ => True

/-- An action in a session ends with a failure that is not reported. -/
def ActionBreaks (m : InSession α) (s : Session) : Prop :=
  ∃ f s', m.run s = (.error f, s') ∧ ¬ f.IsReported

/-- A result is no break. -/
theorem not_actionBreaks_pure (a : α) (s : Session) : ¬ ActionBreaks (pure a) s := by
  rintro ⟨f, s', h, -⟩
  cases h

/-- Of two actions in a row either the first one breaks or the second one does. -/
theorem actionBreaks_bind {m : InSession α} {k : α → InSession β} {s : Session} :
    ActionBreaks (m >>= k) s ↔
      ActionBreaks m s ∨ ∃ a s', m.run s = (.ok a, s') ∧ ActionBreaks (k a) s' := by
  unfold ActionBreaks
  rw [run_bind]
  rcases m.run s with ⟨f | a, s'⟩
  · constructor
    · rintro ⟨f', s'', h, hf⟩
      cases h
      exact .inl ⟨f, s', rfl, hf⟩
    · rintro (⟨f', s'', h, hf⟩ | ⟨_, _, h, -⟩) <;> cases h
      exact ⟨f, s', rfl, hf⟩
  · constructor
    · exact fun h => .inr ⟨a, s', rfl, h⟩
    · rintro (⟨f', s'', h, -⟩ | ⟨_, _, h, hf⟩) <;> cases h
      exact hf

/-- A statement ends with a failure that is not reported. -/
def Breaks (m : Statement α) (c : Cursor) (s : Session) : Prop :=
  ActionBreaks (m c) s

/-- A result is no break. -/
theorem not_breaks_pure (a : α) (c : Cursor) (s : Session) : ¬ Breaks (pure a) c s :=
  not_actionBreaks_pure (a, c) s

/-- A reader breaks if it fails with a failure that is not reported. -/
theorem breaks_read {m : Reader α} {c : Cursor} {s : Session} :
    Breaks (read m) c s ↔ ∃ f, m c = .error f ∧ ¬ f.IsReported := by
  constructor
  · rintro ⟨f, s', h, hf⟩
    exact ⟨f, (exec_read_error.mp h).1, hf⟩
  · rintro ⟨f, h, hf⟩
    exact ⟨f, s, exec_read_error.mpr ⟨h, rfl⟩, hf⟩

/-- A reader of no array lengths does not break. -/
theorem Proceeds.not_breaks [Host] {m : Reader α} (hm : Proceeds .nothing m) (c : Cursor) (s : Session) :
    ¬ Breaks (read m) c s := by
  rw [breaks_read]
  rintro ⟨f, h, hf⟩
  obtain ⟨e, rfl⟩ := (hm.concerns c f h).eq_grammar
  exact hf trivial

/-- Of two statements in a row either the first one breaks or the second one does. -/
theorem breaks_bind {m : Statement α} {k : α → Statement β} {c : Cursor} {s : Session} :
    Breaks (m >>= k) c s ↔
      Breaks m c s ∨ ∃ a c' s', m.exec c s = (.ok (a, c'), s') ∧ Breaks (k a) c' s' := by
  refine actionBreaks_bind.trans (or_congr_right ⟨?_, ?_⟩)
  · rintro ⟨⟨a, c'⟩, s', h, hk⟩
    exact ⟨a, c', s', h, hk⟩
  · rintro ⟨a, c', s', h, hk⟩
    exact ⟨(a, c'), s', h, hk⟩

/-- An action as a statement breaks if it does. -/
theorem breaks_lift {m : InSession α} {c : Cursor} {s : Session} :
    Breaks (liftM m : Statement α) c s ↔ ActionBreaks m s := by
  refine actionBreaks_bind.trans (or_iff_left ?_)
  rintro ⟨a, s', -, h⟩
  exact not_actionBreaks_pure _ s' h

/-- After a reader of no array lengths the rest of a statement decides. -/
theorem breaks_read_bind [Host] {m : Reader α} {k : α → Statement β} {c : Cursor} {s : Session}
    (hm : Proceeds .nothing m) :
    Breaks (read m >>= k) c s ↔ ∃ a c', m c = .ok (a, c') ∧ Breaks (k a) c' s := by
  rw [breaks_bind, or_iff_right (hm.not_breaks c s)]
  constructor
  · rintro ⟨a, c', s', h, hk⟩
    obtain ⟨hm, rfl⟩ := exec_read_ok.mp h
    exact ⟨a, c', hm, hk⟩
  · rintro ⟨a, c', h, hk⟩
    exact ⟨a, c', s, exec_read_ok.mpr ⟨h, rfl⟩, hk⟩

/-! ## Plain statements -/

/-- The statement moves forward whenever it succeeds. -/
def IsForward (m : Statement α) : Prop :=
  ∀ c s a c' s', m.exec c s = (.ok (a, c'), s') → c.IsBefore c'

/-- The statement moves forward and does not break. -/
structure IsPlain (m : Statement α) : Prop where
  /-- It moves forward. -/
  forward : IsForward m
  /-- It does not break. -/
  unbroken : ∀ c s, ¬ Breaks m c s

namespace IsForward

theorem pure (a : α) : IsForward (Pure.pure a) := by
  intro c s _ _ _ h
  cases h
  exact .refl c

theorem read {m : Reader α} (hm : Forward m) : IsForward (Grammar.read m) :=
  fun c _ a c' _ h => hm c a c' (exec_read_ok.mp h).1

/-- An action in the session leaves the cursor alone. -/
theorem lift (m : InSession α) : IsForward (liftM m : Statement α) := by
  intro c s a c' s' h
  obtain ⟨-, rfl⟩ := exec_lift_ok.mp h
  exact .refl c'

/-- Two statements in a row move forward. -/
theorem bind {m : Statement α} {k : α → Statement β} (hm : IsForward m)
    (hk : ∀ a, IsForward (k a)) : IsForward (m >>= k) := by
  intro c s b c'' s'' h
  obtain ⟨a, c', s', ha, hb⟩ := exec_bind_ok h
  exact (hm c s a c' s' ha).trans (hk a c' s' b c'' s'' hb)

/-- A statement that is chosen by a condition moves forward. -/
theorem ite {p : Prop} [Decidable p] {m k : Statement α} (hm : IsForward m) (hk : IsForward k) :
    IsForward (if p then m else k) := by
  split
  · exact hm
  · exact hk

end IsForward

namespace IsPlain

theorem pure (a : α) : IsPlain (Pure.pure a) :=
  ⟨.pure a, not_breaks_pure a⟩

theorem read [Host] {m : Reader α} (hm : Proceeds .nothing m) : IsPlain (Grammar.read m) :=
  ⟨.read hm.forward, hm.not_breaks⟩

/-- Two plain statements in a row are plain. -/
theorem bind {m : Statement α} {k : α → Statement β} (hm : IsPlain m) (hk : ∀ a, IsPlain (k a)) :
    IsPlain (m >>= k) := by
  refine ⟨hm.forward.bind fun a => (hk a).forward, fun c s h => ?_⟩
  rcases breaks_bind.mp h with h | ⟨a, c', s', -, h⟩
  · exact hm.unbroken c s h
  · exact (hk a).unbroken c' s' h

/-- A plain statement that is chosen by a condition is plain. -/
theorem ite {p : Prop} [Decidable p] {m k : Statement α} (hm : IsPlain m) (hk : IsPlain k) :
    IsPlain (if p then m else k) := by
  split
  · exact hm
  · exact hk

/-- Asking for the known constants is plain. -/
theorem symbols : IsPlain (liftM Grammar.symbols : Statement SymbolTable) := by
  refine ⟨.lift _, ?_⟩
  rintro c s ⟨f, s', h, -⟩
  cases h

end IsPlain

/-- What is plain after a statement does not matter. -/
theorem breaks_bind_plain {m : Statement α} {k : α → Statement β} {c : Cursor} {s : Session}
    (hk : ∀ a, IsPlain (k a)) : Breaks (m >>= k) c s ↔ Breaks m c s := by
  refine breaks_bind.trans (or_iff_left ?_)
  rintro ⟨a, c', s', -, h⟩
  exact (hk a).unbroken c' s' h

/-- After asking for the known constants the rest of a statement decides. -/
theorem breaks_symbols_bind {k : SymbolTable → Statement α} {c : Cursor} {s : Session} :
    Breaks (liftM symbols >>= k) c s ↔ Breaks (k s.symbols) c s := by
  rw [breaks_bind, or_iff_right (IsPlain.symbols.unbroken c s)]
  constructor
  · rintro ⟨table, c', s', h, hk⟩
    cases h
    exact hk
  · exact fun hk => ⟨s.symbols, c, s, rfl, hk⟩

/-! ## Declarations without values -/

/-- Reading an interface identifier is plain. -/
theorem isPlain_interfaceGuid (draft : Draft) : IsPlain (interfaceGuid draft) := by
  refine (IsPlain.read (.expect "(" _)).bind fun _ => ?_
  refine (IsPlain.read (.expectKind .string _)).bind fun guid => ?_
  refine (IsPlain.read (.expect ")" _)).bind fun _ => ?_
  exact (IsPlain.read (.expectKind .ident _)).bind fun name => .pure _

/-- Opening a body proceeds. -/
theorem proceeds_openBody [Host] : Proceeds .nothing openBody := by
  refine Proceeds.next.bind fun tag => .ite (.pure _) (Proceeds.peek.bind fun token => ?_)
  exact .ite (Proceeds.next.bind fun _ => .pure _) (.pure _)

theorem forward_openBody : Forward openBody :=
  proceeds_openBody.forward

/-! ## Declarations with lists of fields -/

section

variable [Host]

/-- Reading a struct moves forward. -/
theorem isForward_typedefStruct (draft : Draft) : IsForward (typedefStruct draft) := by
  refine (IsForward.read forward_openBody).bind fun tag => ?_
  cases tag with
  | none => exact .pure draft
  | some tag =>
    refine (IsForward.lift _).bind fun table => ?_
    refine (IsForward.read (forward_fields table .members)).bind fun members => ?_
    refine (IsForward.read (.expectKind .ident _)).bind fun name => ?_
    exact (IsForward.read (.expect ";" _)).bind fun _ => .pure _

/-- Reading a struct breaks if its list of members does. -/
theorem breaks_typedefStruct {draft : Draft} {c : Cursor} {s : Session} :
    Breaks (typedefStruct draft) c s ↔
      ∃ tag c', openBody c = .ok (some tag, c') ∧ Breaks (read (fields s.symbols .members)) c' s := by
  have hafter (tag : Token) (members : List Field) : IsPlain (do
      let name ← read (Reader.expectKind .ident "struct name")
      let ident := if tag.kind = .ident then tag.text else name.text
      let _ ← read (Reader.expect ";" ("end of struct " ++ ident))
      pure (draft.addStruct ident members)) := by
    refine (IsPlain.read (.expectKind .ident _)).bind fun name => ?_
    exact (IsPlain.read (.expect ";" _)).bind fun _ => .pure _
  rw [typedefStruct, breaks_read_bind proceeds_openBody]
  constructor
  · rintro ⟨tag, c', hopen, h⟩
    cases tag with
    | none => exact (not_breaks_pure _ _ _ h).elim
    | some tag =>
      exact ⟨tag, c', hopen, (breaks_bind_plain (hafter tag)).mp (breaks_symbols_bind.mp h)⟩
  · rintro ⟨tag, c', hopen, h⟩
    exact ⟨some tag, c', hopen, breaks_symbols_bind.mpr ((breaks_bind_plain (hafter tag)).mpr h)⟩

/-- An exported function is declared whose parameters are more than the word `void`; the cursor is in
front of them. -/
def OpensParameters (c c' : Cursor) : Prop :=
  ∃ convention c₁ name c₂ opening c₃ first second, Reader.next c = .ok (convention, c₁) ∧
    convention.text = "WINAPI" ∧ Reader.expectKind .ident "function name" c₁ = .ok (name, c₂) ∧
    Reader.expect "(" ("after function name " ++ name.text) c₂ = .ok (opening, c₃) ∧
    Reader.peek c₃ = .ok (first, c') ∧ Reader.peekSecond c' = .ok (second, c') ∧
    ¬ (first.text = "void" ∧ second.text = ")")

omit [Host] in
/-- The parameters are ahead of the declaration. -/
theorem OpensParameters.isBefore {c c' : Cursor} (h : OpensParameters c c') : c.IsBefore c' := by
  obtain ⟨convention, c₁, name, c₂, opening, c₃, first, second, hconvention, -, hname, hopening,
    hfirst, -⟩ := h
  have hfront := (Forward.next c _ c₁ hconvention).trans (Forward.expectKind _ _ c₁ _ c₂ hname)
  exact (hfront.trans (Forward.expect _ _ c₂ _ c₃ hopening)).trans (Forward.peek c₃ _ c' hfirst)

/-- What follows the parameters of a function is plain. -/
theorem isPlain_functionEnd (draft : Draft) (name : Token) (parameters : List Field) :
    IsPlain (do
      let _ ← read (Reader.expect ";" ("after parameters of " ++ name.text))
      let header := draft.header
      pure { draft with header := { header with
        functions := header.functions ++ [⟨name.text, name.text, parameters⟩] } } : Statement Draft) :=
  (IsPlain.read (.expect ";" _)).bind fun _ => .pure _

/-- Reading an exported function moves forward. -/
theorem isForward_function (draft : Draft) : IsForward (function draft) := by
  refine (IsForward.read .next).bind fun convention => .ite (.pure draft) ?_
  refine (IsForward.read (.expectKind .ident _)).bind fun name => ?_
  refine (IsForward.read (.expect "(" _)).bind fun _ => ?_
  refine (IsForward.read .peek).bind fun first => (IsForward.read .peekSecond).bind fun second => ?_
  refine .ite ?_ ?_
  · refine (IsForward.read .next).bind fun _ => (IsForward.read .next).bind fun _ => ?_
    exact (IsForward.pure []).bind fun _ => (isPlain_functionEnd draft name _).forward
  · refine (IsForward.lift _).bind fun table => ?_
    refine (IsForward.read (forward_fields table .parameters)).bind fun _ => ?_
    exact (isPlain_functionEnd draft name _).forward

/-- Reading an exported function breaks if its list of parameters does. -/
theorem breaks_function {draft : Draft} {c : Cursor} {s : Session} :
    Breaks (function draft) c s ↔
      ∃ c', OpensParameters c c' ∧ Breaks (read (fields s.symbols .parameters)) c' s := by
  have hvoid {k : List Field → Statement Draft} (hk : ∀ parameters, IsPlain (k parameters)) :
      IsPlain (do
        let _ ← read Reader.next
        let _ ← read Reader.next
        let parameters ← pure []
        k parameters) := by
    refine (IsPlain.read .next).bind fun _ => (IsPlain.read .next).bind fun _ => ?_
    exact (IsPlain.pure []).bind hk
  constructor
  · intro h
    obtain ⟨convention, c₁, hconvention, h⟩ := (breaks_read_bind .next).mp h
    split at h
    · exact (not_breaks_pure _ _ _ h).elim
    rename_i hexported
    obtain ⟨name, c₂, hname, h⟩ := (breaks_read_bind (.expectKind .ident _)).mp h
    obtain ⟨opening, c₃, hopening, h⟩ := (breaks_read_bind (.expect "(" _)).mp h
    obtain ⟨first, c', hfirst, h⟩ := (breaks_read_bind .peek).mp h
    obtain ⟨second, c'', hsecond, hrest⟩ := (breaks_read_bind .peekSecond).mp h
    have hstays : c'' = c' := by
      cases hsecond
      rfl
    rw [hstays] at hsecond hrest
    extract_lets header ending at hrest
    split at hrest
    · exact ((hvoid (isPlain_functionEnd draft name)).unbroken _ _ hrest).elim
    rename_i hlist
    refine ⟨c', ⟨convention, c₁, name, c₂, opening, c₃, first, second, hconvention,
      Classical.not_not.mp hexported, hname, hopening, hfirst, hsecond, hlist⟩, ?_⟩
    exact (breaks_bind_plain (isPlain_functionEnd draft name)).mp (breaks_symbols_bind.mp hrest)
  · rintro ⟨c', ⟨convention, c₁, name, c₂, opening, c₃, first, second, hconvention, hexported, hname,
      hopening, hfirst, hsecond, hlist⟩, h⟩
    refine (breaks_read_bind .next).mpr ⟨convention, c₁, hconvention, ?_⟩
    rw [if_neg (not_not_intro hexported)]
    refine (breaks_read_bind (.expectKind .ident _)).mpr ⟨name, c₂, hname, ?_⟩
    refine (breaks_read_bind (.expect "(" _)).mpr ⟨opening, c₃, hopening, ?_⟩
    refine (breaks_read_bind .peek).mpr ⟨first, c', hfirst, ?_⟩
    refine (breaks_read_bind .peekSecond).mpr ⟨second, c', hsecond, ?_⟩
    dsimp only
    rw [if_neg hlist]
    exact breaks_symbols_bind.mpr ((breaks_bind_plain (isPlain_functionEnd draft name)).mpr h)

/-- An interface with a body is declared; the cursor is in front of its members. -/
def OpensInterface (c c' : Cursor) : Prop :=
  ∃ name c₁ token, Reader.expectKind .ident "interface name" c = .ok (name, c₁) ∧
    Reader.next c₁ = .ok (token, c') ∧ token.text ≠ name.text ∧ token.text = "\x7b"

omit [Host] in
/-- The members are ahead of the declaration. -/
theorem OpensInterface.isBefore {c c' : Cursor} (h : OpensInterface c c') : c.IsBefore c' := by
  obtain ⟨name, c₁, token, hname, htoken, -⟩ := h
  exact (Forward.expectKind _ _ c _ c₁ hname).trans (Forward.next c₁ _ c' htoken)

/-- Reading an interface moves forward. -/
theorem isForward_interface (draft : Draft) : IsForward (interface draft) := by
  refine (IsForward.read (.expectKind .ident _)).bind fun name => ?_
  refine (IsForward.read .next).bind fun token => .ite (.pure draft) ?_
  extract_lets header members
  have hmembers (u : Unit) : IsForward (members u) := by
    refine (IsForward.lift _).bind fun table => ?_
    exact (IsForward.read (forward_fields table .members)).bind fun members => .pure _
  exact .ite ((IsForward.read (.fail _ _ _)).bind hmembers) (hmembers ())

/-- Reading an interface breaks if its list of members does. -/
theorem breaks_interface {draft : Draft} {c : Cursor} {s : Session} :
    Breaks (interface draft) c s ↔
      ∃ c', OpensInterface c c' ∧ Breaks (read (fields s.symbols .members)) c' s := by
  constructor
  · intro h
    obtain ⟨name, c₁, hname, h⟩ := (breaks_read_bind (.expectKind .ident _)).mp h
    obtain ⟨token, c', htoken, h⟩ := (breaks_read_bind .next).mp h
    split at h
    · exact (not_breaks_pure _ _ _ h).elim
    rename_i hnew
    extract_lets header members at h
    split at h
    · obtain ⟨_, _, hfail, -⟩ := (breaks_read_bind (.fail _ _ _)).mp h
      cases hfail
    rename_i hopening
    refine ⟨c', ⟨name, c₁, token, hname, htoken, hnew, Classical.not_not.mp hopening⟩, ?_⟩
    exact (breaks_bind_plain fun _ => .pure _).mp (breaks_symbols_bind.mp h)
  · rintro ⟨c', ⟨name, c₁, token, hname, htoken, hnew, hopening⟩, h⟩
    refine (breaks_read_bind (.expectKind .ident _)).mpr ⟨name, c₁, hname, ?_⟩
    refine (breaks_read_bind .next).mpr ⟨token, c', htoken, ?_⟩
    rw [if_neg hnew]
    dsimp only
    rw [if_neg (not_not_intro hopening)]
    exact breaks_symbols_bind.mpr ((breaks_bind_plain fun _ => .pure _).mpr h)

end

end SdkBindings.Grammar
