import SdkBindings.Proofs.Grammar.Statement

/-!
# When reading a header ends without a report

Reading a header succeeds or fails with one of the errors of the headers, which are reported, with
two exceptions: the value of a macro or of a constant of an enumeration may need a conversion that has
no result, and the length of an array may have more digits than the host reads.
`readHeader_unreported_iff` says, for every host, that these exceptions are the only ones and when they
occur.

`Asked` lists what is asked for while a header is read: the values of tokens and the lists of fields,
each with the constants known at that point (`Question`).  It follows the places between the
declarations (`Reached`) and those between the constants of an enumeration (`ReachedConstant`), and both
follow the loops of the grammar one round at a time.  That a loop comes to every such place is where its
bound matters: each round passes at least one token.
-/

namespace SdkBindings.Grammar

open Constant (Unconvertible)
open Lexer (IsPiece)

/-! ## Questions -/

/-- What is asked for while a header is read. -/
inductive Question where
  /-- The value of tokens, with the constants known then. -/
  | value (symbols : SymbolTable) (tokens : List Token)
  /-- The list of fields ahead of a cursor, with the constants known then. -/
  | list (symbols : SymbolTable) (brackets : Brackets) (c : Cursor)

/-- There is no answer: the tokens are unconvertible, or the list comes to an array length with more
digits than the host reads. -/
def Question.IsRefused [Host] : Question → Prop
  | .value symbols tokens => Unconvertible symbols tokens
  | .list symbols brackets c => ∃ token ∈ c.ahead, token.kind = .number ∧
      Constant.IsOverlong token.text.toList ∧
      fields symbols brackets c = .error (.constant (.ofDecimalInteger token.text))

section

variable [Host]

/-- A list of fields breaks if it is refused. -/
theorem breaks_fields {symbols : SymbolTable} {brackets : Brackets} {c : Cursor} {s : Session}
    (hpieces : ∀ t ∈ c.ahead, IsPiece t) (heof : c.eof.kind = .eof) :
    Breaks (read (fields symbols brackets)) c s ↔ (Question.list symbols brackets c).IsRefused := by
  rw [breaks_read]
  constructor
  · rintro ⟨f, h, hf⟩
    have hconcerns := (proceeds_fields symbols brackets).concerns c f h
    cases f with
    | grammar e => exact (hf trivial).elim
    | unresolvedGuid file interface => exact (hf trivial).elim
    | constant e =>
      obtain ⟨token, hmem, ⟨hkind, hdigits, hnone⟩, rfl⟩ := hconcerns
      have hahead : token ∈ c.ahead := by
        have hmem' : token ∈ c.ahead ++ [c.eof] := hmem
        refine (List.mem_append.mp hmem').resolve_right fun hend => ?_
        rw [List.mem_singleton.mp hend, heof] at hkind
        cases hkind
      have hreadable := Constant.isReadable_text (hpieces token hahead) (.inl hkind)
      exact ⟨token, hahead, hkind,
        (Constant.decimalInteger?_eq_none_iff hreadable hdigits).mp hnone, h⟩
  · rintro ⟨token, -, -, -, h⟩
    exact ⟨_, h, fun hreported => hreported (Constant.isUnhandled_ofDecimalInteger token.text)⟩

/-! ## Values -/

omit [Host] in
/-- A value breaks if its evaluation does: what is unsupported is noted, what is malformed reported. -/
theorem breaks_evaluated {notes : Log} {result : Except Constant.Error Value}
    {note : Constant.Error → LogEntry} {s : Session} :
    ActionBreaks (evaluated notes result note) s ↔ Constant.Breaks result := by
  unfold evaluated
  cases result with
  | ok v =>
    refine iff_of_false ?_ (Constant.not_breaks_ok v)
    rintro ⟨f, s', h, -⟩
    cases h
  | error e =>
    rw [Constant.breaks_error]
    by_cases hclass : e.class = .unsupported
    · refine iff_of_false ?_ fun h => ?_
      · rintro ⟨f, s', h, -⟩
        simp only [hclass, if_true] at h
        cases h
      · rcases h with h | h | h <;> cases hclass.symm.trans h
    · constructor
      · rintro ⟨f, s', h, hf⟩
        simp only [hclass, if_false] at h
        cases h
        exact Classical.not_not.mp hf
      · intro h
        refine ⟨.constant e, { s with log := s.log ++ notes }, ?_, fun hf => hf h⟩
        simp only [hclass, if_false]
        rfl

/-! ## Macros -/

/-- The directive ahead, after its `#`, defines a macro whose body is an expression. -/
def Defines (c : Cursor) (name : Token) (body : List Token) : Prop :=
  ∃ word c₁ c₂ c₃, c.next .line = (word, c₁) ∧ word.kind ≠ .newline ∧ word.text = "define" ∧
    c₁.next .line = (name, c₂) ∧ name.kind = .ident ∧ c₂.readLine = (body, c₃) ∧
    Rules.isSkippedMacro name.text (body.map Token.text) = false ∧
    Constant.macroShape name body = .ok ()

omit [Host] in
/-- The rest of the line after two reads was ahead. -/
theorem mem_ahead_of_readLine {c c₁ c₂ c₃ : Cursor} {word name t : Token} {body : List Token}
    (hword : c.next .line = (word, c₁)) (hname : c₁.next .line = (name, c₂))
    (hbody : c₂.readLine = (body, c₃)) (ht : t ∈ body) : t ∈ c.ahead := by
  have hline : c₂.readLine.1 = body := congrArg Prod.fst hbody
  rw [← hline] at ht
  have h₁ := c.isBefore_next .line
  have h₂ := c₁.isBefore_next .line
  rw [hword] at h₁
  rw [hname] at h₂
  exact (h₁.trans h₂).mem_ahead ((List.takeWhile_sublist _).subset ht)

/-- A macro breaks if its body is an expression that is unconvertible. -/
theorem breaks_evaluateMacro {symbols : SymbolTable} {name : Token} {body : List Token}
    (h : ∀ t ∈ body, IsPiece t) :
    Constant.Breaks (Constant.evaluateMacro symbols name body) ↔
      Constant.macroShape name body = .ok () ∧ Unconvertible symbols body := by
  have hshape : ¬ Constant.Breaks (Constant.macroShape name body) := by
    unfold Constant.macroShape
    split
    · exact Constant.not_breaks_error (.inl rfl)
    · split
      · exact Constant.not_breaks_error (.inl rfl)
      · split
        · exact Constant.not_breaks_error (.inl rfl)
        · exact Constant.not_breaks_ok ()
  rw [Constant.evaluateMacro, Constant.breaks_bind, or_iff_right hshape]
  refine ⟨?_, fun h' => ⟨(), h'.1, (Constant.breaks_evaluate symbols h).mpr h'.2⟩⟩
  rintro ⟨_, hok, hbreaks⟩
  exact ⟨hok, (Constant.breaks_evaluate symbols h).mp hbreaks⟩

omit [Host] in
/-- After asking for the known constants the rest of an action decides. -/
theorem actionBreaks_symbols_bind {α : Type} {k : SymbolTable → InSession α} {s : Session} :
    ActionBreaks (symbols >>= k) s ↔ ActionBreaks (k s.symbols) s := by
  refine actionBreaks_bind.trans ((or_iff_right ?_).trans ⟨?_, fun h => ⟨s.symbols, s, rfl, h⟩⟩)
  · rintro ⟨f, s', heq, -⟩
    cases heq
  · rintro ⟨table, s', heq, h⟩
    cases heq
    exact h

omit [Host] in
/-- Making a constant known does not break. -/
theorem not_actionBreaks_define (name : String) (value : Value) (s : Session) :
    ¬ ActionBreaks (define name value) s := by
  rintro ⟨f, s', heq, -⟩
  cases heq

omit [Host] in
/-- Making the value of a macro known does not break. -/
theorem not_breaks_define_pure {name : String} {value : Value} {draft : Draft} (c : Cursor)
    (s : Session) : ¬ Breaks (do define name value; pure draft) c s := by
  intro h
  rcases breaks_bind.mp h with h | ⟨_, _, _, -, h⟩
  · exact not_actionBreaks_define _ _ _ (breaks_lift.mp h)
  · exact not_breaks_pure _ _ _ h

/-- After the body of a macro only its value can break, if what is done with the value cannot. -/
theorem breaks_macroValue {name : Token} {body : List Token} {k : Option Value → Statement Draft}
    {c : Cursor} {s : Session} (hnone : ∀ c s, ¬ Breaks (k none) c s)
    (hsome : ∀ value c s, ¬ Breaks (k (some value)) c s) :
    Breaks (do
      let table ← liftM symbols
      let value ← evaluated (Constant.macroNotes table name body)
        (Constant.evaluateMacro table name body) fun e => debug ("Skipping macro " ++ e.message)
      k value) c s ↔ Constant.Breaks (Constant.evaluateMacro s.symbols name body) := by
  rw [breaks_symbols_bind, breaks_bind, breaks_lift, breaks_evaluated]
  refine or_iff_left ?_
  rintro ⟨value, c', s', -, hrest⟩
  cases value with
  | none => exact hnone c' s' hrest
  | some value => exact hsome value c' s' hrest

/-- A directive breaks if it defines a macro whose body is unconvertible. -/
theorem breaks_directive {draft : Draft} {c : Cursor} {s : Session} (h : ∀ t ∈ c.ahead, IsPiece t) :
    Breaks (directive draft) c s ↔
      ∃ name body, Defines c name body ∧ Unconvertible s.symbols body := by
  constructor
  · intro hbreaks
    obtain ⟨word, c₁, hword, hbreaks⟩ := (breaks_read_bind .nextInLine).mp hbreaks
    split at hbreaks
    · exact (not_breaks_pure _ _ _ hbreaks).elim
    rename_i hline
    split at hbreaks
    · obtain ⟨_, _, -, hbreaks⟩ := (breaks_read_bind .readLine).mp hbreaks
      exact (not_breaks_pure _ _ _ hbreaks).elim
    rename_i hdefine
    obtain ⟨name, c₂, hname, hbreaks⟩ := (breaks_read_bind .nextInLine).mp hbreaks
    extract_lets header afterName at hbreaks
    split at hbreaks
    · obtain ⟨_, _, hfail, -⟩ := (breaks_read_bind (.fail _ _ _)).mp hbreaks
      cases hfail
    rename_i hkind
    obtain ⟨body, c₃, hbody, hbreaks⟩ := (breaks_read_bind .readLine).mp hbreaks
    split at hbreaks
    · rcases breaks_bind.mp hbreaks with hbreaks | ⟨_, _, _, -, hbreaks⟩
      · rcases breaks_lift.mp hbreaks with ⟨f, s', heq, -⟩
        cases heq
      · exact (not_breaks_pure _ _ _ hbreaks).elim
    rename_i hskip
    have hbreaks' := (breaks_macroValue (not_breaks_pure _) fun _ => not_breaks_define_pure).mp hbreaks
    have hpassed : ∀ t ∈ body, IsPiece t := fun t ht => h t <|
      mem_ahead_of_readLine (Except.ok.inj hword) (Except.ok.inj hname) (Except.ok.inj hbody) ht
    obtain ⟨hshape, hbody'⟩ := (breaks_evaluateMacro hpassed).mp hbreaks'
    refine ⟨name, body, ⟨word, c₁, c₂, c₃, Except.ok.inj hword, hline, Classical.not_not.mp hdefine,
      Except.ok.inj hname, Classical.not_not.mp hkind, Except.ok.inj hbody, ?_, hshape⟩, hbody'⟩
    exact Bool.eq_false_iff.mpr hskip
  · rintro ⟨name, body, hdefines, hbody⟩
    obtain ⟨word, c₁, c₂, c₃, hword, hline, hdefine, hname, hkind, hread, hskip, hshape⟩ := hdefines
    have hpassed : ∀ t ∈ body, IsPiece t :=
      fun t ht => h t (mem_ahead_of_readLine hword hname hread ht)
    refine (breaks_read_bind .nextInLine).mpr ⟨word, c₁, congrArg Except.ok hword, ?_⟩
    rw [if_neg hline, if_neg (not_not_intro hdefine)]
    refine (breaks_read_bind .nextInLine).mpr ⟨name, c₂, congrArg Except.ok hname, ?_⟩
    rw [if_neg (not_not_intro hkind)]
    refine (breaks_read_bind .readLine).mpr ⟨body, c₃, congrArg Except.ok hread, ?_⟩
    rw [if_neg (Bool.eq_false_iff.mp hskip)]
    refine (breaks_macroValue (not_breaks_pure _) fun _ => not_breaks_define_pure).mpr ?_
    exact (breaks_evaluateMacro hpassed).mpr ⟨hshape, hbody⟩

/-! ## Constants of an enumeration -/

/-- The constants of an enumeration are read from one place to another.  A place is a cursor, the
value of the constant before it and the session. -/
inductive ReachedConstant (enum : String) :
    Cursor → Option Value → Session → Cursor → Option Value → Session → Prop where
  /-- Nothing is read. -/
  | here {c : Cursor} {previous : Option Value} {s : Session} :
      ReachedConstant enum c previous s c previous s
  /-- A constant is read that is not the last one, and then others. -/
  | next {c c' c'' : Cursor} {previous previous'' : Option Value} {s s' s'' : Session}
      {written : WrittenEnumerator} {value : Value}
      (hread : writtenEnumerator enum c = .ok (some written, c'))
      (hvalue : (enumeratorValue previous written).run s = (.ok value, s'))
      (hlast : written.isLast = false)
      (hrest : ReachedConstant enum c' (some value) s' c'' previous'' s'') :
      ReachedConstant enum c previous s c'' previous'' s''

/-- While constants of an enumeration are read, the values of their expressions are asked for. -/
def AskedInEnumeration (enum : String) (c : Cursor) (previous : Option Value) (s : Session)
    (q : Question) : Prop :=
  ∃ c₁ previous₁ s₁ written c₂ tokens, ReachedConstant enum c previous s c₁ previous₁ s₁ ∧
    writtenEnumerator enum c₁ = .ok (some written, c₂) ∧ written.expression = some tokens ∧
    q = .value s₁.symbols tokens

omit [Host] in
/-- The expression of a constant was ahead. -/
theorem mem_ahead_of_enumExpression {ident : String} {c c' : Cursor} {expression : List Token}
    {last : Token} (h : enumExpression ident c = .ok ((expression, last), c')) :
    ∀ t ∈ expression, t ∈ c.ahead := by
  obtain ⟨_, _, hget, h⟩ := reader_bind_ok h
  cases hget
  obtain ⟨_, _, hset, h⟩ := reader_bind_ok h
  cases hset
  obtain ⟨token, c₁, -, h⟩ := reader_bind_ok h
  extract_lets ending afterEnd at h
  split at h
  · cases h
  dsimp -zeta only [afterEnd] at h
  split at h
  · cases h
  · cases h
    intro t ht
    exact (List.takeWhile_sublist _).subset (List.mem_filter.mp ht).1

omit [Host] in
/-- A constant has a name, which is passed, and its expression was ahead. -/
theorem writtenEnumerator_ok {enum : String} {c c' : Cursor} {written : WrittenEnumerator}
    (h : writtenEnumerator enum c = .ok (some written, c')) (heof : c.eof.kind = .eof) :
    c'.ahead.length < c.ahead.length ∧
      ∀ tokens ∈ written.expression, ∀ t ∈ tokens, t ∈ c.ahead := by
  obtain ⟨token, c₁, htoken, h⟩ := reader_bind_ok h
  split at h
  · cases h
  split at h
  · cases h
  rename_i hkind
  obtain ⟨separator, c₂, hseparator, h⟩ := reader_bind_ok h
  have hshorter : c₁.ahead.length < c.ahead.length := by
    have hnext : token = c.eof ∨ c₁.ahead.length < c.ahead.length := by
      have hnext := c.next_eq_eof_or_length_lt .code
      rwa [Except.ok.inj htoken] at hnext
    refine hnext.resolve_left fun hlast => ?_
    rw [hlast, heof] at hkind
    exact hkind nofun
  have hfirst : c.IsBefore c₁ := Forward.next c token c₁ htoken
  have hsecond : c₁.IsBefore c₂ := Forward.next c₁ separator c₂ hseparator
  split at h
  · obtain ⟨⟨expression, last⟩, c₃, hexpression, h⟩ := reader_bind_ok h
    cases h
    have hthird := forward_enumExpression _ c₂ _ c' hexpression
    refine ⟨Nat.lt_of_le_of_lt (hsecond.trans hthird).length_le hshorter, ?_⟩
    rintro tokens ⟨⟩ t ht
    exact (hfirst.trans hsecond).mem_ahead (mem_ahead_of_enumExpression hexpression t ht)
  · split at h
    · cases h
      refine ⟨Nat.lt_of_le_of_lt hsecond.length_le hshorter, ?_⟩
      rintro tokens ⟨⟩
    · cases h

/-- The value of a constant breaks if its expression is unconvertible. -/
theorem breaks_enumeratorValue {previous : Option Value} {written : WrittenEnumerator} {s : Session}
    (h : ∀ tokens ∈ written.expression, ∀ t ∈ tokens, IsPiece t) :
    ActionBreaks (enumeratorValue previous written) s ↔
      ∃ tokens ∈ written.expression, Unconvertible s.symbols tokens := by
  have hexpression (tokens : List Token) (htokens : ∀ t ∈ tokens, IsPiece t) :
      ActionBreaks (expressionValue tokens) s ↔ Unconvertible s.symbols tokens := by
    refine actionBreaks_symbols_bind.trans (actionBreaks_bind.trans ((or_iff_left ?_).trans ?_))
    · rintro ⟨value, s', -, hrest⟩
      exact not_actionBreaks_pure _ _ hrest
    · exact breaks_evaluated.trans (Constant.breaks_evaluate s.symbols htokens)
  unfold enumeratorValue
  extract_lets afterValue
  -- what follows the value makes the constant known at most
  have hafterValue (value : Value) (s' : Session) : ¬ ActionBreaks (afterValue value) s' := by
    dsimp -zeta only [afterValue]
    extract_lets ending
    intro hrest
    split at hrest
    · rcases actionBreaks_bind.mp hrest with hrest | ⟨_, _, -, hrest⟩
      · exact not_actionBreaks_define _ _ _ hrest
      · exact not_actionBreaks_pure _ _ hrest
    · exact not_actionBreaks_pure _ _ hrest
  cases hwritten : written.expression with
  | none =>
    refine iff_of_false ?_ ?_
    · intro hrest
      rcases actionBreaks_bind.mp hrest with hrest | ⟨value, s', -, hrest⟩
      · exact not_actionBreaks_pure _ _ hrest
      · exact hafterValue value s' hrest
    · rintro ⟨tokens, htokens, -⟩
      cases htokens
  | some tokens =>
    refine actionBreaks_bind.trans ((or_iff_left ?_).trans ?_)
    · rintro ⟨value, s', -, hrest⟩
      exact hafterValue value s' hrest
    · refine (hexpression tokens (h tokens hwritten)).trans ?_
      refine ⟨fun hun => ⟨tokens, rfl, hun⟩, ?_⟩
      rintro ⟨_, ⟨⟩, hun⟩
      exact hun

/-- One round: the value of the constant at the cursor breaks, or reading those that follow it
does. -/
theorem breaks_enumerators_succ {enum : String} {bound : Nat} {previous : Option Value} {c : Cursor}
    {s : Session} :
    Breaks (enumerators enum (bound + 1) previous) c s ↔
      ∃ written c₁, writtenEnumerator enum c = .ok (some written, c₁) ∧
        (ActionBreaks (enumeratorValue previous written) s ∨
          ∃ value s₁, (enumeratorValue previous written).run s = (.ok value, s₁) ∧
            written.isLast = false ∧ Breaks (enumerators enum bound (some value)) c₁ s₁) := by
  rw [enumerators, breaks_read_bind (proceeds_writtenEnumerator enum)]
  constructor
  · rintro ⟨written?, c₁, hread, h⟩
    cases written? with
    | none => exact (not_breaks_pure _ _ _ h).elim
    | some written =>
      refine ⟨written, c₁, hread, ?_⟩
      rcases breaks_bind.mp h with hfirst | ⟨value, _, s₁, hexec, hafter⟩
      · exact .inl (breaks_lift.mp hfirst)
      · obtain ⟨hrun, rfl⟩ := exec_lift_ok.mp hexec
        split at hafter
        · exact (not_breaks_pure _ _ _ hafter).elim
        · rename_i hlast
          rcases breaks_bind.mp hafter with hrest | ⟨rest, _, _, -, hrest⟩
          · exact .inr ⟨value, s₁, hrun, Bool.eq_false_iff.mpr hlast, hrest⟩
          · exact (not_breaks_pure _ _ _ hrest).elim
  · rintro ⟨written, c₁, hread, hfirst | ⟨value, s₁, hrun, hlast, hrest⟩⟩
    · exact ⟨some written, c₁, hread, breaks_bind.mpr (.inl (breaks_lift.mpr hfirst))⟩
    · refine ⟨some written, c₁, hread, breaks_bind.mpr (.inr ?_)⟩
      refine ⟨value, c₁, s₁, exec_lift_ok.mpr ⟨hrun, rfl⟩, ?_⟩
      rw [hlast]
      exact breaks_bind.mpr (.inl hrest)

/-- A value is asked for by the constant at the cursor or by those that follow it. -/
theorem askedInEnumeration_iff {enum : String} {previous : Option Value} {c : Cursor} {s : Session}
    {q : Question} :
    AskedInEnumeration enum c previous s q ↔
      ∃ written c₁, writtenEnumerator enum c = .ok (some written, c₁) ∧
        ((∃ tokens, written.expression = some tokens ∧ q = .value s.symbols tokens) ∨
          ∃ value s₁, (enumeratorValue previous written).run s = (.ok value, s₁) ∧
            written.isLast = false ∧ AskedInEnumeration enum c₁ (some value) s₁ q) := by
  constructor
  · rintro ⟨c₂, previous₂, s₂, written, c₃, tokens, hreached, hread, hasked⟩
    cases hreached with
    | here => exact ⟨written, c₃, hread, .inl ⟨tokens, hasked⟩⟩
    | next hfirst hvalue hlast hrest =>
      refine ⟨_, _, hfirst, .inr ⟨_, _, hvalue, hlast, ?_⟩⟩
      exact ⟨c₂, previous₂, s₂, written, c₃, tokens, hrest, hread, hasked⟩
  · rintro ⟨written, c₁, hread, ⟨tokens, hasked⟩ | ⟨value, s₁, hvalue, hlast, hrest⟩⟩
    · exact ⟨c, previous, s, written, c₁, tokens, .here, hread, hasked⟩
    · obtain ⟨c₂, previous₂, s₂, last, c₃, tokens, hreached, hasked⟩ := hrest
      exact ⟨c₂, previous₂, s₂, last, c₃, tokens, hreached.next hread hvalue hlast, hasked⟩

/-- Reading constants breaks if a value is asked for that breaks. -/
theorem breaks_enumerators {enum : String} {bound : Nat} {previous : Option Value} {c : Cursor}
    {s : Session} (hpieces : ∀ t ∈ c.ahead, IsPiece t) (heof : c.eof.kind = .eof)
    (hbound : c.ahead.length < bound) :
    Breaks (enumerators enum bound previous) c s ↔
      ∃ q, AskedInEnumeration enum c previous s q ∧ q.IsRefused := by
  induction bound generalizing c previous s with
  | zero => exact absurd hbound (Nat.not_lt_zero _)
  | succ bound ih =>
    rw [breaks_enumerators_succ]
    -- after a constant the claim holds of the constants that follow it
    have hnext {written : WrittenEnumerator} {c₁ : Cursor} (value : Value) (s₁ : Session)
        (hread : writtenEnumerator enum c = .ok (some written, c₁)) :
        Breaks (enumerators enum bound (some value)) c₁ s₁ ↔
          ∃ q, AskedInEnumeration enum c₁ (some value) s₁ q ∧ q.IsRefused := by
      have hforward := forward_writtenEnumerator enum c _ c₁ hread
      have hlength := (writtenEnumerator_ok hread heof).1
      exact ih (fun t ht => hpieces t (hforward.mem_ahead ht)) (hforward.2.1.symm ▸ heof) (by omega)
    have hvalue {written : WrittenEnumerator} {c₁ : Cursor}
        (hread : writtenEnumerator enum c = .ok (some written, c₁)) :
        ActionBreaks (enumeratorValue previous written) s ↔
          ∃ tokens ∈ written.expression, Unconvertible s.symbols tokens :=
      breaks_enumeratorValue fun tokens htokens t ht =>
        hpieces t ((writtenEnumerator_ok hread heof).2 tokens htokens t ht)
    constructor
    · rintro ⟨written, c₁, hread, hbreaks | ⟨value, s₁, hrun, hlast, hrest⟩⟩
      · obtain ⟨tokens, hexpression, hun⟩ := (hvalue hread).mp hbreaks
        refine ⟨.value s.symbols tokens, askedInEnumeration_iff.mpr ?_, hun⟩
        exact ⟨written, c₁, hread, .inl ⟨tokens, hexpression, rfl⟩⟩
      · obtain ⟨q, hasked, hrefused⟩ := (hnext value s₁ hread).mp hrest
        refine ⟨q, askedInEnumeration_iff.mpr ?_, hrefused⟩
        exact ⟨written, c₁, hread, .inr ⟨value, s₁, hrun, hlast, hasked⟩⟩
    · rintro ⟨q, hasked, hrefused⟩
      obtain ⟨written, c₁, hread, ⟨tokens, hexpression, rfl⟩ | ⟨value, s₁, hrun, hlast, hasked⟩⟩ :=
        askedInEnumeration_iff.mp hasked
      · exact ⟨written, c₁, hread, .inl ((hvalue hread).mpr ⟨tokens, hexpression, hrefused⟩)⟩
      · have hrest := (hnext value s₁ hread).mpr ⟨q, hasked, hrefused⟩
        exact ⟨written, c₁, hread, .inr ⟨value, s₁, hrun, hlast, hrest⟩⟩

/-- Reading constants moves forward. -/
theorem isForward_enumerators (enum : String) (bound : Nat) (previous : Option Value) :
    IsForward (enumerators enum bound previous) := by
  induction bound generalizing previous with
  | zero => exact .pure []
  | succ bound ih =>
    rw [enumerators]
    refine (IsForward.read (forward_writtenEnumerator enum)).bind fun written? => ?_
    cases written? with
    | none => exact .pure []
    | some written =>
      refine (IsForward.lift _).bind fun value => .ite (.pure _) ?_
      exact (ih (some value)).bind fun rest => .pure _

/-! ## Declarations -/

/-- An enumeration or a struct with a body is declared behind the word `typedef`: the word for its kind,
its tag, or its opening brace, and the cursor behind that brace. -/
def OpensTypedef (word : String) (c : Cursor) (tag : Token) (c' : Cursor) : Prop :=
  ∃ kind c₁, Reader.next c = .ok (kind, c₁) ∧ kind.text = word ∧ openBody c₁ = .ok (some tag, c')

omit [Host] in
/-- An opened body is ahead of the declaration. -/
theorem OpensTypedef.isBefore {word : String} {c c' : Cursor} {tag : Token}
    (h : OpensTypedef word c tag c') : c.IsBefore c' := by
  obtain ⟨kind, c₁, hkind, -, hopen⟩ := h
  exact (Forward.next c kind c₁ hkind).trans (forward_openBody c₁ _ c' hopen)

/-- What the messages about an enumeration call it. -/
def enumerationName (tag : Token) : String :=
  if tag.text = "\x7b" then "" else tag.text

/-- What follows the constants of an enumeration is plain. -/
theorem isPlain_enumerationEnd {α : Type} (f : Token → α) :
    IsPlain (do
      let name ← read (Reader.expectKind .ident "enum name")
      let _ ← read (Reader.expect ";" ("end of enum " ++ name.text))
      pure (f name)) := by
  refine (IsPlain.read (.expectKind .ident _)).bind fun name => ?_
  exact (IsPlain.read (.expect ";" _)).bind fun _ => .pure _

/-- Reading an enumeration after its opening brace moves forward. -/
theorem isForward_enumeration (tag : String) : IsForward (enumeration tag) := by
  refine (IsForward.read .ahead).bind fun bound => ?_
  refine (isForward_enumerators _ _ _).bind fun list => ?_
  exact (isPlain_enumerationEnd _).forward

/-- Reading an enumeration after its opening brace breaks if one of its constants does. -/
theorem breaks_enumeration {tag : String} {c : Cursor} {s : Session}
    (hpieces : ∀ t ∈ c.ahead, IsPiece t) (heof : c.eof.kind = .eof) :
    Breaks (enumeration tag) c s ↔
      ∃ q, AskedInEnumeration tag c none s q ∧ q.IsRefused := by
  rw [← breaks_enumerators hpieces heof (Nat.lt_succ_self _), enumeration, breaks_read_bind .ahead]
  constructor
  · rintro ⟨bound, c', hahead, h⟩
    cases hahead
    exact (breaks_bind_plain fun _ => isPlain_enumerationEnd _).mp h
  · exact fun h => ⟨_, c, rfl, (breaks_bind_plain fun _ => isPlain_enumerationEnd _).mpr h⟩

/-- Reading an enumeration moves forward. -/
theorem isForward_typedefEnum (draft : Draft) : IsForward (typedefEnum draft) := by
  refine (IsForward.read forward_openBody).bind fun tag => ?_
  cases tag with
  | none => exact .pure draft
  | some tag => exact (isForward_enumeration _).bind fun enum => .pure _

/-- Reading an enumeration breaks if one of its constants does. -/
theorem breaks_typedefEnum (draft : Draft) {c : Cursor} (s : Session)
    (hpieces : ∀ t ∈ c.ahead, IsPiece t) (heof : c.eof.kind = .eof) :
    Breaks (typedefEnum draft) c s ↔
      ∃ tag c₁, openBody c = .ok (some tag, c₁) ∧
        ∃ q, AskedInEnumeration (enumerationName tag) c₁ none s q ∧ q.IsRefused := by
  have hbody {tag : Token} {c₁ : Cursor} (hopen : openBody c = .ok (some tag, c₁)) :
      Breaks (enumeration (enumerationName tag)) c₁ s ↔
        ∃ q, AskedInEnumeration (enumerationName tag) c₁ none s q ∧ q.IsRefused := by
    have hforward := forward_openBody c _ c₁ hopen
    exact breaks_enumeration (fun t ht => hpieces t (hforward.mem_ahead ht))
      (hforward.2.1.symm ▸ heof)
  rw [typedefEnum, breaks_read_bind proceeds_openBody]
  constructor
  · rintro ⟨tag?, c₁, hopen, h⟩
    cases tag? with
    | none => exact (not_breaks_pure _ _ _ h).elim
    | some tag => exact ⟨tag, c₁, hopen, (hbody hopen).mp ((breaks_bind_plain fun _ => .pure _).mp h)⟩
  · rintro ⟨tag, c₁, hopen, h⟩
    exact ⟨some tag, c₁, hopen, (breaks_bind_plain fun _ => .pure _).mpr ((hbody hopen).mpr h)⟩

/-- A type declaration that is neither an enumeration nor a struct is plain. -/
theorem isPlain_typedef (draft : Draft) (kind : Token) :
    IsPlain (if kind.text = "interface" then pure draft
      else do
        let name ← read Reader.next
        if kind.text = "UINT" then pure (draft.addAlias name.text uint32Expr)
        else if kind.kind = .ident ∧ name.kind = .ident then do
          let token ← read Reader.peek
          if token.text = ";" then pure (draft.addAlias name.text kind.text) else pure draft
        else pure draft) := by
  refine .ite (.pure draft) ?_
  refine (IsPlain.read .next).bind fun name => .ite (.pure _) (.ite ?_ (.pure draft))
  exact (IsPlain.read .peek).bind fun token => .ite (.pure _) (.pure draft)

/-- Reading a type declaration moves forward. -/
theorem isForward_typedef (draft : Draft) : IsForward (typedef draft) :=
  (IsForward.read .next).bind fun kind => .ite (isForward_typedefEnum draft)
    (.ite (isForward_typedefStruct draft) (isPlain_typedef draft kind).forward)

/-- Reading a type declaration breaks if it is an enumeration or a struct that does. -/
theorem breaks_typedef {draft : Draft} {c : Cursor} {s : Session}
    (hpieces : ∀ t ∈ c.ahead, IsPiece t) (heof : c.eof.kind = .eof) :
    Breaks (typedef draft) c s ↔
      (∃ tag c₁, OpensTypedef "enum" c tag c₁ ∧
        ∃ q, AskedInEnumeration (enumerationName tag) c₁ none s q ∧ q.IsRefused) ∨
      ∃ tag c₁, OpensTypedef "struct" c tag c₁ ∧
        Breaks (read (fields s.symbols .members)) c₁ s := by
  have henum {kind : Token} {c₁ : Cursor} (hkind : Reader.next c = .ok (kind, c₁)) :=
    have hforward : c.IsBefore c₁ := Forward.next c kind c₁ hkind
    breaks_typedefEnum draft s (fun t ht => hpieces t (hforward.mem_ahead ht))
      (hforward.2.1.symm ▸ heof)
  rw [typedef, breaks_read_bind .next]
  constructor
  · rintro ⟨kind, c₁, hkind, h⟩
    by_cases hword : kind.text = "enum"
    · rw [if_pos hword] at h
      obtain ⟨tag, c₂, hopen, hasked⟩ := (henum hkind).mp h
      exact .inl ⟨tag, c₂, ⟨kind, c₁, hkind, hword, hopen⟩, hasked⟩
    rw [if_neg hword] at h
    by_cases hword : kind.text = "struct"
    · rw [if_pos hword] at h
      obtain ⟨tag, c₂, hopen, hlist⟩ := breaks_typedefStruct.mp h
      exact .inr ⟨tag, c₂, ⟨kind, c₁, hkind, hword, hopen⟩, hlist⟩
    · rw [if_neg hword] at h
      exact ((isPlain_typedef draft kind).unbroken c₁ s h).elim
  · rintro (⟨tag, c₂, ⟨kind, c₁, hkind, hword, hopen⟩, hasked⟩ |
      ⟨tag, c₂, ⟨kind, c₁, hkind, hword, hopen⟩, hlist⟩)
    · refine ⟨kind, c₁, hkind, ?_⟩
      rw [if_pos hword]
      exact (henum hkind).mpr ⟨tag, c₂, hopen, hasked⟩
    · refine ⟨kind, c₁, hkind, ?_⟩
      rw [if_neg (by rw [hword]; decide), if_pos hword]
      exact breaks_typedefStruct.mpr ⟨tag, c₂, hopen, hlist⟩

/-- A directive moves forward. -/
theorem isForward_directive (draft : Draft) : IsForward (directive draft) := by
  refine (IsForward.read .nextInLine).bind fun word => .ite (.pure draft) (.ite ?_ ?_)
  · exact (IsForward.read .readLine).bind fun _ => .pure draft
  · refine (IsForward.read .nextInLine).bind fun name => ?_
    extract_lets header afterName
    have hafterName (u : Unit) : IsForward (afterName u) := by
      refine (IsForward.read .readLine).bind fun body => .ite ?_ ?_
      · exact (IsForward.lift _).bind fun _ => .pure draft
      · refine (IsForward.lift _).bind fun table => (IsForward.lift _).bind fun value => ?_
        cases value with
        | none => exact .pure draft
        | some v => exact (IsForward.lift _).bind fun _ => .pure _
    exact .ite ((IsForward.read (.fail _ _ _)).bind hafterName) (hafterName ())

/-- A declaration moves forward. -/
theorem isForward_declaration (draft : Draft) (keyword : Token) :
    IsForward (declaration draft keyword) := by
  unfold declaration
  split
  · exact isForward_directive draft
  · exact (isPlain_interfaceGuid draft).forward
  · exact isForward_typedef draft
  · exact isForward_function draft
  · exact isForward_interface draft
  · exact .pure draft

/-- What is asked for in the declaration that a word starts. -/
inductive AskedInDeclaration (keyword : Token) (c : Cursor) (s : Session) : Question → Prop where
  /-- The value of the body of a macro. -/
  | body {name : Token} {body : List Token} (hkeyword : keyword.text = "#")
      (hdefines : Defines c name body) : AskedInDeclaration keyword c s (.value s.symbols body)
  /-- The value of the expression of a constant of an enumeration. -/
  | expression {tag : Token} {c₁ : Cursor} {q : Question} (hkeyword : keyword.text = "typedef")
      (hopens : OpensTypedef "enum" c tag c₁)
      (hasked : AskedInEnumeration (enumerationName tag) c₁ none s q) :
      AskedInDeclaration keyword c s q
  /-- The members of a struct. -/
  | members {tag : Token} {c₁ : Cursor} (hkeyword : keyword.text = "typedef")
      (hopens : OpensTypedef "struct" c tag c₁) :
      AskedInDeclaration keyword c s (.list s.symbols .members c₁)
  /-- The parameters of an exported function. -/
  | parameters {c₁ : Cursor} (hkeyword : keyword.text = "HRESULT") (hopens : OpensParameters c c₁) :
      AskedInDeclaration keyword c s (.list s.symbols .parameters c₁)
  /-- The members of an interface. -/
  | interface {c₁ : Cursor} (hkeyword : keyword.text = "interface") (hopens : OpensInterface c c₁) :
      AskedInDeclaration keyword c s (.list s.symbols .members c₁)

/-- What is asked for starts with one of the words that ask. -/
theorem AskedInDeclaration.keyword_mem {keyword : Token} {c : Cursor} {s : Session} {q : Question}
    (h : AskedInDeclaration keyword c s q) :
    keyword.text ∈ ["#", "typedef", "HRESULT", "interface"] := by
  cases h with
  | body hkeyword | expression hkeyword | members hkeyword | parameters hkeyword
  | interface hkeyword => simp [hkeyword]

/-- A declaration breaks if it asks for something that is refused. -/
theorem breaks_declaration (draft : Draft) (keyword : Token) {c : Cursor} (s : Session)
    (hpieces : ∀ t ∈ c.ahead, IsPiece t) (heof : c.eof.kind = .eof) :
    Breaks (declaration draft keyword) c s ↔
      ∃ q, AskedInDeclaration keyword c s q ∧ q.IsRefused := by
  have hlist {brackets : Brackets} {c₁ : Cursor} (hforward : c.IsBefore c₁) :
      Breaks (read (fields s.symbols brackets)) c₁ s ↔
        (Question.list s.symbols brackets c₁).IsRefused :=
    breaks_fields (fun t ht => hpieces t (hforward.mem_ahead ht)) (hforward.2.1.symm ▸ heof)
  have hplain {m : Statement Draft} (hm : IsPlain m)
      (hkeyword : keyword.text ∉ ["#", "typedef", "HRESULT", "interface"]) :
      Breaks m c s ↔ ∃ q, AskedInDeclaration keyword c s q ∧ q.IsRefused := by
    refine iff_of_false (hm.unbroken c s) ?_
    rintro ⟨q, hasked, -⟩
    exact hkeyword hasked.keyword_mem
  unfold declaration
  split
  · rename_i hkeyword
    refine (breaks_directive hpieces).trans ⟨?_, ?_⟩
    · rintro ⟨name, body, hdefines, hun⟩
      exact ⟨_, .body hkeyword hdefines, hun⟩
    · rintro ⟨q, hasked, hrefused⟩
      cases hasked with
      | body _ hdefines => exact ⟨_, _, hdefines, hrefused⟩
      | expression h | members h | parameters h | interface h =>
        exact absurd (hkeyword.symm.trans h) (by decide)
  · rename_i hkeyword
    exact hplain (isPlain_interfaceGuid draft) (by rw [hkeyword]; decide)
  · rename_i hkeyword
    refine (breaks_typedef hpieces heof).trans ⟨?_, ?_⟩
    · rintro (⟨tag, c₁, hopens, q, hasked, hrefused⟩ | ⟨tag, c₁, hopens, h⟩)
      · exact ⟨q, .expression hkeyword hopens hasked, hrefused⟩
      · exact ⟨_, .members hkeyword hopens, (hlist hopens.isBefore).mp h⟩
    · rintro ⟨q, hasked, hrefused⟩
      cases hasked with
      | expression _ hopens hasked => exact .inl ⟨_, _, hopens, q, hasked, hrefused⟩
      | members _ hopens => exact .inr ⟨_, _, hopens, (hlist hopens.isBefore).mpr hrefused⟩
      | body h | parameters h | interface h => exact absurd (hkeyword.symm.trans h) (by decide)
  · rename_i hkeyword
    refine breaks_function.trans ⟨?_, ?_⟩
    · rintro ⟨c₁, hopens, h⟩
      exact ⟨_, .parameters hkeyword hopens, (hlist hopens.isBefore).mp h⟩
    · rintro ⟨q, hasked, hrefused⟩
      cases hasked with
      | parameters _ hopens => exact ⟨_, hopens, (hlist hopens.isBefore).mpr hrefused⟩
      | body h | expression h | members h | interface h =>
        exact absurd (hkeyword.symm.trans h) (by decide)
  · rename_i hkeyword
    refine breaks_interface.trans ⟨?_, ?_⟩
    · rintro ⟨c₁, hopens, h⟩
      exact ⟨_, .interface hkeyword hopens, (hlist hopens.isBefore).mp h⟩
    · rintro ⟨q, hasked, hrefused⟩
      cases hasked with
      | interface _ hopens => exact ⟨_, hopens, (hlist hopens.isBefore).mpr hrefused⟩
      | body h | expression h | members h | parameters h =>
        exact absurd (hkeyword.symm.trans h) (by decide)
  · rename_i hdirective _ htypedef hfunction hinterface
    refine hplain (.pure draft) ?_
    simp only [List.mem_cons, List.not_mem_nil, or_false, not_or]
    exact ⟨hdirective, htypedef, hfunction, hinterface⟩

/-! ## Whole headers -/

/-- A word at the cursor starts a declaration or is passed over; `c'` is the cursor behind it. -/
def StartsWord (c : Cursor) (keyword : Token) (c' : Cursor) : Prop :=
  ∃ token c₁, Reader.peek c = .ok (token, c₁) ∧ token.kind ≠ .eof ∧
    Reader.next c₁ = .ok (keyword, c')

/-- Declarations are read from one place to another.  A place is a cursor, the header so far and the
session. -/
inductive Reached : Cursor → Draft → Session → Cursor → Draft → Session → Prop where
  /-- Nothing is read. -/
  | here {c : Cursor} {draft : Draft} {s : Session} : Reached c draft s c draft s
  /-- A declaration is read, and then others. -/
  | next {c c₁ c₂ c₃ : Cursor} {draft draft₁ draft₂ : Draft} {s s₁ s₂ : Session} {keyword : Token}
      (hstarts : StartsWord c keyword c₁)
      (hread : (declaration draft keyword).exec c₁ s = (.ok (draft₁, c₂), s₁))
      (hrest : Reached c₂ draft₁ s₁ c₃ draft₂ s₂) : Reached c draft s c₃ draft₂ s₂

/-- What is asked for while declarations are read. -/
def AskedInDeclarations (c : Cursor) (draft : Draft) (s : Session) (q : Question) : Prop :=
  ∃ c₁ draft₁ s₁ keyword c₂, Reached c draft s c₁ draft₁ s₁ ∧ StartsWord c₁ keyword c₂ ∧
    AskedInDeclaration keyword c₂ s₁ q

omit [Host] in
/-- A word is passed. -/
theorem StartsWord.isBefore {c c' : Cursor} {keyword : Token} (h : StartsWord c keyword c') :
    c.IsBefore c' := by
  obtain ⟨token, c₁, hpeek, -, hnext⟩ := h
  exact (Forward.peek c token c₁ hpeek).trans (Forward.next c₁ keyword c' hnext)

omit [Host] in
/-- Behind a word fewer tokens are ahead. -/
theorem StartsWord.length_lt {c c' : Cursor} {keyword : Token} (h : StartsWord c keyword c')
    (heof : c.eof.kind = .eof) : c'.ahead.length < c.ahead.length := by
  obtain ⟨token, c₁, hpeek, hcode, hnext⟩ := h
  have hfirst : c.IsBefore c₁ := Forward.peek c token c₁ hpeek
  have hne : c₁.ahead ≠ [] := by
    intro hnil
    cases hpeek
    refine hcode ?_
    rw [Cursor.current, hnil]
    exact hfirst.2.1.symm ▸ heof
  have hsecond := Cursor.length_next_lt hne .code
  rw [Except.ok.inj hnext] at hsecond
  exact Nat.lt_of_lt_of_le hsecond hfirst.length_le

/-- One round: the declaration at the cursor breaks, or reading those that follow it does. -/
theorem breaks_declarations_succ {bound : Nat} {draft : Draft} {c : Cursor} {s : Session} :
    Breaks (declarations (bound + 1) draft) c s ↔
      ∃ keyword c₁, StartsWord c keyword c₁ ∧
        (Breaks (declaration draft keyword) c₁ s ∨
          ∃ draft₁ c₂ s₁, (declaration draft keyword).exec c₁ s = (.ok (draft₁, c₂), s₁) ∧
            Breaks (declarations bound draft₁) c₂ s₁) := by
  rw [declarations, breaks_read_bind .peek]
  constructor
  · rintro ⟨token, c₀, hpeek, h⟩
    by_cases hcode : token.kind = .eof
    · rw [if_pos hcode] at h
      exact (not_breaks_pure _ _ _ h).elim
    · rw [if_neg hcode] at h
      obtain ⟨keyword, c₁, hkeyword, h⟩ := (breaks_read_bind .next).mp h
      exact ⟨keyword, c₁, ⟨token, c₀, hpeek, hcode, hkeyword⟩, breaks_bind.mp h⟩
  · rintro ⟨keyword, c₁, ⟨token, c₀, hpeek, hcode, hkeyword⟩, h⟩
    refine ⟨token, c₀, hpeek, ?_⟩
    rw [if_neg hcode]
    exact (breaks_read_bind .next).mpr ⟨keyword, c₁, hkeyword, breaks_bind.mpr h⟩

/-- Something is asked for in the declaration at the cursor or in those that follow it. -/
theorem askedInDeclarations_iff {draft : Draft} {c : Cursor} {s : Session} {q : Question} :
    AskedInDeclarations c draft s q ↔
      ∃ keyword c₁, StartsWord c keyword c₁ ∧
        (AskedInDeclaration keyword c₁ s q ∨
          ∃ draft₁ c₂ s₁, (declaration draft keyword).exec c₁ s = (.ok (draft₁, c₂), s₁) ∧
            AskedInDeclarations c₂ draft₁ s₁ q) := by
  constructor
  · rintro ⟨c₃, draft₃, s₃, keyword, c₄, hreached, hstarts, hasked⟩
    cases hreached with
    | here => exact ⟨keyword, c₄, hstarts, .inl hasked⟩
    | next hfirst hread hrest =>
      exact ⟨_, _, hfirst, .inr ⟨_, _, _, hread, c₃, draft₃, s₃, keyword, c₄, hrest, hstarts, hasked⟩⟩
  · rintro ⟨keyword, c₁, hstarts, hasked | ⟨draft₁, c₂, s₁, hread, hrest⟩⟩
    · exact ⟨c, draft, s, keyword, c₁, .here, hstarts, hasked⟩
    · obtain ⟨c₃, draft₃, s₃, last, c₄, hreached, hasked⟩ := hrest
      exact ⟨c₃, draft₃, s₃, last, c₄, hreached.next hstarts hread, hasked⟩

/-- Reading declarations breaks if something is asked for that is refused. -/
theorem breaks_declarations {bound : Nat} (draft : Draft) {c : Cursor} (s : Session)
    (hpieces : ∀ t ∈ c.ahead, IsPiece t) (heof : c.eof.kind = .eof)
    (hbound : c.ahead.length < bound) :
    Breaks (declarations bound draft) c s ↔
      ∃ q, AskedInDeclarations c draft s q ∧ q.IsRefused := by
  induction bound generalizing draft c s with
  | zero => exact absurd hbound (Nat.not_lt_zero _)
  | succ bound ih =>
    rw [breaks_declarations_succ]
    have hfirst {keyword : Token} {c₁ : Cursor} (hstarts : StartsWord c keyword c₁) :=
      breaks_declaration draft keyword s
        (fun t ht => hpieces t (hstarts.isBefore.mem_ahead ht)) (hstarts.isBefore.2.1.symm ▸ heof)
    -- behind a declaration the claim holds of those that follow it
    have hnext {keyword : Token} {c₁ c₂ : Cursor} {draft₁ : Draft} {s₁ : Session}
        (hstarts : StartsWord c keyword c₁)
        (hread : (declaration draft keyword).exec c₁ s = (.ok (draft₁, c₂), s₁)) :
        Breaks (declarations bound draft₁) c₂ s₁ ↔
          ∃ q, AskedInDeclarations c₂ draft₁ s₁ q ∧ q.IsRefused := by
      have hafter := isForward_declaration draft keyword c₁ s _ c₂ s₁ hread
      have hforward := hstarts.isBefore.trans hafter
      have hlength := hstarts.length_lt heof
      have hlength' := hafter.length_le
      exact ih draft₁ s₁ (fun t ht => hpieces t (hforward.mem_ahead ht))
        (hforward.2.1.symm ▸ heof) (by omega)
    constructor
    · rintro ⟨keyword, c₁, hstarts, hbreaks | ⟨draft₁, c₂, s₁, hread, hrest⟩⟩
      · obtain ⟨q, hasked, hrefused⟩ := (hfirst hstarts).mp hbreaks
        refine ⟨q, askedInDeclarations_iff.mpr ?_, hrefused⟩
        exact ⟨keyword, c₁, hstarts, .inl hasked⟩
      · obtain ⟨q, hasked, hrefused⟩ := (hnext hstarts hread).mp hrest
        refine ⟨q, askedInDeclarations_iff.mpr ?_, hrefused⟩
        exact ⟨keyword, c₁, hstarts, .inr ⟨draft₁, c₂, s₁, hread, hasked⟩⟩
    · rintro ⟨q, hasked, hrefused⟩
      obtain ⟨keyword, c₁, hstarts, hasked | ⟨draft₁, c₂, s₁, hread, hasked⟩⟩ :=
        askedInDeclarations_iff.mp hasked
      · exact ⟨keyword, c₁, hstarts, .inl ((hfirst hstarts).mpr ⟨q, hasked, hrefused⟩)⟩
      · have hrest := (hnext hstarts hread).mpr ⟨q, hasked, hrefused⟩
        exact ⟨keyword, c₁, hstarts, .inr ⟨draft₁, c₂, s₁, hread, hrest⟩⟩

/-- What is asked for while a header is read. -/
def Asked (file source : String) (session : Session) (q : Question) : Prop :=
  ∃ lexed c, (Lexer.lex file source).tokens? = .ok lexed ∧ Cursor.ofTokens? file lexed = some c ∧
    AskedInDeclarations c ⟨.empty c.file, [], []⟩ session q

omit [Host] in
/-- A cursor over the tokens of a header has pieces ahead of it, up to the end of the header. -/
theorem pieces_of_ofTokens? {file source : String} {lexed : List Token} {c : Cursor}
    (hlexed : (Lexer.lex file source).tokens? = .ok lexed)
    (hcursor : Cursor.ofTokens? file lexed = some c) :
    (∀ t ∈ c.ahead, IsPiece t) ∧ c.eof.kind = .eof := by
  unfold Lexer.Lexed.tokens? at hlexed
  split at hlexed
  · cases hlexed
  rename_i hfailure
  cases hlexed
  obtain ⟨pieces, eof, htokens, heof, hpieces⟩ := Lexer.tokens_eq_pieces hfailure
  unfold Cursor.ofTokens? at hcursor
  rw [Lexer.lex, htokens, List.getLast?_concat, List.dropLast_concat] at hcursor
  dsimp only at hcursor
  rw [if_pos heof] at hcursor
  cases hcursor
  exact ⟨hpieces, heof⟩

omit [Host] in
/-- Dealing with interfaces whose identifier belongs to nothing does not break. -/
theorem not_actionBreaks_checkGuids (strict : Bool) (draft : Draft) (s : Session) :
    ¬ ActionBreaks (checkGuids strict draft) s := by
  unfold checkGuids
  split
  · exact not_actionBreaks_pure _ s
  · split
    · rintro ⟨f, s', heq, hf⟩
      cases heq
      exact hf trivial
    · rintro ⟨f, s', heq, -⟩
      cases heq

/-- Reading the tokens of a header breaks if reading its declarations does. -/
theorem breaks_headerOfCursor {strict : Bool} {c : Cursor} {s : Session} :
    ActionBreaks (headerOfCursor strict c) s ↔
      Breaks (declarations (c.ahead.length + 1) ⟨.empty c.file, [], []⟩) c s := by
  refine actionBreaks_bind.trans (or_iff_left ?_)
  rintro ⟨⟨draft, c'⟩, s', -, h⟩
  rcases actionBreaks_bind.mp h with h | ⟨_, s'', -, h⟩
  · exact not_actionBreaks_checkGuids strict draft s' h
  · rcases actionBreaks_bind.mp h with ⟨f, _, heq, -⟩ | ⟨_, _, -, h⟩
    · cases heq
    · exact not_actionBreaks_pure _ _ h

/-- **Unreported failures.**  On every host, reading a header ends with a failure that is not reported
exactly if something is asked for that is refused: a value that is unconvertible, or a list of fields
with an array length that the host does not read. -/
theorem readHeader_unreported_iff (strict : Bool) (file source : String) (session : Session) :
    (∃ f, (readHeader strict file source session).1 = .error f ∧ ¬ f.IsReported) ↔
      ∃ q, Asked file source session q ∧ q.IsRefused := by
  have hbreaks : (∃ f, (readHeader strict file source session).1 = .error f ∧ ¬ f.IsReported) ↔
      ActionBreaks (header strict file source) session := by
    refine exists_congr fun f => ⟨?_, ?_⟩
    · rintro ⟨h, hf⟩
      exact ⟨_, Prod.ext h rfl, hf⟩
    · rintro ⟨s', h, hf⟩
      exact ⟨congrArg Prod.fst h, hf⟩
  rw [hbreaks, header]
  cases hlexed : (Lexer.lex file source).tokens? with
  | error e =>
    refine iff_of_false ?_ ?_
    · rintro ⟨f, s', h, hf⟩
      cases h
      exact hf trivial
    · rintro ⟨_, ⟨lexed, c, h, -⟩, -⟩
      cases hlexed.symm.trans h
  | ok lexed =>
    dsimp only
    cases hcursor : Cursor.ofTokens? file lexed with
    | none =>
      refine iff_of_false (not_actionBreaks_pure _ session) ?_
      rintro ⟨_, ⟨lexed', c, h, hc, -⟩, -⟩
      cases hlexed.symm.trans h
      cases hcursor.symm.trans hc
    | some c =>
      obtain ⟨hpieces, heof⟩ := pieces_of_ofTokens? hlexed hcursor
      dsimp only
      rw [breaks_headerOfCursor, breaks_declarations _ session hpieces heof (Nat.lt_succ_self _)]
      refine exists_congr fun q => and_congr_left fun _ => ?_
      refine ⟨fun hasked => ⟨lexed, c, hlexed, hcursor, hasked⟩, ?_⟩
      rintro ⟨lexed', c', h, hc, hasked⟩
      cases hlexed.symm.trans h
      cases hcursor.symm.trans hc
      exact hasked

end

/-- A character literal with an escape by number that has no digits. -/
theorem readHeader_bareEscape_unreported :
    ∃ f, (readHeader false "test.h" "#define X '\\x'\n" .start).1 = .error f ∧ ¬ f.IsReported := by
  have hfails : (match (readHeader false "test.h" "#define X '\\x'\n" .start).1 with
      | .error (.constant e) => decide (e.class = .value)
      | _ => false) = true := by
    decide +kernel
  split at hfails
  · rename_i e heq
    exact ⟨_, heq, fun hreported => hreported (.inl (of_decide_eq_true hfails))⟩
  · cases hfails

/-- A host with room for shifts by less than 4096 places refuses a shift by the word of a negative
number. -/
example : (match (@readHeader ⟨none, fun _ count => decide (count < 4096), fun _ => none⟩ false "test.h"
    "#define X 1 << -1\n" .start).1 with
    | .error (.constant e) => decide (e.class = .memory)
    | _ => false) = true := by
  decide +kernel

end SdkBindings.Grammar
