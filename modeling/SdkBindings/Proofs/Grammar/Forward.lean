import SdkBindings.Grammar.Enumerations
import SdkBindings.Grammar.Fields
import SdkBindings.Proofs.Outcome

/-!
# Reading moves forward

A reader that succeeds leaves the cursor further on in the same header: it has passed some of the
tokens that were ahead and nothing else has changed (`Cursor.IsBefore`).  This holds for every
single read and is kept by sequences of reads (`Forward.bind`), so it holds for every construct of
the grammar, the recursive ones by induction on their bound.

What a reader has passed is never seen again, which is why a bound by the number of tokens ahead is
enough for every loop.

A reader that fails does so for a reason of the grammar, unless it comes to the length of an array that
the host does not read.  Which tokens that may be is followed through the grammar together with the
moves (`Proceeds`).
-/

namespace SdkBindings

/-! ## Cursors -/

/-- The second cursor has passed some of the tokens ahead of the first one. -/
def Cursor.IsBefore (c c' : Cursor) : Prop :=
  c'.file = c.file ∧ c'.eof = c.eof ∧
    ∃ read, c'.passed = read.reverse ++ c.passed ∧ c.ahead = read ++ c'.ahead

namespace Cursor

/-- No token has been passed. -/
theorem IsBefore.refl (c : Cursor) : c.IsBefore c :=
  ⟨rfl, rfl, [], rfl, rfl⟩

/-- First some tokens have been passed, then others. -/
theorem IsBefore.trans {c c' c'' : Cursor} (h : c.IsBefore c') (h' : c'.IsBefore c'') :
    c.IsBefore c'' := by
  obtain ⟨hfile, heof, read, hpassed, hahead⟩ := h
  obtain ⟨hfile', heof', read', hpassed', hahead'⟩ := h'
  refine ⟨hfile'.trans hfile, heof'.trans heof, read ++ read', ?_, ?_⟩
  · rw [hpassed', hpassed, List.reverse_append, List.append_assoc]
  · rw [hahead, hahead', List.append_assoc]

/-- What is ahead later was ahead before. -/
theorem IsBefore.mem_ahead {c c' : Cursor} (h : c.IsBefore c') {token : Token}
    (ht : token ∈ c'.ahead) : token ∈ c.ahead := by
  obtain ⟨-, -, read, -, hahead⟩ := h
  rw [hahead]
  exact List.mem_append_right read ht

/-- There are never more tokens ahead than before. -/
theorem IsBefore.length_le {c c' : Cursor} (h : c.IsBefore c') :
    c'.ahead.length ≤ c.ahead.length := by
  obtain ⟨-, -, read, -, hahead⟩ := h
  rw [hahead, List.length_append]
  exact Nat.le_add_left _ _

/-- Passing the first tokens ahead moves forward. -/
theorem isBefore_take (c : Cursor) (n : Nat) :
    c.IsBefore { c with passed := (c.ahead.take n).reverse ++ c.passed, ahead := c.ahead.drop n } :=
  ⟨rfl, rfl, c.ahead.take n, rfl, (List.take_append_drop n c.ahead).symm⟩

/-- A front part is what it takes off the front. -/
theorem take_length_takeWhile (p : Token → Bool) (tokens : List Token) :
    tokens.take (tokens.takeWhile p).length = tokens.takeWhile p :=
  List.prefix_iff_eq_take.mp (List.takeWhile_prefix p) ▸ rfl

/-- Passing the tokens of a class moves forward. -/
theorem isBefore_takeWhile (c : Cursor) (p : Token → Bool) :
    c.IsBefore { c with
      passed := (c.ahead.takeWhile p).reverse ++ c.passed
      ahead := c.ahead.drop (c.ahead.takeWhile p).length } := by
  have h := c.isBefore_take (c.ahead.takeWhile p).length
  rwa [take_length_takeWhile] at h

/-- Passing over line ends moves forward. -/
theorem isBefore_settle (c : Cursor) (mode : Mode) : c.IsBefore (c.settle mode) := by
  cases mode with
  | code => exact c.isBefore_takeWhile Token.isLineEnd
  | line => exact .refl c

/-- Moving past a token moves forward. -/
theorem isBefore_advance (c : Cursor) : c.IsBefore c.advance := by
  unfold advance
  split
  · rename_i token rest hahead
    exact ⟨rfl, rfl, [token], rfl, hahead⟩
  · exact .refl c

/-- A read moves forward. -/
theorem isBefore_next (c : Cursor) (mode : Mode) : c.IsBefore (c.next mode).2 :=
  (c.isBefore_settle mode).trans (isBefore_advance _)

/-- Reading the rest of the line moves forward. -/
theorem isBefore_readLine (c : Cursor) : c.IsBefore c.readLine.2 :=
  (c.isBefore_takeWhile fun token => !token.isLineEnd).trans (isBefore_advance _)

/-- A read returns the end of the header or a token that was ahead, and then fewer are ahead. -/
theorem next_eq_eof_or_length_lt (c : Cursor) (mode : Mode) :
    (c.next mode).1 = c.eof ∨ (c.next mode).2.ahead.length < c.ahead.length := by
  have hlength := (c.isBefore_settle mode).length_le
  have heof := (c.isBefore_settle mode).2.1
  simp only [next, advance, current]
  cases hahead : (c.settle mode).ahead with
  | nil => exact .inl heof
  | cons token rest =>
    rw [hahead, List.length_cons] at hlength
    exact .inr (Nat.lt_of_succ_le hlength)

/-- While tokens are ahead, every read passes at least one. -/
theorem length_next_lt {c : Cursor} (h : c.ahead ≠ []) (mode : Mode) :
    (c.next mode).2.ahead.length < c.ahead.length := by
  have hlength := (c.isBefore_settle mode).length_le
  have hpos := List.length_pos_iff.mpr h
  simp only [next, advance]
  cases hahead : (c.settle mode).ahead with
  | nil =>
    dsimp only
    rwa [hahead]
  | cons token rest =>
    rw [hahead, List.length_cons] at hlength
    exact Nat.lt_of_succ_le hlength

end Cursor

/-! ## Readers -/

namespace Grammar

open Reader

/-- A reader that succeeds went through its first part. -/
theorem reader_bind_ok {α β : Type} {m : Reader α} {k : α → Reader β} {c c'' : Cursor} {b : β}
    (h : (m >>= k) c = .ok (b, c'')) : ∃ a c', m c = .ok (a, c') ∧ k a c' = .ok (b, c'') := by
  obtain ⟨⟨a, c'⟩, ha, hb⟩ := bind_eq_ok (m := m c) h
  exact ⟨a, c', ha, hb⟩

/-- The reader moves forward whenever it succeeds. -/
def Forward {α : Type} (m : Reader α) : Prop :=
  ∀ c a c', m c = .ok (a, c') → c.IsBefore c'

namespace Forward

variable {α β : Type}

/-- Reading nothing moves forward. -/
theorem pure (a : α) : Forward (Pure.pure a : Reader α) := by
  rintro c _ _ ⟨⟩
  exact .refl c

/-- A failure moves nothing. -/
theorem fail (token : Token) (expected context : String) :
    Forward (Reader.fail token expected context : Reader α) := by
  rintro c _ _ ⟨⟩

/-- Two readers in a row move forward. -/
theorem bind {m : Reader α} {k : α → Reader β} (hm : Forward m) (hk : ∀ a, Forward (k a)) :
    Forward (m >>= k) := by
  intro c b c'' h
  obtain ⟨a, c', ha, hb⟩ := reader_bind_ok h
  exact (hm c a c' ha).trans (hk a c' b c'' hb)

/-- A reader that is chosen by a condition moves forward. -/
theorem ite {p : Prop} [Decidable p] {m k : Reader α} (hm : Forward m) (hk : Forward k) :
    Forward (if p then m else k) := by
  split
  · exact hm
  · exact hk

/-- Moving the cursor itself moves forward if it only passes tokens. -/
theorem move {f : Cursor → Cursor} {k : Cursor → Reader β} (hf : ∀ c : Cursor, c.IsBefore (f c))
    (hk : ∀ c, Forward (k c)) : Forward (do let c ← get; set (f c); k c) :=
  fun c b c' h => (hf c).trans (hk c (f c) b c' h)

theorem next : Forward Reader.next := by
  rintro c _ _ ⟨⟩
  exact c.isBefore_next .code

theorem nextInLine : Forward Reader.nextInLine := by
  rintro c _ _ ⟨⟩
  exact c.isBefore_next .line

theorem peek : Forward Reader.peek := by
  rintro c _ _ ⟨⟩
  exact c.isBefore_settle .code

theorem peekSecond : Forward Reader.peekSecond := by
  rintro c _ _ ⟨⟩
  exact .refl c

theorem readLine : Forward Reader.readLine := by
  rintro c _ _ ⟨⟩
  exact c.isBefore_readLine

theorem ahead : Forward Reader.ahead := by
  rintro c _ _ ⟨⟩
  exact .refl c

theorem expect (text context : String) : Forward (Reader.expect text context) :=
  next.bind fun token => ite (pure token) (fail token text context)

theorem expectKind (kind : Token.Kind) (context : String) :
    Forward (Reader.expectKind kind context) :=
  next.bind fun token => ite (pure token) (fail token kind.name context)

end Forward

/-! ## Readers that fail -/

/-- Digits from which the host reads no integer. -/
def IsUnread [Host] (token : Token) : Prop :=
  token.kind = .number ∧ Text.isDigits token.text.toList = true ∧
    Numeral.decimalInteger? token.text.toList = none

/-- The failure is one of the grammar, or one of the tokens is a number that the host does not read. -/
def Failure.Concerns [Host] (tokens : List Token) : Failure → Prop
  | .grammar _ => True
  | .constant e => ∃ token ∈ tokens, IsUnread token ∧ e = .ofDecimalInteger token.text
  | .unresolvedGuid _ _ => False

/-- The tokens that a reader may take for the length of an array. -/
inductive Scope where
  /-- It reads no lengths. -/
  | nothing
  /-- Those in hand, those ahead and the end. -/
  | lengths (held : List Token)

/-- The tokens in the scope of a reader at a cursor. -/
def Scope.tokens (c : Cursor) : Scope → List Token
  | nothing => []
  | lengths held => held ++ (c.ahead ++ [c.eof])

/-- A scope only loses tokens on the way. -/
theorem Scope.tokens_subset {c c' : Cursor} (h : c.IsBefore c') (scope : Scope) :
    scope.tokens c' ⊆ scope.tokens c := by
  cases scope with
  | nothing => exact List.nil_subset _
  | lengths held =>
    intro token htoken
    simp only [tokens, List.mem_append, List.mem_singleton] at htoken ⊢
    rw [h.2.1] at htoken
    exact htoken.imp_right (Or.imp_left h.mem_ahead)

/-- The reader moves forward, and its failures concern the tokens in its scope. -/
structure Proceeds [Host] {α : Type} (scope : Scope) (m : Reader α) : Prop where
  /-- It moves forward. -/
  forward : Forward m
  /-- It fails for a reason of the grammar or at a number in its scope. -/
  concerns : ∀ c f, m c = .error f → f.Concerns (scope.tokens c)

section

variable [Host]

/-- A failure that concerns some tokens concerns them also among others. -/
theorem Failure.Concerns.mono {f : Failure} {tokens more : List Token} (h : f.Concerns tokens)
    (hsub : tokens ⊆ more) : f.Concerns more := by
  cases f with
  | grammar e => trivial
  | constant e =>
    obtain ⟨token, hmem, htoken⟩ := h
    exact ⟨token, hsub hmem, htoken⟩
  | unresolvedGuid file interface => exact h

/-- Where no tokens are concerned the failure is one of the grammar. -/
theorem Failure.Concerns.eq_grammar {f : Failure} (h : f.Concerns []) : ∃ e, f = .grammar e := by
  cases f with
  | grammar e => exact ⟨e, rfl⟩
  | constant e =>
    obtain ⟨token, hmem, -⟩ := h
    cases hmem
  | unresolvedGuid file interface => exact h.elim

namespace Proceeds

variable {α β : Type} {scope : Scope}

/-- A reader that cannot fail proceeds if it moves forward. -/
theorem of_total {f : Cursor → α × Cursor} (h : Forward (fun c => .ok (f c) : Reader α)) :
    Proceeds scope (fun c => .ok (f c) : Reader α) := by
  refine ⟨h, ?_⟩
  rintro c _ ⟨⟩

theorem pure (a : α) : Proceeds scope (Pure.pure a : Reader α) :=
  of_total (.pure a)

theorem fail (token : Token) (expected context : String) :
    Proceeds scope (Reader.fail token expected context : Reader α) := by
  refine ⟨.fail token expected context, ?_⟩
  rintro c _ ⟨⟩
  trivial

/-- Two readers in a row proceed: what the second one fails at was in scope before the first one. -/
theorem bind {m : Reader α} {k : α → Reader β} (hm : Proceeds scope m)
    (hk : ∀ a, Proceeds scope (k a)) : Proceeds scope (m >>= k) := by
  refine ⟨hm.forward.bind fun a => (hk a).forward, fun c f h => ?_⟩
  obtain hfirst | ⟨⟨a, c'⟩, hfirst, h⟩ := bind_eq_error (m := m c) h
  · exact hm.concerns c f hfirst
  · exact ((hk a).concerns c' f h).mono (scope.tokens_subset (hm.forward c a c' hfirst))

/-- A reader that is chosen by a condition proceeds. -/
theorem ite {p : Prop} [Decidable p] {m k : Reader α} (hm : Proceeds scope m)
    (hk : Proceeds scope k) : Proceeds scope (if p then m else k) := by
  split
  · exact hm
  · exact hk

/-- Moving the cursor itself is no failure. -/
theorem move {f : Cursor → Cursor} {k : Cursor → Reader β} (hf : ∀ c : Cursor, c.IsBefore (f c))
    (hk : ∀ c, Proceeds scope (k c)) : Proceeds scope (do let c ← get; set (f c); k c) :=
  ⟨.move hf fun c => (hk c).forward,
    fun c e h => ((hk c).concerns (f c) e h).mono (scope.tokens_subset (hf c))⟩

theorem next : Proceeds scope Reader.next :=
  of_total .next

theorem nextInLine : Proceeds scope Reader.nextInLine :=
  of_total .nextInLine

theorem peek : Proceeds scope Reader.peek :=
  of_total .peek

theorem peekSecond : Proceeds scope Reader.peekSecond :=
  of_total .peekSecond

theorem readLine : Proceeds scope Reader.readLine :=
  of_total .readLine

theorem ahead : Proceeds scope Reader.ahead :=
  of_total .ahead

theorem expect (text context : String) : Proceeds scope (Reader.expect text context) :=
  next.bind fun token => ite (pure token) (fail token text context)

theorem expectKind (kind : Token.Kind) (context : String) :
    Proceeds scope (Reader.expectKind kind context) :=
  next.bind fun token => ite (pure token) (fail token kind.name context)

/-- The token that is read next was ahead, or it is the end. -/
theorem next_bind {held : List Token} {k : Token → Reader α}
    (hk : ∀ token, Proceeds (.lengths (token :: held)) (k token)) :
    Proceeds (.lengths held) (Reader.next >>= k) := by
  refine ⟨Forward.next.bind fun token => (hk token).forward, fun c f h => ?_⟩
  have hbefore := c.isBefore_settle .code
  have hcurrent : (c.next .code).1 ∈ c.ahead ++ [c.eof] := by
    show (c.settle .code).current ∈ c.ahead ++ [c.eof]
    rw [Cursor.current, hbefore.2.1]
    cases hahead : (c.settle .code).ahead with
    | nil => exact List.mem_append_right _ (List.mem_singleton_self _)
    | cons token rest =>
      refine List.mem_append_left _ (hbefore.mem_ahead ?_)
      rw [hahead]
      exact List.mem_cons_self
  refine ((hk _).concerns _ f h).mono fun token htoken => ?_
  have hrest := Scope.tokens_subset (c.isBefore_next .code) (.lengths held)
  rcases List.mem_cons.mp htoken with rfl | htoken
  · exact List.mem_append_right held hcurrent
  · exact hrest htoken

end Proceeds

/-! ## Parts of a field -/

variable {scope : Scope}

/-- Passing over the arguments of an annotation proceeds. -/
theorem proceeds_skipArguments : Proceeds scope skipArguments := by
  refine Proceeds.peek.bind fun token => ?_
  refine .ite ⟨?_, ?_⟩ (.pure ())
  · intro c u c' h
    rw [get_bind] at h
    cases hn : argumentsLength? 0 c.ahead <;> rw [hn] at h <;> cases h
    exact c.isBefore_take _
  · intro c f h
    rw [get_bind] at h
    cases hn : argumentsLength? 0 c.ahead <;> rw [hn] at h <;> cases h
    trivial

/-- Collecting a type name proceeds. -/
theorem proceeds_typeName (bound : Nat) (parts : List String) (token : Token) :
    Proceeds scope (typeName bound parts token) := by
  induction bound generalizing parts token with
  | zero => exact .fail token "type name" "field"
  | succ bound ih =>
    rw [typeName]
    refine .ite (Proceeds.next.bind fun following => ih parts following) ?_
    refine .ite (.fail token "type name" "field") (Proceeds.next.bind fun following => ?_)
    exact .ite (ih _ following) (.pure _)

/-- Counting asterisks proceeds. -/
theorem proceeds_pointerDepth (bound : Nat) (token : Token) : Proceeds scope (pointerDepth bound token) := by
  induction bound generalizing token with
  | zero => exact .pure (0, token)
  | succ bound ih =>
    rw [pointerDepth]
    refine .ite (Proceeds.next.bind fun following => ?_) (.pure (0, token))
    exact (ih following).bind fun (depth, last) => .pure (depth + 1, last)

/-- Reading the length of an array proceeds; it may fail at the numeral in hand. -/
theorem proceeds_dimension (symbols : SymbolTable) (typeName : String) (token : Token)
    (held : List Token) :
    Proceeds (.lengths (token :: held)) (dimension symbols typeName token) := by
  rw [dimension]
  by_cases hnumber : token.kind = .number ∧ Text.isDigits token.text.toList = true
  · rw [if_pos hnumber]
    cases hunread : Numeral.decimalInteger? token.text.toList with
    | some n => exact .pure n
    | none =>
      refine ⟨?_, ?_⟩
      · rintro c _ _ ⟨⟩
      · rintro c _ ⟨⟩
        exact ⟨token, List.mem_cons_self, ⟨hnumber.1, hnumber.2, hunread⟩, rfl⟩
  · rw [if_neg hnumber]
    refine .ite ?_ (.fail _ _ _)
    split
    · exact .pure _
    · exact .fail _ _ _

/-- Reading dimensions proceeds. -/
theorem proceeds_dimensions (symbols : SymbolTable) (typeName : String) (bound : Nat)
    (token : Token) (held : List Token) :
    Proceeds (.lengths held) (dimensions symbols typeName bound token) := by
  induction bound generalizing token held with
  | zero => exact .pure ([], token)
  | succ bound ih =>
    rw [dimensions]
    refine .ite (.next_bind fun size => ?_) (.pure ([], token))
    refine (proceeds_dimension symbols typeName size held).bind fun n => ?_
    refine (Proceeds.expect "]" _).bind fun _ => Proceeds.next.bind fun following => ?_
    exact (ih following _).bind fun (rest, last) => .pure (n :: rest, last)

/-- Reading the rest of a plain field proceeds. -/
theorem proceeds_plainField (symbols : SymbolTable) (brackets : Brackets) (usage : Usage)
    (typeName : String) (token : Token) :
    Proceeds (.lengths []) (plainField symbols brackets usage typeName token) := by
  refine Proceeds.ahead.bind fun bound => ?_
  refine (proceeds_pointerDepth (bound + 1) token).bind fun (leading, token) => ?_
  dsimp -zeta only
  extract_lets afterDepth
  have hafterDepth (p : Nat × Token) : Proceeds (.lengths []) (afterDepth p) := by
    dsimp -zeta only [afterDepth]
    extract_lets name depth afterType afterName
    have hafterType (q : CType × Token) : Proceeds (.lengths []) (afterType q) := by
      dsimp -zeta only [afterType]
      extract_lets type ending
      have hending (u : Unit) : Proceeds (.lengths []) (ending u) := .pure _
      exact .ite ((Proceeds.fail _ _ _).bind hending) (hending ())
    have hafterName (u : Unit) : Proceeds (.lengths []) (afterName u) := by
      refine Proceeds.next.bind fun token => .ite ?_ ((Proceeds.pure _).bind hafterType)
      refine (proceeds_dimensions symbols typeName _ token []).bind fun _ => ?_
      exact (Proceeds.pure _).bind hafterType
    exact .ite ((Proceeds.fail _ _ _).bind hafterName) (hafterName ())
  refine .ite (Proceeds.next.bind fun token => ?_) ((Proceeds.pure _).bind hafterDepth)
  exact (proceeds_pointerDepth (bound + 1) token).bind hafterDepth

/-- Reading the head of a function pointer proceeds. -/
theorem proceeds_methodHead (result : String) : Proceeds scope (methodHead result) := by
  refine Proceeds.next.bind fun _ => Proceeds.ahead.bind fun bound => Proceeds.next.bind fun token => ?_
  refine (proceeds_pointerDepth (bound + 1) token).bind fun (_, token) => ?_
  dsimp -zeta only
  extract_lets name afterName
  have hafterName (u : Unit) : Proceeds scope (afterName u) := by
    refine (Proceeds.expect ")" _).bind fun _ => ?_
    exact (Proceeds.expect "(" _).bind fun _ => .pure _
  exact .ite ((Proceeds.fail _ _ _).bind hafterName) (hafterName ())

/-- Checking the receiver proceeds. -/
theorem proceeds_checkReceiver (name : String) (first : Token) (parameters : List Field) :
    Proceeds scope (checkReceiver name first parameters) :=
  .ite (.fail _ _ _) (.pure ())

/-! ## Lists of fields -/

mutual
/-- Reading the entries of a list proceeds. -/
theorem proceeds_fieldList (symbols : SymbolTable) (bound : Nat) (brackets : Brackets) :
    Proceeds (.lengths []) (fieldList symbols bound brackets) := by
  cases bound with
  | zero =>
    rw [fieldList]
    refine ⟨?_, ?_⟩
    · rintro c _ _ ⟨⟩
    · rintro c _ ⟨⟩
      trivial
  | succ bound =>
    have hlist (brackets : Brackets) : Proceeds (.lengths []) (fieldList symbols bound brackets) :=
      proceeds_fieldList symbols bound brackets
    rw [fieldList]
    refine Proceeds.next.bind fun token => ?_
    refine .ite (.pure []) (.ite (.fail _ _ _) ?_)
    refine .ite ((hlist brackets).bind fun rest => .pure _) (.ite (hlist brackets) (.ite ?_ ?_))
    · refine (Proceeds.expect "\x7b" "union").bind fun _ => (hlist .members).bind fun members => ?_
      refine (Proceeds.expect ";" "end of union").bind fun _ => ?_
      exact (hlist brackets).bind fun rest => .pure _
    · refine (proceeds_field symbols bound brackets token).bind fun (field, closed) => ?_
      exact .ite (.pure [field]) ((hlist brackets).bind fun rest => .pure _)

/-- Reading a field proceeds. -/
theorem proceeds_field (symbols : SymbolTable) (bound : Nat) (brackets : Brackets) (token : Token) :
    Proceeds (.lengths []) (field symbols bound brackets token) := by
  cases bound with
  | zero =>
    rw [field]
    exact .fail _ _ _
  | succ bound =>
    unfold field
    extract_lets afterUsage
    have hafterUsage (p : Usage × Token) : Proceeds (.lengths []) (afterUsage p) := by
      dsimp -zeta only [afterUsage]
      refine Proceeds.ahead.bind fun n => ?_
      refine (proceeds_typeName (n + 2) [] p.2).bind fun (type, token) => ?_
      refine .ite ?_ (proceeds_plainField symbols brackets p.1 type token)
      refine (proceeds_methodHead type).bind fun name => Proceeds.peek.bind fun first => ?_
      refine (proceeds_fieldList symbols bound .parameters).bind fun parameters => ?_
      refine (proceeds_checkReceiver name first parameters).bind fun _ => ?_
      refine Proceeds.next.bind fun token => ?_
      extract_lets ending
      have hending (u : Unit) : Proceeds (.lengths []) (ending u) := .pure _
      exact .ite ((Proceeds.fail _ _ _).bind hending) (hending ())
    refine .ite ?_ ((Proceeds.pure _).bind hafterUsage)
    refine proceeds_skipArguments.bind fun _ => Proceeds.next.bind fun following => ?_
    exact (Proceeds.pure _).bind hafterUsage
end

/-- Reading a list that has just been opened proceeds. -/
theorem proceeds_fields (symbols : SymbolTable) (brackets : Brackets) :
    Proceeds (.lengths []) (fields symbols brackets) :=
  Proceeds.ahead.bind fun n => proceeds_fieldList symbols (n + 1) brackets

/-! ## Enumerations -/

/-- Reading the expression of a constant proceeds. -/
theorem proceeds_enumExpression (ident : String) : Proceeds scope (enumExpression ident) := by
  refine Proceeds.move (fun c => c.isBefore_takeWhile fun token => !endsExpression token) fun c => ?_
  refine Proceeds.next.bind fun token => ?_
  extract_lets ending afterEnd
  have hending (u : Unit) : Proceeds scope (ending u) := .pure _
  have hafterEnd (u : Unit) : Proceeds scope (afterEnd u) :=
    .ite ((Proceeds.fail _ _ _).bind hending) (hending ())
  exact .ite ((Proceeds.fail _ _ _).bind hafterEnd) (hafterEnd ())

/-- Reading a constant proceeds. -/
theorem proceeds_writtenEnumerator (enum : String) : Proceeds scope (writtenEnumerator enum) := by
  refine Proceeds.next.bind fun token => .ite (.pure none) ?_
  extract_lets afterName
  have hafterName (u : Unit) : Proceeds scope (afterName u) := by
    refine Proceeds.next.bind fun separator => .ite ?_ (.ite (.pure _) (.fail _ _ _))
    exact (proceeds_enumExpression token.text).bind fun (expression, last) => .pure _
  exact .ite ((Proceeds.fail _ _ _).bind hafterName) (hafterName ())

end

/-! ## Moves -/

theorem forward_skipArguments : Forward skipArguments :=
  (proceeds_skipArguments : Proceeds .nothing _).forward

theorem forward_typeName (bound : Nat) (parts : List String) (token : Token) :
    Forward (typeName bound parts token) :=
  (proceeds_typeName bound parts token : Proceeds .nothing _).forward

theorem forward_pointerDepth (bound : Nat) (token : Token) : Forward (pointerDepth bound token) :=
  (proceeds_pointerDepth bound token : Proceeds .nothing _).forward

theorem forward_methodHead (result : String) : Forward (methodHead result) :=
  (proceeds_methodHead result : Proceeds .nothing _).forward

theorem forward_checkReceiver (name : String) (first : Token) (parameters : List Field) :
    Forward (checkReceiver name first parameters) :=
  (proceeds_checkReceiver name first parameters : Proceeds .nothing _).forward

theorem forward_enumExpression (ident : String) : Forward (enumExpression ident) :=
  (proceeds_enumExpression ident : Proceeds .nothing _).forward

theorem forward_writtenEnumerator (enum : String) : Forward (writtenEnumerator enum) :=
  (proceeds_writtenEnumerator enum : Proceeds .nothing _).forward

section

variable [Host] (symbols : SymbolTable)

theorem forward_dimension (typeName : String) (token : Token) :
    Forward (dimension symbols typeName token) :=
  (proceeds_dimension symbols typeName token []).forward

theorem forward_dimensions (typeName : String) (bound : Nat) (token : Token) :
    Forward (dimensions symbols typeName bound token) :=
  (proceeds_dimensions symbols typeName bound token []).forward

theorem forward_fieldList (bound : Nat) (brackets : Brackets) :
    Forward (fieldList symbols bound brackets) :=
  (proceeds_fieldList symbols bound brackets).forward

theorem forward_field (bound : Nat) (brackets : Brackets) (token : Token) :
    Forward (field symbols bound brackets token) :=
  (proceeds_field symbols bound brackets token).forward

theorem forward_fields (brackets : Brackets) : Forward (fields symbols brackets) :=
  (proceeds_fields symbols brackets).forward

end

end Grammar

end SdkBindings
