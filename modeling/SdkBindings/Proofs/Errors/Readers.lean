import SdkBindings.Proofs.Grammar.Lookahead
import SdkBindings.Proofs.Grammar.Termination

/-!
# What an error of a reader accuses

A reader fails at a token, and that token has been read from the header: it was handed over by a read
or a look ahead, or it is the end.  The error names its place and its text (`Accuses`).  There is one
exception.  Where a function pointer lacks its receiver, the place is that of the first token behind the
opening parenthesis, and the text is the name of the parameter that was read there
(`IsReceiverError`).

The tokens in hand are what has to be followed through the grammar, so a reader is said to answer for
its errors (`Answers`) together with what holds of its result.  Each construct does if its parts do.
Lists of fields contain lists of fields; there the induction is on the number of tokens ahead, and a
list is unfolded as a loop without a bound (`isLoop_fields`), so that the parameters of a function
pointer are those that `fields` reads.
-/

namespace SdkBindings.Grammar

open Reader

/-! ## Errors -/

/-- What stands where the receiver should: the name of the first parameter, or the parenthesis that
closes an empty list. -/
def foundReceiver (parameters : List Field) : String :=
  (parameters.head?.map Field.name).getD ")"

/-- The error is that of a function pointer without a receiver, and the token is the first one behind
the parenthesis that opens its parameters. -/
structure IsReceiverError (start : Cursor) (e : SyntaxError) (token : Token) : Prop where
  /-- The receiver is expected. -/
  expected : e.expected = receiverName
  /-- After the head of a function pointer and behind a parenthesis a list of parameters is read, from
  the token on, and what stands in the place of the receiver is something else. -/
  list : ∃ symbols result head name c first parameters rest,
    start.IsBefore head ∧ methodHead result head = .ok (name, c) ∧
    c.previous?.map Token.text = some "(" ∧ c.peek .code = (token, first) ∧
    fields symbols .parameters first = .ok (parameters, rest) ∧
    e.actual = foundReceiver parameters ∧ e.actual ≠ receiverName ∧
    e.context = "first parameter of " ++ name

/-- The error is at a token of the header and names its text, unless it is about a receiver. -/
structure Accuses (start : Cursor) (e : SyntaxError) (token : Token) : Prop where
  /-- The error names the header. -/
  file : e.file = start.file
  /-- The token is one of the header, the end included. -/
  mem : token ∈ start.tokens
  /-- The error is at its line. -/
  line : e.line = token.line
  /-- It is at its column. -/
  column : e.column = token.column
  /-- It names the text of the token, or what was found for a receiver. -/
  actual : (e.expected ≠ receiverName ∧ e.actual = token.shownText) ∨ IsReceiverError start e token

/-! ## Readers that answer for their errors -/

/-- At the cursor the reader moves forward to a result with a property, and a syntax error of it accuses
a token of the header. -/
structure AnswersAt {α : Type} (start c : Cursor) (P : α → Prop) (m : Reader α) : Prop where
  /-- A result has the property. -/
  ok : ∀ a c', m c = .ok (a, c') → c.IsBefore c' ∧ P a
  /-- An error accuses a token. -/
  error : ∀ e, m c = .error (.grammar e) → ∃ token, Accuses start e token

/-- The reader answers for its errors wherever fewer than `n` tokens of the header are ahead. -/
def Answers {α : Type} (start : Cursor) (n : Nat) (P : α → Prop) (m : Reader α) : Prop :=
  ∀ c, start.IsBefore c → c.ahead.length < n → AnswersAt start c P m

variable {α β : Type} {start : Cursor} {n : Nat} {P : α → Prop} {Q : β → Prop}

namespace AnswersAt

variable {c : Cursor}

theorem pure {a : α} (h : P a) : AnswersAt start c P (Pure.pure a) := by
  constructor
  · intro b c' hread
    cases hread
    exact ⟨.refl c, h⟩
  · intro e hread
    cases hread

/-- A failure accuses the token it is given. -/
theorem fail {token : Token} {expected : String} (hstart : start.IsBefore c)
    (htoken : token ∈ start.tokens) (hexpected : expected ≠ receiverName) (context : String) :
    AnswersAt start c P (Reader.fail token expected context) := by
  constructor
  · intro a c' hread
    cases hread
  · intro e hread
    cases hread
    exact ⟨token, hstart.1, htoken, rfl, rfl, .inl ⟨hexpected, rfl⟩⟩

theorem bind {m : Reader β} {k : β → Reader α} (hm : AnswersAt start c Q m)
    (hk : ∀ b c', m c = .ok (b, c') → c.IsBefore c' → Q b → AnswersAt start c' P (k b)) :
    AnswersAt start c P (m >>= k) := by
  constructor
  · intro a c'' hread
    obtain ⟨b, c', hfirst, hread⟩ := reader_bind_ok hread
    obtain ⟨hbefore, hb⟩ := hm.ok b c' hfirst
    obtain ⟨hafter, ha⟩ := (hk b c' hfirst hbefore hb).ok a c'' hread
    exact ⟨hbefore.trans hafter, ha⟩
  · intro e hread
    obtain hfirst | ⟨⟨b, c'⟩, hfirst, hread⟩ := bind_eq_error (m := m c) hread
    · exact hm.error e hfirst
    · obtain ⟨hbefore, hb⟩ := hm.ok b c' hfirst
      exact (hk b c' hfirst hbefore hb).error e hread

/-- A reader that asks for the cursor goes on with the one it is at. -/
theorem get_bind {k : Cursor → Reader α} (h : AnswersAt start c P (k c)) :
    AnswersAt start c P (get >>= k) :=
  ⟨h.ok, h.error⟩

/-- The cursor may be moved forward. -/
theorem set {c' : Cursor} (h : c.IsBefore c') :
    AnswersAt start c (fun _ => True) (MonadState.set c') := by
  constructor
  · intro u c'' hread
    cases hread
    exact ⟨h, trivial⟩
  · intro e hread
    cases hread

end AnswersAt

namespace Answers

theorem pure {a : α} (h : P a) : Answers start n P (Pure.pure a) :=
  fun _ _ _ => .pure h

theorem fail {token : Token} {expected : String} (htoken : token ∈ start.tokens)
    (hexpected : expected ≠ receiverName) (context : String) :
    Answers start n P (Reader.fail token expected context) :=
  fun _ hstart _ => .fail hstart htoken hexpected context

/-- A number that is not read is no syntax error. -/
theorem throw (e : Constant.Error) :
    Answers start n P (MonadExcept.throw (.constant e) : Reader α) := by
  intro c _ _
  constructor
  · intro a c' hread
    cases hread
  · intro e hread
    cases hread

theorem bind {m : Reader β} {k : β → Reader α} (hm : Answers start n Q m)
    (hk : ∀ b, Q b → Answers start n P (k b)) : Answers start n P (m >>= k) :=
  fun c hstart hn => (hm c hstart hn).bind fun b c' _ hbefore hb =>
    hk b hb c' (hstart.trans hbefore) (Nat.lt_of_le_of_lt hbefore.length_le hn)

theorem ite {p : Prop} [Decidable p] {m k : Reader α} (hm : p → Answers start n P m)
    (hk : ¬ p → Answers start n P k) : Answers start n P (if p then m else k) := by
  split
  · exact hm ‹_›
  · exact hk ‹_›

/-- A token is checked before the reader goes on. -/
theorem check {p : Prop} [Decidable p] {token : Token} {expected context : String} {k : Reader α}
    (htoken : token ∈ start.tokens) (hexpected : expected ≠ receiverName)
    (hk : Answers start n P k) :
    Answers start n P (if p then Reader.fail token expected context >>= fun _ : Unit => k else k) :=
  .ite (fun _ => (fail (P := fun _ => True) htoken hexpected context).bind fun _ _ => hk) fun _ => hk

/-- What cannot fail answers if it moves forward. -/
theorem of_total {f : Cursor → α × Cursor} (hforward : ∀ c : Cursor, c.IsBefore (f c).2)
    (h : ∀ c, start.IsBefore c → P (f c).1) : Answers start n P (fun c => .ok (f c) : Reader α) := by
  intro c hstart _
  constructor
  · intro a c' hread
    obtain ⟨rfl, rfl⟩ := Prod.mk.inj (Except.ok.inj hread)
    exact ⟨hforward c, h c hstart⟩
  · intro e hread
    cases hread

/-- The token at a cursor is one of the header. -/
theorem current_mem {c : Cursor} (h : start.IsBefore c) : c.current ∈ start.tokens := by
  rw [← h.tokens_eq]
  exact List.mem_of_getElem? c.getElem?_index

theorem next : Answers start n (· ∈ start.tokens) Reader.next :=
  .of_total (fun c => c.isBefore_next .code) fun c h =>
    current_mem (h.trans (c.isBefore_settle .code))

theorem nextInLine : Answers start n (· ∈ start.tokens) Reader.nextInLine :=
  .of_total (fun c => c.isBefore_next .line) fun _ h => current_mem h

theorem peek : Answers start n (· ∈ start.tokens) Reader.peek :=
  .of_total (fun c => c.isBefore_settle .code) fun c h =>
    current_mem (h.trans (c.isBefore_settle .code))

theorem peekSecond : Answers start n (fun _ => True) Reader.peekSecond :=
  .of_total .refl fun _ _ => trivial

theorem readLine : Answers start n (fun _ => True) Reader.readLine :=
  .of_total Cursor.isBefore_readLine fun _ _ => trivial

theorem ahead : Answers start n (fun _ => True) Reader.ahead :=
  .of_total .refl fun _ _ => trivial

theorem expect {text : String} (htext : text ≠ receiverName) (context : String) :
    Answers start n (fun _ => True) (Reader.expect text context) :=
  next.bind fun _ ht => .ite (fun _ => .pure trivial) fun _ => .fail ht htext context

theorem expectKind (kind : Token.Kind) (context : String) :
    Answers start n (fun _ => True) (Reader.expectKind kind context) := by
  have hname : kind.name ≠ receiverName := by cases kind <;> decide
  exact next.bind fun _ ht => .ite (fun _ => .pure trivial) fun _ => .fail ht hname context

end Answers

/-! ## Parts of a field -/

theorem answers_skipArguments : Answers start n (fun _ => True) skipArguments := by
  refine Answers.peek.bind fun token _ => .ite (fun _ => ?_) fun _ => .pure trivial
  intro c hstart _
  refine .get_bind ?_
  split
  · exact .set (c.isBefore_take _)
  · have heof : c.eof ∈ start.tokens := by
      rw [← hstart.tokens_eq]
      exact List.mem_append_right _ (List.mem_append_right _ List.mem_cons_self)
    exact .fail hstart heof (by decide) _

theorem answers_typeName (bound : Nat) (parts : List String) {token : Token}
    (ht : token ∈ start.tokens) :
    Answers start n (fun p => p.2 ∈ start.tokens) (typeName bound parts token) := by
  induction bound generalizing parts token with
  | zero => exact .fail ht (by decide) "field"
  | succ bound ih =>
    rw [typeName]
    refine .ite (fun _ => Answers.next.bind fun following h => ih parts h) fun _ => ?_
    refine .ite (fun _ => .fail ht (by decide) "field") fun _ => Answers.next.bind fun following h => ?_
    exact .ite (fun _ => ih _ h) fun _ => .pure h

theorem answers_pointerDepth (bound : Nat) {token : Token} (ht : token ∈ start.tokens) :
    Answers start n (fun p => p.2 ∈ start.tokens) (pointerDepth bound token) := by
  induction bound generalizing token with
  | zero => exact .pure ht
  | succ bound ih =>
    rw [pointerDepth]
    refine .ite (fun _ => Answers.next.bind fun following h => ?_) fun _ => .pure ht
    exact (ih h).bind fun p hp => .pure hp

theorem answers_dimension (symbols : SymbolTable) (typeName : String) {token : Token}
    (ht : token ∈ start.tokens) :
    Answers start n (fun _ => True) (dimension symbols typeName token) := by
  have hfail : Answers start n (fun _ : Int => True)
      (fail token "array length" ("array of " ++ typeName)) :=
    .fail ht (by decide) _
  rw [dimension]
  refine .ite (fun _ => ?_) fun _ => .ite (fun _ => ?_) fun _ => hfail
  · split
    · exact .pure trivial
    · exact .throw _
  · split
    · exact .pure trivial
    · exact hfail

theorem answers_dimensions (symbols : SymbolTable) (typeName : String) (bound : Nat) {token : Token}
    (ht : token ∈ start.tokens) :
    Answers start n (fun p => p.2 ∈ start.tokens) (dimensions symbols typeName bound token) := by
  induction bound generalizing token with
  | zero => exact .pure ht
  | succ bound ih =>
    rw [dimensions]
    refine .ite (fun _ => Answers.next.bind fun size hsize => ?_) fun _ => .pure ht
    refine (answers_dimension symbols typeName hsize).bind fun length _ => ?_
    refine (Answers.expect (by decide) _).bind fun _ _ => Answers.next.bind fun following h => ?_
    exact (ih h).bind fun p hp => .pure hp

theorem answers_allAsterisks {token : Token} (ht : token ∈ start.tokens) :
    Answers start n (fun p => p.2 ∈ start.tokens) (allAsterisks token) :=
  Answers.ahead.bind fun _ _ => answers_pointerDepth _ ht

/-- The marks of a list do not ask for a receiver. -/
structure Brackets.AreMarks (brackets : Brackets) : Prop where
  /-- The separator is not the name of the receiver. -/
  separator : brackets.separator ≠ receiverName
  /-- Neither is what closes the list. -/
  close : brackets.close ≠ receiverName

theorem Brackets.areMarks_members : Brackets.members.AreMarks := ⟨by decide, by decide⟩

theorem Brackets.areMarks_parameters : Brackets.parameters.AreMarks := ⟨by decide, by decide⟩

variable {brackets : Brackets}

theorem answers_terminatedField (hmarks : brackets.AreMarks) (usage : Usage) (typeName name : String)
    (depth : Nat) (target : CType) {token : Token} (ht : token ∈ start.tokens) :
    Answers start n (fun _ => True)
      (terminatedField brackets usage typeName name depth target token) :=
  .check ht hmarks.separator (.pure trivial)

theorem answers_wholeNamedField (symbols : SymbolTable) (hmarks : brackets.AreMarks) (usage : Usage)
    (typeName : String) (depth : Nat) {token : Token} (ht : token ∈ start.tokens) :
    Answers start n (fun _ => True) (wholeNamedField symbols brackets usage typeName depth token) := by
  refine .check ht (by decide) (Answers.next.bind fun following h => ?_)
  refine .ite (fun _ => ?_) fun _ => answers_terminatedField hmarks _ _ _ _ _ h
  refine (Answers.ahead.bind fun bound _ => answers_dimensions symbols typeName _ h).bind fun p hp => ?_
  exact answers_terminatedField hmarks _ _ _ _ _ hp

theorem answers_wholePlainField (symbols : SymbolTable) (hmarks : brackets.AreMarks) (usage : Usage)
    (typeName : String) {token : Token} (ht : token ∈ start.tokens) :
    Answers start n (fun _ => True) (wholePlainField symbols brackets usage typeName token) := by
  refine (answers_allAsterisks ht).bind fun p hp => .ite (fun _ => ?_) fun _ => ?_
  · refine Answers.next.bind fun following h => (answers_allAsterisks h).bind fun q hq => ?_
    exact answers_wholeNamedField symbols hmarks usage typeName _ hq
  · exact answers_wholeNamedField symbols hmarks usage typeName _ hp

theorem answers_wholeMethodHead (result : String) :
    Answers start n (fun _ => True) (wholeMethodHead result) := by
  refine Answers.next.bind fun _ _ => Answers.next.bind fun token ht => ?_
  refine (answers_allAsterisks ht).bind fun p hp => .check hp (by decide) ?_
  refine (Answers.expect (by decide) _).bind fun _ _ => ?_
  exact (Answers.expect (by decide) _).bind fun _ _ => .pure trivial

/-! ## The receiver -/

/-- A token with a text that was expected is the one passed last. -/
theorem previous?_of_expect {text context : String} (hne : text ≠ "") {c c' : Cursor} {t : Token}
    (hc : c.IsCut) (h : expect text context c = .ok (t, c')) :
    c'.previous?.map Token.text = some text := by
  obtain ⟨⟨ht, rfl⟩, htext⟩ := expect_ok.mp h
  obtain ⟨ends, -, ⟨-, hnext⟩ | ⟨u, rest, -, -, -, hnext⟩⟩ := next_cases_of_isCut hc
  · rw [hnext] at ht
    obtain rfl : c.eof = t := ht
    exact absurd (htext.symm.trans hc.text) hne
  · rw [hnext] at ht ⊢
    obtain rfl : u = t := ht
    exact congrArg some htext

/-- The head of a function pointer ends with an opening parenthesis. -/
theorem previous?_of_methodHead {result name : String} {c c' : Cursor} (hc : c.IsCut)
    (h : methodHead result c = .ok (name, c')) : c'.previous?.map Token.text = some "(" := by
  rw [methodHead_agree result c hc (Nat.lt_succ_self _)] at h
  obtain ⟨_, c₁, hconvention, h⟩ := reader_bind_ok h
  obtain ⟨token, c₂, htoken, h⟩ := reader_bind_ok h
  obtain ⟨p, c₃, hasterisks, h⟩ := reader_bind_ok h
  have hbefore : c.IsBefore c₃ := ((Forward.next _ _ _ hconvention).trans
    (Forward.next _ _ _ htoken)).trans (isLoop_pointerDepth.forward token _ _ _ hasterisks)
  dsimp only at h
  split at h
  · cases h
  · obtain ⟨_, c₄, hclose, h⟩ := reader_bind_ok h
    obtain ⟨_, c₅, hopen, h⟩ := reader_bind_ok h
    cases h
    exact previous?_of_expect (by decide)
      (hc.of_isBefore (hbefore.trans (Forward.expect _ _ _ _ _ hclose))) hopen

/-- A list that is read does not start at the end of the header. -/
theorem kind_ne_eof_of_fields {symbols : SymbolTable} {brackets : Brackets} {c c' : Cursor}
    {list : List Field} (hclose : brackets.close ≠ "") (hc : c.IsCut)
    (h : fields symbols brackets c = .ok (list, c')) : (c.next .code).1.kind ≠ .eof := by
  intro hkind
  rw [(isLoop_fields symbols).unfolds brackets c nofun hc] at h
  obtain ⟨token, c₁, hnext, h⟩ := reader_bind_ok h
  obtain ⟨rfl, -⟩ := next_ok.mp hnext
  have htext : (c.next .code).1.text ≠ brackets.close := by
    rw [isHand_next hc _ rfl hkind]
    exact Ne.symm hclose
  rw [if_neg htext, if_pos hkind] at h
  cases h

/-- The receiver is looked for among the parameters. -/
theorem checkReceiver_eq (name : String) (first : Token) (parameters : List Field) :
    checkReceiver name first parameters =
      if foundReceiver parameters ≠ receiverName then
        fail { first with text := foundReceiver parameters } receiverName
          ("first parameter of " ++ name)
      else pure () := by
  cases parameters <;> rfl

/-- Where the receiver is missing, the error is that of the parameters that have been read. -/
theorem answersAt_checkReceiver {symbols : SymbolTable} {result name : String} {first : Token}
    {parameters : List Field} {head c c₁ c₂ : Cursor} (hcut : head.IsCut)
    (hstart : start.IsBefore head) (hhead : methodHead result head = .ok (name, c))
    (hpeek : peek c = .ok (first, c₁))
    (hlist : fields symbols .parameters c₁ = .ok (parameters, c₂)) :
    AnswersAt start c₂ (fun _ => True) (checkReceiver name first parameters) := by
  have hbefore := hstart.trans (forward_methodHead _ _ _ _ hhead)
  have hbefore₁ := hbefore.trans (Forward.peek _ _ _ hpeek)
  have hbefore₂ := hbefore₁.trans (forward_fields _ _ _ _ _ hlist)
  have hkind : first.kind ≠ .eof := by
    obtain ⟨hfirst, hnext⟩ := peek_ok hpeek
    have hkind := kind_ne_eof_of_fields (by decide)
      (hcut.of_isBefore ((forward_methodHead _ _ _ _ hhead).trans (Forward.peek _ _ _ hpeek))) hlist
    rwa [hnext, hfirst] at hkind
  have hmem : first ∈ start.tokens := by
    cases hpeek
    exact Answers.current_mem (hbefore.trans (c.isBefore_settle .code))
  rw [checkReceiver_eq]
  constructor
  · intro u c₃ hread
    split at hread <;> cases hread
    exact ⟨.refl c₂, trivial⟩
  · intro e hread
    split at hread
    · next hmissing =>
      have htext : ({ first with text := foundReceiver parameters } : Token).shownText =
          foundReceiver parameters := if_neg hkind
      cases hread
      refine ⟨first, hbefore₂.1, hmem, rfl, rfl, .inr ⟨rfl, ?_⟩⟩
      refine ⟨symbols, result, head, name, c, c₁, parameters, c₂, hstart, hhead, ?_, ?_, hlist, htext,
        ?_, rfl⟩
      · exact previous?_of_methodHead hcut hhead
      · cases hpeek
        rfl
      · exact fun he => hmissing (htext.symm.trans he)
    · cases hread

/-! ## Lists of fields -/

section

variable {symbols : SymbolTable} {brackets : Brackets}

/-- A function pointer answers if its parameters do. -/
theorem answers_methodRound (hcut : start.IsCut) (hmarks : brackets.AreMarks) (usage : Usage)
    (result : String) (hparameters : Answers start n (fun _ => True) (fields symbols .parameters)) :
    Answers start n (fun _ => True) (methodRound (fields symbols) brackets usage result) := by
  intro c hstart hn
  refine (answers_wholeMethodHead result c hstart hn).bind fun name c₁ hhead hbefore₁ _ => ?_
  have hn₁ := Nat.lt_of_le_of_lt hbefore₁.length_le hn
  have hstart₁ := hstart.trans hbefore₁
  refine (Answers.peek c₁ hstart₁ hn₁).bind fun first c₂ hpeek hbefore₂ _ => ?_
  have hn₂ := Nat.lt_of_le_of_lt hbefore₂.length_le hn₁
  have hstart₂ := hstart₁.trans hbefore₂
  refine (hparameters c₂ hstart₂ hn₂).bind fun parameters c₃ hlist hbefore₃ _ => ?_
  have hn₃ := Nat.lt_of_le_of_lt hbefore₃.length_le hn₂
  have hstart₃ := hstart₂.trans hbefore₃
  have hcutHead := hcut.of_isBefore hstart
  rw [← methodHead_agree result c hcutHead (Nat.lt_succ_self _)] at hhead
  refine (answersAt_checkReceiver hcutHead hstart hhead hpeek hlist).bind fun _ c₄ _ hbefore₄ _ => ?_
  have hrest : Answers start n (fun _ : Field × Bool => True) (next >>= fun token =>
      if token.text ≠ brackets.separator ∧ token.text ≠ brackets.close then
        fail token brackets.separator ("after method " ++ name) >>= fun _ : Unit => pure _
      else pure (⟨name, .functionPointer name parameters result, usage.isOut, usage.hasCount,
        false, false, usage.isErased⟩, token.text = brackets.close)) :=
    Answers.next.bind fun token ht => .check ht hmarks.separator (.pure trivial)
  exact hrest c₄ (hstart₃.trans hbefore₄) (Nat.lt_of_le_of_lt hbefore₄.length_le hn₃)

/-- A field answers if the parameters of function pointers do. -/
theorem answers_fieldRound (hcut : start.IsCut) (hmarks : brackets.AreMarks)
    (hparameters : Answers start n (fun _ => True) (fields symbols .parameters)) {token : Token}
    (ht : token ∈ start.tokens) :
    Answers start n (fun _ => True) (fieldRound symbols (fields symbols) brackets token) := by
  have hafter (usage : Usage) {token : Token} (ht : token ∈ start.tokens) :
      Answers start n (fun _ => True)
        (fieldAfterUsageRound symbols (fields symbols) brackets usage token) := by
    have htype : Answers start n (fun p => p.2 ∈ start.tokens) (wholeTypeName ([], token)) :=
      Answers.ahead.bind fun _ _ => answers_typeName _ _ ht
    refine htype.bind fun p hp => .ite (fun _ => ?_) fun _ => ?_
    · exact answers_methodRound hcut hmarks usage p.1 hparameters
    · exact answers_wholePlainField symbols hmarks usage p.1 hp
  refine .ite (fun _ => ?_) fun _ => hafter _ ht
  exact answers_skipArguments.bind fun _ _ => Answers.next.bind fun following h => hafter _ h

/-- A token is read first: then one token fewer is ahead unless it is the end. -/
theorem Answers.next_bind {k : Token → Reader α} (hcut : start.IsCut)
    (hk : ∀ t ∈ start.tokens, Answers start (n - held (some t)) P (k t)) :
    Answers start n P (Reader.next >>= k) := by
  intro c hstart hn
  refine (Answers.next c hstart hn).bind fun t c' hread hbefore ht => ?_
  have hunread : c'.ahead.length + held (some t) ≤ c.ahead.length := by
    cases hread
    exact unread_next c (hcut.of_isBefore hstart).kind
  exact hk t ht c' (hstart.trans hbefore) (by omega)

/-- A list answers if the lists do that start behind its first token. -/
theorem answers_fieldsRound (hcut : start.IsCut) (hmarks : brackets.AreMarks)
    (hlists : ∀ brackets : Brackets, brackets.AreMarks →
      Answers start n (fun _ => True) (fields symbols brackets)) :
    Answers start (n + 1) (fun _ => True) (fieldsRound symbols (fields symbols) brackets) := by
  refine Answers.next_bind hcut fun token ht => .ite (fun _ => .pure trivial) fun _ => ?_
  refine .ite (fun _ => .fail ht hmarks.close _) fun hkind => ?_
  rw [show held (some token) = 1 from if_neg hkind, Nat.add_sub_cancel]
  have hagain := hlists brackets hmarks
  refine .ite (fun _ => hagain.bind fun _ _ => .pure trivial) fun _ => ?_
  refine .ite (fun _ => hagain) fun _ => ?_
  refine .ite (fun _ => ?_) fun _ => ?_
  · refine (Answers.expect (by decide) _).bind fun _ _ => ?_
    refine (hlists .members Brackets.areMarks_members).bind fun _ _ => ?_
    refine (Answers.expect (by decide) _).bind fun _ _ => ?_
    exact hagain.bind fun _ _ => .pure trivial
  · have hparameters := hlists .parameters Brackets.areMarks_parameters
    refine (answers_fieldRound hcut hmarks hparameters ht).bind fun p _ => ?_
    exact .ite (fun _ => .pure trivial) fun _ => hagain.bind fun _ _ => .pure trivial

/-- Every list of fields answers for its errors. -/
theorem answers_fields (hcut : start.IsCut) (symbols : SymbolTable) (hmarks : brackets.AreMarks)
    (n : Nat) : Answers start n (fun _ => True) (fields symbols brackets) := by
  have hunfolds (brackets : Brackets) {c : Cursor} (hstart : start.IsBefore c) :
      fields symbols brackets c = fieldsRound symbols (fields symbols) brackets c :=
    (isLoop_fields symbols).unfolds brackets c nofun (hcut.of_isBefore hstart)
  induction n generalizing brackets with
  | zero => exact fun c _ hn => absurd hn (Nat.not_lt_zero _)
  | succ n ih =>
    intro c hstart hn
    have hround := answers_fieldsRound hcut hmarks (fun brackets hmarks => ih hmarks) c hstart hn
    constructor
    · intro a c' hread
      rw [hunfolds brackets hstart] at hread
      exact hround.ok a c' hread
    · intro e hread
      rw [hunfolds brackets hstart] at hread
      exact hround.error e hread

end

end SdkBindings.Grammar
