import SdkBindings.Proofs.Errors.Readers
import SdkBindings.Proofs.Lexing.Tiling

/-!
# Errors point into the header

A statement answers for its errors as a reader does (`Pursues`): whatever it does in its session, a
syntax error comes from a reader and accuses a token of the header.  So a header fails with a syntax
error in one of two ways.  Either its text cannot be cut into tokens, and the error is at the first
character that starts none, or the error is at a token that has been cut from the text
(`readHeader_syntaxError`).  Such a token is a slice of the text at the place that it names
(`Token.IsSliceOf`), so the place and the text of an error are those of a piece of the source.
-/

namespace SdkBindings

/-! ## Tokens in the source -/

/-- The token has been cut from the source at the place that it names.  That of the end stands behind
everything, and no other is empty. -/
def Token.IsSliceOf (token : Token) (source : List Char) : Prop :=
  ∃ front back, source = front ++ (token.text.toList ++ back) ∧ token.IsAt front ∧
    if token.kind = .eof then token.text = "" ∧ back = [] else token.text ≠ ""

/-- Each of the tiles is a slice of what they tile. -/
theorem Lexer.Tiles.isSliceOf_of_mem {left before text : List Char} {tokens : List Token}
    (h : Tiles left before text tokens) {token : Token} (ht : token ∈ tokens) :
    token.IsSliceOf (before ++ (text ++ left)) := by
  induction h with
  | stopped => cases ht
  | @ended before gap eof hleft _ hend =>
    obtain rfl := List.mem_singleton.mp ht
    subst hleft
    refine ⟨before ++ gap, [], ?_, hend.2.2, ?_⟩
    · rw [hend.2.1, String.toList_empty, List.append_nil, List.append_nil, List.append_nil]
    · rw [if_pos hend.1]
      exact ⟨hend.2.1, rfl⟩
  | @token before gap text _ tokens _ hplace hkind htext _ ih =>
    rcases List.mem_cons.mp ht with rfl | ht
    · refine ⟨before ++ gap, text ++ left, ?_, hplace, ?_⟩
      · simp only [List.append_assoc]
      · rwa [if_neg hkind]
    · simpa only [List.append_assoc] using ih ht

/-- The tokens of a text are slices of it. -/
theorem Lexer.isSliceOf_of_tokens? {file source : String} {tokens : List Token} {token : Token}
    (h : (lex file source).tokens? = .ok tokens) (ht : token ∈ tokens) :
    token.IsSliceOf source.toList := by
  obtain ⟨text, left, hsource, htiles, -⟩ := exists_tiles file [] source.toList
  have htokens : (lex file source).tokens = tokens := by
    unfold Lexed.tokens? at h
    split at h <;> cases h
    rfl
  rw [← htokens] at ht
  have hslice := htiles.isSliceOf_of_mem ht
  rwa [← hsource] at hslice

end SdkBindings

namespace SdkBindings.Grammar

open Reader

variable {α β : Type} {start : Cursor} {P : α → Prop} {Q : β → Prop}

/-! ## Actions without syntax errors -/

/-- Whatever goes wrong in the action is no syntax error. -/
def IsSettled (m : InSession α) : Prop :=
  ∀ s e s', m.run s ≠ (.error (.grammar e), s')

namespace IsSettled

theorem pure (a : α) : IsSettled (Pure.pure a) :=
  fun _ _ _ => nofun

theorem bind {m : InSession β} {k : β → InSession α} (hm : IsSettled m) (hk : ∀ b, IsSettled (k b)) :
    IsSettled (m >>= k) := by
  intro s e s'' hrun
  rw [run_bind] at hrun
  rcases hfirst : m.run s with ⟨f | b, s'⟩ <;> rw [hfirst] at hrun
  · cases hrun
    exact hm s e s'' hfirst
  · exact hk b s' e s'' hrun

theorem report (entries : Log) : IsSettled (Grammar.report entries) :=
  fun _ _ _ => nofun

theorem define (name : String) (value : Value) : IsSettled (Grammar.define name value) :=
  fun _ _ _ => nofun

theorem symbols : IsSettled Grammar.symbols :=
  fun _ _ _ => nofun

theorem evaluated (notes : Log) (result : Except Constant.Error Value)
    (note : Constant.Error → LogEntry) : IsSettled (Grammar.evaluated notes result note) := by
  refine (report notes).bind fun _ => ?_
  cases result with
  | ok v => exact .pure _
  | error e =>
    dsimp only
    split
    · exact (report _).bind fun _ => .pure _
    · exact fun _ _ _ => nofun

theorem enumeratorValue (previous : Option Value) (written : WrittenEnumerator) :
    IsSettled (Grammar.enumeratorValue previous written) := by
  have hend (value : Value) : IsSettled (do
      if value.isResolved then Grammar.define written.ident value
      Pure.pure value) := by
    split
    · exact (define _ _).bind fun _ => .pure _
    · exact .pure _
  unfold Grammar.enumeratorValue
  cases written.expression with
  | none => exact hend _
  | some tokens =>
    refine IsSettled.bind ?_ hend
    exact symbols.bind fun table => (evaluated _ _ _).bind fun value => .pure _

theorem checkGuids (strict : Bool) (draft : Draft) : IsSettled (Grammar.checkGuids strict draft) := by
  unfold Grammar.checkGuids
  split
  · exact .pure _
  · split
    · exact fun _ _ _ => nofun
    · exact report _

end IsSettled

/-! ## Statements that answer for their errors -/

/-- In the header the statement moves forward to a result with a property, and a syntax error of it
accuses a token. -/
structure Pursues (start : Cursor) (P : α → Prop) (m : Statement α) : Prop where
  /-- A result has the property. -/
  ok : ∀ c s a c' s', start.IsBefore c → m.exec c s = (.ok (a, c'), s') → c.IsBefore c' ∧ P a
  /-- A syntax error accuses a token. -/
  error : ∀ c s e s', start.IsBefore c → m.exec c s = (.error (.grammar e), s') →
    ∃ token, Accuses start e token

namespace Pursues

theorem pure {a : α} (h : P a) : Pursues start P (Pure.pure a) := by
  constructor
  · intro c s b c' s' _ hrun
    cases hrun
    exact ⟨.refl c, h⟩
  · intro c s e s' _ hrun
    cases hrun

theorem read {m : Reader α} (hm : ∀ n, Answers start n P m) : Pursues start P (Grammar.read m) := by
  have hat {c : Cursor} (hstart : start.IsBefore c) : AnswersAt start c P m :=
    hm (c.ahead.length + 1) c hstart (Nat.lt_succ_self _)
  constructor
  · intro c s a c' s' hstart hrun
    exact (hat hstart).ok a c' (exec_read_ok.mp hrun).1
  · intro c s e s' hstart hrun
    exact (hat hstart).error e (exec_read_error.mp hrun).1

/-- An action in the session leaves the cursor alone. -/
theorem lift {m : InSession α} (hm : IsSettled m) :
    Pursues start (fun _ => True) (liftM m : Statement α) := by
  constructor
  · intro c s a c' s' _ hrun
    obtain ⟨-, rfl⟩ := exec_lift_ok.mp hrun
    exact ⟨.refl _, trivial⟩
  · intro c s e s' _ hrun
    exact absurd hrun (hm.bind (fun a => .pure (a, c)) s e s')

theorem bind {m : Statement β} {k : β → Statement α} (hm : Pursues start Q m)
    (hk : ∀ b, Q b → Pursues start P (k b)) : Pursues start P (m >>= k) := by
  constructor
  · intro c s a c'' s'' hstart hrun
    obtain ⟨b, c', s', hfirst, hrun⟩ := exec_bind_ok hrun
    obtain ⟨hbefore, hb⟩ := hm.ok c s b c' s' hstart hfirst
    obtain ⟨hafter, ha⟩ := (hk b hb).ok c' s' a c'' s'' (hstart.trans hbefore) hrun
    exact ⟨hbefore.trans hafter, ha⟩
  · intro c s e s'' hstart hrun
    change ((m c >>= fun p => k p.1 p.2).run s) = _ at hrun
    rw [run_bind] at hrun
    rcases hfirst : (m c).run s with ⟨f | ⟨b, c'⟩, s'⟩ <;> rw [hfirst] at hrun
    · cases hrun
      exact hm.error c s e s'' hstart hfirst
    · obtain ⟨hbefore, hb⟩ := hm.ok c s b c' s' hstart hfirst
      exact (hk b hb).error c' s' e s'' (hstart.trans hbefore) hrun

theorem ite {p : Prop} [Decidable p] {m k : Statement α} (hm : Pursues start P m)
    (hk : Pursues start P k) : Pursues start P (if p then m else k) := by
  split
  · exact hm
  · exact hk

/-- A token is checked before the statement goes on. -/
theorem check {p : Prop} [Decidable p] {token : Token} {expected context : String}
    {k : Statement α} (htoken : token ∈ start.tokens) (hexpected : expected ≠ receiverName)
    (hk : Pursues start P k) :
    Pursues start P
      (if p then Grammar.read (fail token expected context) >>= fun _ : Unit => k else k) :=
  .ite ((read (P := fun _ => True) fun _ => .fail htoken hexpected context).bind fun _ _ => hk) hk

theorem next : Pursues start (· ∈ start.tokens) (Grammar.read Reader.next) :=
  .read fun _ => .next

theorem expect {text : String} (htext : text ≠ receiverName) (context : String) :
    Pursues start (fun _ => True) (Grammar.read (Reader.expect text context)) :=
  .read fun _ => .expect htext context

theorem expectKind (kind : Token.Kind) (context : String) :
    Pursues start (fun _ => True) (Grammar.read (Reader.expectKind kind context)) :=
  .read fun _ => .expectKind kind context

theorem symbols : Pursues start (fun _ => True) (liftM Grammar.symbols : Statement SymbolTable) :=
  .lift .symbols

/-- A list of fields is read with the constants known so far. -/
theorem fields_bind {brackets : Brackets} {k : List Field → Statement α} (hcut : start.IsCut)
    (hmarks : brackets.AreMarks) (hk : ∀ list, Pursues start P (k list)) :
    Pursues start P (Grammar.symbols >>= fun table => Grammar.read (fields table brackets) >>= k) :=
  symbols.bind fun table _ =>
    (read fun n => answers_fields hcut table hmarks n).bind fun list _ => hk list

end Pursues

/-! ## Enumerations -/

section

variable {n : Nat}

theorem answers_enumExpression (ident : String) :
    Answers start n (fun _ => True) (enumExpression ident) := by
  intro c hstart hn
  have hcovered := c.isBefore_takeWhile fun token => !endsExpression token
  refine .get_bind ((AnswersAt.set hcovered).bind fun _ c₁ _ hbefore _ => ?_)
  refine (Answers.next.bind fun token ht => ?_ : Answers start n _ _) c₁ (hstart.trans hbefore)
    (Nat.lt_of_le_of_lt hbefore.length_le hn)
  exact .check ht (by decide) (.check ht (by decide) (.pure trivial))

theorem answers_writtenEnumerator (enum : String) :
    Answers start n (fun _ => True) (writtenEnumerator enum) := by
  refine Answers.next.bind fun token ht => .ite (fun _ => .pure trivial) fun _ => ?_
  refine .check ht (by decide) (Answers.next.bind fun separator hseparator => ?_)
  refine .ite (fun _ => (answers_enumExpression _).bind fun _ _ => .pure trivial) fun _ => ?_
  exact .ite (fun _ => .pure trivial) fun _ => .fail hseparator (by decide) _

theorem answers_openBody : Answers start n (fun _ => True) openBody := by
  refine Answers.next.bind fun _ _ => .ite (fun _ => .pure trivial) fun _ => ?_
  refine Answers.peek.bind fun _ _ => .ite (fun _ => ?_) fun _ => .pure trivial
  exact Answers.next.bind fun _ _ => .pure trivial

end

theorem pursues_enumerators (enum : String) (bound : Nat) (previous : Option Value) :
    Pursues start (fun _ => True) (enumerators enum bound previous) := by
  induction bound generalizing previous with
  | zero => exact .pure trivial
  | succ bound ih =>
    rw [enumerators]
    refine (Pursues.read fun _ => answers_writtenEnumerator enum).bind fun written? _ => ?_
    cases written? with
    | none => exact .pure trivial
    | some written =>
      refine (Pursues.lift (.enumeratorValue _ _)).bind fun value _ => .ite (.pure trivial) ?_
      exact (ih (some value)).bind fun rest _ => .pure trivial

theorem pursues_enumeration (tag : String) :
    Pursues start (fun _ => True) (enumeration tag) := by
  refine (Pursues.read fun _ => .ahead).bind fun bound _ => ?_
  refine (pursues_enumerators _ _ _).bind fun list _ => ?_
  refine (Pursues.expectKind .ident _).bind fun name _ => ?_
  exact (Pursues.expect (by decide) _).bind fun _ _ => .pure trivial

/-! ## Declarations -/

theorem pursues_directive (draft : Draft) : Pursues start (fun _ => True) (directive draft) := by
  refine (Pursues.read fun _ => .nextInLine).bind fun word _ => .ite (.pure trivial) (.ite ?_ ?_)
  · exact (Pursues.read fun _ => .readLine).bind fun _ _ => .pure trivial
  · refine (Pursues.read fun _ => .nextInLine).bind fun name hname => .check hname (by decide) ?_
    refine (Pursues.read fun _ => .readLine).bind fun body _ => .ite ?_ ?_
    · exact (Pursues.lift (.report _)).bind fun _ _ => .pure trivial
    · refine Pursues.symbols.bind fun table _ => ?_
      refine (Pursues.lift (.evaluated _ _ _)).bind fun value _ => ?_
      cases value with
      | none => exact .pure trivial
      | some v => exact (Pursues.lift (.define _ _)).bind fun _ _ => .pure trivial

theorem pursues_interfaceGuid (draft : Draft) :
    Pursues start (fun _ => True) (interfaceGuid draft) := by
  refine (Pursues.expect (by decide) _).bind fun _ _ => ?_
  refine (Pursues.expectKind .string _).bind fun guid _ => ?_
  refine (Pursues.expect (by decide) _).bind fun _ _ => ?_
  exact (Pursues.expectKind .ident _).bind fun name _ => .pure trivial

theorem pursues_typedefEnum (draft : Draft) : Pursues start (fun _ => True) (typedefEnum draft) := by
  refine (Pursues.read fun _ => answers_openBody).bind fun tag _ => ?_
  cases tag with
  | none => exact .pure trivial
  | some tag => exact (pursues_enumeration _).bind fun enum _ => .pure trivial

theorem pursues_typedefStruct (hcut : start.IsCut) (draft : Draft) :
    Pursues start (fun _ => True) (typedefStruct draft) := by
  refine (Pursues.read fun _ => answers_openBody).bind fun tag _ => ?_
  cases tag with
  | none => exact .pure trivial
  | some tag =>
    refine .fields_bind hcut Brackets.areMarks_members fun members => ?_
    refine (Pursues.expectKind .ident _).bind fun name _ => ?_
    exact (Pursues.expect (by decide) _).bind fun _ _ => .pure trivial

theorem pursues_typedef (hcut : start.IsCut) (draft : Draft) :
    Pursues start (fun _ => True) (typedef draft) := by
  refine Pursues.next.bind fun kind _ => .ite (pursues_typedefEnum draft) ?_
  refine .ite (pursues_typedefStruct hcut draft) (.ite (.pure trivial) ?_)
  refine Pursues.next.bind fun name _ => .ite (.pure trivial) (.ite ?_ (.pure trivial))
  exact (Pursues.read fun _ => .peek).bind fun token _ => .ite (.pure trivial) (.pure trivial)

theorem pursues_function (hcut : start.IsCut) (draft : Draft) :
    Pursues start (fun _ => True) (function draft) := by
  refine Pursues.next.bind fun convention _ => .ite (.pure trivial) ?_
  refine (Pursues.expectKind .ident _).bind fun name _ => ?_
  refine (Pursues.expect (by decide) _).bind fun _ _ => ?_
  refine (Pursues.read fun _ => .peek).bind fun first _ => ?_
  refine (Pursues.read fun _ => .peekSecond).bind fun second _ => ?_
  extract_lets header ending
  have hending (parameters : List Field) : Pursues start (fun _ => True) (ending parameters) :=
    (Pursues.expect (by decide) _).bind fun _ _ => .pure trivial
  refine .ite ?_ ?_
  · refine Pursues.next.bind fun _ _ => Pursues.next.bind fun _ _ => ?_
    exact (Pursues.pure (P := fun _ => True) trivial).bind fun parameters _ => hending parameters
  · exact .fields_bind hcut Brackets.areMarks_parameters hending

theorem pursues_interface (hcut : start.IsCut) (draft : Draft) :
    Pursues start (fun _ => True) (interface draft) := by
  refine (Pursues.expectKind .ident _).bind fun name _ => ?_
  refine Pursues.next.bind fun token ht => .ite (.pure trivial) (.check ht (by decide) ?_)
  exact .fields_bind hcut Brackets.areMarks_members fun members => .pure trivial

theorem pursues_declaration (hcut : start.IsCut) (draft : Draft) (keyword : Token) :
    Pursues start (fun _ => True) (declaration draft keyword) := by
  unfold declaration
  split
  · exact pursues_directive draft
  · exact pursues_interfaceGuid draft
  · exact pursues_typedef hcut draft
  · exact pursues_function hcut draft
  · exact pursues_interface hcut draft
  · exact .pure trivial

/-- The declarations of a header answer for their errors, however many there are. -/
theorem pursues_declarations (hcut : start.IsCut) (bound : Nat) (draft : Draft) :
    Pursues start (fun _ => True) (declarations bound draft) := by
  induction bound generalizing draft with
  | zero => exact .pure trivial
  | succ bound ih =>
    refine (Pursues.read fun _ => .peek).bind fun token _ => .ite (.pure trivial) ?_
    refine Pursues.next.bind fun keyword _ => ?_
    exact (pursues_declaration hcut draft keyword).bind fun draft _ => ih draft

/-! ## Whole headers -/

/-- Reading the tokens of a header fails with a syntax error only at one of them. -/
theorem headerOfCursor_syntaxError (hcut : start.IsCut) {strict : Bool} {s s' : Session}
    {e : SyntaxError} (h : (headerOfCursor strict start).run s = (.error (.grammar e), s')) :
    ∃ token, Accuses start e token := by
  have hdeclarations := pursues_declarations hcut (start.ahead.length + 1) ⟨.empty start.file, [], []⟩
  rw [headerOfCursor, run_bind] at h
  rcases hread : (declarations (start.ahead.length + 1) ⟨.empty start.file, [], []⟩ start).run s with
    ⟨f | ⟨draft, c⟩, s₁⟩ <;> rw [hread] at h
  · cases h
    exact hdeclarations.error start s e _ (.refl start) hread
  · have hend : IsSettled (do
        checkGuids strict draft
        report [summary draft.finish]
        Pure.pure draft.finish : InSession Header) :=
      (IsSettled.checkGuids strict draft).bind fun _ => (IsSettled.report _).bind fun _ => .pure _
    exact absurd h (hend s₁ e s')

/-- What a syntax error of a header is about. -/
inductive PointsInto (file source : String) (e : SyntaxError) : Prop where
  /-- The source cannot be cut into tokens, and the error is at its first stray character. -/
  | stray {before : List Char} {c : Char} (hfirst : Lexer.FirstStray source.toList before c)
      (he : e = Lexer.strayError file (Lexer.placeAfter before) c)
  /-- The error is at one of the tokens that have been cut from the source. -/
  | token {start : Cursor} {token : Token}
      (htokens : (Lexer.lex file source).tokens? = .ok start.tokens)
      (hstart : Cursor.ofTokens? file start.tokens = some start)
      (hslice : token.IsSliceOf source.toList) (haccuses : Accuses start e token)

/-- **Syntax errors point into the header.**  A syntax error names the header.  It is at the first
character that starts no token and shows it, or it is at a token of the header, where the source has
the text that the error shows or, at the end, has come to its end.  Only where the receiver of a
function pointer is missing, the error shows what stands in its place, at the first token of the
parameters. -/
theorem readHeader_syntaxError {strict : Bool} {file source : String} {session : Session}
    {e : SyntaxError} (h : (readHeader strict file source session).1 = .error (.grammar e)) :
    e.file = file ∧ PointsInto file source e := by
  unfold readHeader header at h
  cases hlexed : (Lexer.lex file source).tokens? with
  | error e' =>
    rw [hlexed] at h
    cases h
    have hfailure : (Lexer.lex file source).failure = some e := by
      unfold Lexer.Lexed.tokens? at hlexed
      split at hlexed <;> cases hlexed
      assumption
    obtain ⟨before, c, hfirst, he⟩ := Lexer.lexFrom_failure_eq_some_iff.mp hfailure
    rw [Lexer.start_after] at he
    exact ⟨congrArg SyntaxError.file he, .stray hfirst he⟩
  | ok tokens =>
    obtain ⟨body, eof, rfl, heof, -⟩ := isTokenized_of_tokens? hlexed
    have hstart := Cursor.ofTokens?_concat file body heof
    rw [hlexed] at h
    dsimp only at h
    rw [hstart] at h
    obtain ⟨token, haccuses⟩ :=
      headerOfCursor_syntaxError (code_of_ofTokens? hlexed hstart).1 (Prod.ext h rfl)
    have htokens : (Lexer.lex file source).tokens? = .ok (Cursor.tokens ⟨file, [], body, eof⟩) := hlexed
    have hslice := Lexer.isSliceOf_of_tokens? htokens haccuses.mem
    exact ⟨haccuses.file, .token htokens hstart hslice haccuses⟩

/-- A method whose first parameter is another one: the error is at the type of that parameter and shows
its name. -/
theorem readHeader_syntaxError_receiver :
    (readHeader false "a.h" "typedef struct T\x7b\nHRESULT(*Get)(\nint n);\x7dT;" .start).1 =
        .error (.grammar ⟨"a.h", 3, 1, "This", "n", "first parameter of Get"⟩) ∧
      PointsInto "a.h" "typedef struct T\x7b\nHRESULT(*Get)(\nint n);\x7dT;"
        ⟨"a.h", 3, 1, "This", "n", "first parameter of Get"⟩ := by
  have hfails : (match (readHeader false "a.h" "typedef struct T\x7b\nHRESULT(*Get)(\nint n);\x7dT;"
        .start).1 with
      | .error (.grammar e) => decide (e = ⟨"a.h", 3, 1, "This", "n", "first parameter of Get"⟩)
      | _ => false) = true := by
    decide +kernel
  split at hfails
  · rename_i e hread
    rw [of_decide_eq_true hfails] at hread
    exact ⟨hread, (readHeader_syntaxError hread).2⟩
  · cases hfails

end SdkBindings.Grammar
