import SdkBindings.Proofs.Enumeration.Values
import SdkBindings.Proofs.Grammar.Code
import SdkBindings.Proofs.Grammar.Statement

/-!
# Reading the body of an enumeration

A body is a list of constants with commas between them and possibly one behind them
(`IsBody`).  If no expression stops the run, an enumeration with such a body is read to its constants
with their values, and the constants whose values are known are known afterwards
(`typedefEnum_values`).

Reading and valuing go hand in hand, constant by constant, so the induction is on the body, for any
constants known before it.
-/

namespace SdkBindings.Grammar

open Reader
open Lexer (IsPiece)

/-! ## Bodies -/

/-- The tokens of a constant: its name, and its expression behind an equality sign if it has one. -/
inductive IsConstant : BodyConstant → List Token → Prop
  /-- A constant without an expression. -/
  | bare {name : Token} (hname : name.kind = .ident) : IsConstant ⟨name.text, none⟩ [name]
  /-- A constant with an expression. -/
  | valued {name equals : Token} {tokens : List Token} (hname : name.kind = .ident)
      (hequals : equals.text = "=") (hne : tokens ≠ [])
      (hends : ∀ t ∈ tokens, t.text ≠ "," ∧ t.text ≠ "\x7d") :
      IsConstant ⟨name.text, some tokens⟩ (name :: equals :: tokens)

/-- The tokens of a body up to its closing brace. -/
inductive IsBody : List BodyConstant → List Token → Prop
  /-- No constant is left. -/
  | empty {close : Token} (hclose : close.text = "\x7d") : IsBody [] [close]
  /-- The last constant has no comma behind it. -/
  | last {k : BodyConstant} {ts : List Token} {close : Token} (hk : IsConstant k ts)
      (hclose : close.text = "\x7d") : IsBody [k] (ts ++ [close])
  /-- A comma stands behind a constant. -/
  | more {k : BodyConstant} {rest : List BodyConstant} {ts us : List Token} {comma : Token}
      (hk : IsConstant k ts) (hcomma : comma.text = ",") (hrest : IsBody rest us) :
      IsBody (k :: rest) (ts ++ comma :: us)

/-- A constant has a token. -/
theorem IsConstant.length_pos {k : BodyConstant} {ts : List Token} (h : IsConstant k ts) :
    0 < ts.length := by
  cases h <;> exact Nat.succ_pos _

/-- A body has more tokens than constants. -/
theorem IsBody.length_lt {constants : List BodyConstant} {body : List Token}
    (h : IsBody constants body) : constants.length < body.length := by
  induction h with
  | empty => exact Nat.one_pos
  | last hk =>
    have hpos := hk.length_pos
    rw [List.length_append]
    show 1 < _ + 1
    omega
  | more hk _ _ ih =>
    rw [List.length_append, List.length_cons, List.length_cons]
    omega

/-! ## Reading one constant -/

/-- A word is no brace. -/
theorem text_ne_brace {t : Token} (h : IsPiece t) (hkind : t.kind = .ident) : t.text ≠ "\x7d" := by
  intro htext
  obtain ⟨c, rest, hc, ⟨hk, -⟩ | ⟨-, hstart⟩ | ⟨hk, -⟩⟩ :=
    Lexer.isOperand_of_isPiece h (.inr (.inl hkind))
  · cases hkind.symm.trans hk
  · rw [htext] at hc
    obtain ⟨rfl, -⟩ := List.cons.inj hc
    exact absurd hstart (by decide)
  · cases hkind.symm.trans hk

/-- The front part of the code ahead is the code of the front part of what is ahead, if line ends
belong to the class. -/
theorem filter_takeWhile {p q : Token → Bool} {ts : List Token}
    (h : ∀ t ∈ ts, q t = false → p t = true) :
    (ts.takeWhile p).filter q = (ts.filter q).takeWhile p ∧
      (ts.dropWhile p).filter q = (ts.filter q).dropWhile p := by
  induction ts with
  | nil => exact ⟨rfl, rfl⟩
  | cons t ts ih =>
    obtain ⟨ht, hts⟩ := List.forall_mem_cons.mp h
    obtain ⟨htake, hdrop⟩ := ih hts
    cases hq : q t with
    | false => simp [hq, ht hq, htake, hdrop]
    | true => by_cases hp : p t <;> simp [hq, hp, htake, hdrop]

/-- The expression of a constant is read up to what ends it. -/
theorem consumes_enumExpression {tokens : List Token} (hne : tokens ≠ [])
    (hends : ∀ t ∈ tokens, t.text ≠ "," ∧ t.text ≠ "\x7d") {separator : Token}
    (hseparator : separator.text = "," ∨ separator.text = "\x7d") (ident : String) :
    Consumes (tokens ++ [separator]) (enumExpression ident) (tokens, separator) := by
  intro c rest hpieces hcode
  rw [List.append_assoc, List.singleton_append] at hcode
  have hmem : separator ∈ c.ahead := by
    have hmem : separator ∈ c.code := by
      rw [hcode]
      exact List.mem_append_right tokens List.mem_cons_self
    exact (List.mem_filter.mp hmem).1
  have heof : separator.kind ≠ .eof := by
    intro heof
    rcases (hpieces separator hmem).isCode_or_isBreak with h | h
    · simp [Token.isCode, heof] at h
    · cases heof.symm.trans h.1
  have hlines : ∀ t ∈ c.ahead, (!t.isLineEnd) = false → (!endsExpression t) = true := by
    intro t ht hline
    rcases (hpieces t ht).isCode_or_isBreak with h | h
    · simp [Token.isLineEnd_of_isCode h] at hline
    · exact not_endsExpression_of_isBreak h
  have hgo : ∀ t ∈ tokens, (!endsExpression t) = true := by
    intro t ht
    simp [endsExpression, hends t ht]
  have hstop : endsExpression separator = true := by
    rcases hseparator with h | h <;> simp [endsExpression, h]
  obtain ⟨htake, hdrop⟩ := filter_takeWhile hlines
  rw [show c.ahead.filter _ = tokens ++ separator :: rest from hcode,
    List.takeWhile_append_of_pos hgo, List.takeWhile_cons_of_neg (by simp [hstop]),
    List.append_nil] at htake
  rw [show c.ahead.filter _ = tokens ++ separator :: rest from hcode,
    List.dropWhile_append_of_pos hgo, List.dropWhile_cons_of_neg (by simp [hstop])] at hdrop
  have hend : Consumes [separator] (expressionEnd ident tokens) (tokens, separator) := by
    refine Consumes.next_bind ?_
    rw [if_neg heof, if_neg hne]
    exact .pure _
  rw [enumExpression_apply, htake, drop_length_takeWhile]
  exact hend _ rest (fun t ht => hpieces t ((List.dropWhile_sublist _).subset ht)) hdrop

/-- A constant is read with what ends it. -/
theorem consumes_writtenEnumerator {k : BodyConstant} {ts : List Token} (hk : IsConstant k ts)
    (hpieces : ∀ t ∈ ts, IsPiece t) {separator : Token}
    (hseparator : separator.text = "," ∨ separator.text = "\x7d") (enum : String) :
    Consumes (ts ++ [separator]) (writtenEnumerator enum)
      (some ⟨k.ident, k.expression, separator.text = "\x7d"⟩) := by
  cases hk with
  | @bare name hname =>
    refine Consumes.next_bind ?_
    rw [if_neg (text_ne_brace (hpieces name List.mem_cons_self) hname)]
    dsimp only
    rw [if_neg (not_not_intro hname)]
    refine Consumes.next_bind ?_
    have hequals : separator.text ≠ "=" := by
      rcases hseparator with h | h <;> rw [h] <;> decide
    have hends : endsExpression separator = true := by
      rcases hseparator with h | h <;> simp [endsExpression, h]
    rw [if_neg hequals, if_pos hends]
    exact .pure _
  | @valued name equals tokens hname hequals hne hends =>
    refine Consumes.next_bind ?_
    rw [if_neg (text_ne_brace (hpieces name List.mem_cons_self) hname)]
    dsimp only
    rw [if_neg (not_not_intro hname)]
    refine Consumes.next_bind ?_
    rw [if_pos hequals]
    show Consumes (tokens ++ [separator]) _ _
    rw [← List.append_nil (tokens ++ [separator])]
    exact (consumes_enumExpression hne hends hseparator name.text).bind (.pure _)

/-- Behind the last constant and its comma there is none. -/
theorem consumes_close {close : Token} (h : close.text = "\x7d") (enum : String) :
    Consumes [close] (writtenEnumerator enum) none := by
  refine Consumes.next_bind ?_
  rw [if_pos h]
  exact .pure none

/-! ## Valuing one constant -/

section

variable {s : Session} {tokens : List Token}

/-- An expression that does not stop the run has a value or keeps its text. -/
theorem run_expressionValue (h : ∀ e, Constant.evaluate s.symbols tokens = .error e →
      e.class = .unsupported) :
    ∃ log, (expressionValue tokens).run s =
      (.ok (spelledValue s.symbols tokens), { s with log := log }) := by
  have hsymbols : (expressionValue tokens).run s =
      (do
        let value ← evaluated (Constant.notes s.symbols tokens) (Constant.evaluate s.symbols tokens)
          fun e => debug ("Keeping raw enum value " ++ Text.quote (Token.join tokens) ++ ": " ++ e.message)
        pure (value.getD (.ofRaw (Token.join tokens))) : InSession Value).run s := rfl
  rw [hsymbols]
  unfold spelledValue evaluated
  cases hvalue : Constant.evaluate s.symbols tokens with
  | ok value => exact ⟨_, rfl⟩
  | error e =>
    dsimp only
    rw [if_pos (h e hvalue)]
    exact ⟨_, rfl⟩

/-- A value that has been found becomes known if it is resolved. -/
theorem run_define (ident : String) (value : Value) (s : Session) :
    ∃ s', (do
        if value.isResolved then define ident value
        pure value : InSession Value).run s = (.ok value, s') ∧
      s'.symbols = knownWith s.symbols ⟨ident, value⟩ := by
  unfold knownWith
  by_cases hresolved : value.isResolved = true
  · rw [if_pos hresolved, if_pos hresolved]
    exact ⟨_, rfl, rfl⟩
  · rw [if_neg hresolved, if_neg hresolved]
    exact ⟨_, rfl, rfl⟩

/-- A constant whose expression does not stop the run gets its value, and is known if the value
is. -/
theorem run_enumeratorValue {k : BodyConstant} (previous : Option Value) (isLast : Bool)
    (h : ∀ tokens ∈ k.expression, ∀ e, Constant.evaluate s.symbols tokens = .error e →
      e.class = .unsupported) :
    ∃ s', (enumeratorValue previous ⟨k.ident, k.expression, isLast⟩).run s =
        (.ok (constantValue s.symbols previous k), s') ∧
      s'.symbols = knownWith s.symbols ⟨k.ident, constantValue s.symbols previous k⟩ := by
  obtain ⟨ident, expression⟩ := k
  cases expression with
  | none =>
    have hvalue : followingValue previous = constantValue s.symbols previous ⟨ident, none⟩ := by
      cases previous <;> rfl
    rw [← hvalue]
    exact run_define ident (followingValue previous) s
  | some tokens =>
    obtain ⟨log, hrun⟩ := run_expressionValue (h tokens rfl)
    obtain ⟨s', hdefine, hsymbols⟩ :=
      run_define ident (spelledValue s.symbols tokens) { s with log := log }
    refine ⟨s', ?_, hsymbols⟩
    have hbind : (enumeratorValue previous ⟨ident, some tokens, isLast⟩).run s =
        (expressionValue tokens >>= fun value => do
          if value.isResolved then define ident value
          pure value : InSession Value).run s := rfl
    rw [hbind, run_bind, hrun]
    exact hdefine

end

/-! ## Reading a body -/

/-- No expression of the constants stops the run: what cannot be evaluated, given the constants
before, is of a kind that is left alone. -/
def IsUnfailing (table : SymbolTable) (previous : Option Value) (constants : List BodyConstant) :
    Prop :=
  ∀ i k, constants[i]? = some k → ∀ tokens ∈ k.expression, ∀ e,
    Constant.evaluate (((valued table previous constants).take i).foldl knownWith table) tokens =
      .error e → e.class = .unsupported

/-- No expression stops the run from the first constant on. -/
theorem IsUnfailing.head {table : SymbolTable} {previous : Option Value} {k : BodyConstant}
    {rest : List BodyConstant} (h : IsUnfailing table previous (k :: rest)) :
    ∀ tokens ∈ k.expression, ∀ e, Constant.evaluate table tokens = .error e →
      e.class = .unsupported :=
  h 0 k rfl

/-- Behind the first constant no expression stops the run. -/
theorem IsUnfailing.tail {table : SymbolTable} {previous : Option Value} {k : BodyConstant}
    {rest : List BodyConstant} (h : IsUnfailing table previous (k :: rest)) :
    IsUnfailing (knownWith table ⟨k.ident, constantValue table previous k⟩)
      (some (constantValue table previous k)) rest :=
  fun i k hk => h (i + 1) k hk

/-- A statement goes on behind its first part. -/
theorem exec_bind {α β : Type} {m : Statement α} {k : α → Statement β} {c c' : Cursor}
    {s s' : Session} {a : α} (h : m.exec c s = (.ok (a, c'), s')) :
    (m >>= k).exec c s = (k a).exec c' s' := by
  show (m c >>= fun p => k p.1 p.2).run s = _
  rw [run_bind, show (m c).run s = _ from h]
  rfl

/-- The constants of a body are read with their values, and those are known afterwards whose values
are. -/
theorem exec_enumerators {constants : List BodyConstant} {body : List Token}
    (hbody : IsBody constants body) (enum : String) {bound : Nat} {previous : Option Value}
    {c : Cursor} {s : Session} {rest : List Token} (hpieces : ∀ t ∈ c.ahead, IsPiece t)
    (hcode : c.code = body ++ rest) (hbound : constants.length < bound)
    (hfatal : IsUnfailing s.symbols previous constants) :
    ∃ c' s', (enumerators enum bound previous).exec c s =
        (.ok (valued s.symbols previous constants, c'), s') ∧
      (∀ t ∈ c'.ahead, IsPiece t) ∧ c'.code = rest ∧
      s'.symbols = (valued s.symbols previous constants).foldl knownWith s.symbols := by
  -- the tokens of a constant are pieces because they are ahead
  have hahead {c : Cursor} {ts us : List Token} (hpieces : ∀ t ∈ c.ahead, IsPiece t)
      (hcode : c.code = ts ++ us) : ∀ t ∈ ts, IsPiece t := by
    intro t ht
    have hmem : t ∈ c.code := hcode ▸ List.mem_append_left us ht
    exact hpieces t (List.mem_filter.mp hmem).1
  induction hbody generalizing bound previous c s with
  | empty hclose =>
    cases bound with
    | zero => exact absurd hbound (Nat.not_lt_zero _)
    | succ bound =>
      obtain ⟨c', hread, hpieces', hcode'⟩ := consumes_close hclose enum c rest hpieces hcode
      refine ⟨c', s, ?_, hpieces', hcode', rfl⟩
      rw [enumerators, exec_bind (exec_read_ok.mpr ⟨hread, rfl⟩)]
      rfl
  | @last k ts close hk hclose =>
    cases bound with
    | zero => exact absurd hbound (Nat.not_lt_zero _)
    | succ bound =>
      rw [List.append_assoc] at hcode
      obtain ⟨c', hread, hpieces', hcode'⟩ := consumes_writtenEnumerator hk (hahead hpieces hcode)
        (.inr hclose) enum c rest hpieces (hcode.trans (List.append_assoc ..).symm)
      obtain ⟨s', hrun, hsymbols⟩ := run_enumeratorValue previous _ hfatal.head
      refine ⟨c', s', ?_, hpieces', hcode', hsymbols⟩
      rw [enumerators, exec_bind (exec_read_ok.mpr ⟨hread, rfl⟩)]
      dsimp only
      rw [exec_bind (exec_lift_ok.mpr ⟨hrun, rfl⟩), if_pos (decide_eq_true hclose)]
      rfl
  | @more k constants ts us comma hk hcomma _ ih =>
    cases bound with
    | zero => exact absurd hbound (Nat.not_lt_zero _)
    | succ bound =>
      rw [List.append_assoc, List.cons_append] at hcode
      obtain ⟨c₁, hread, hpieces₁, hcode₁⟩ := consumes_writtenEnumerator hk (hahead hpieces hcode)
        (.inl hcomma) enum c (us ++ rest) hpieces (by rw [hcode, List.append_assoc]; rfl)
      obtain ⟨s₁, hrun, hsymbols⟩ := run_enumeratorValue previous _ hfatal.head
      have hfatal₁ := hfatal.tail
      rw [← hsymbols] at hfatal₁
      obtain ⟨c', s', hrest, hafter⟩ := ih hpieces₁ hcode₁ (Nat.lt_of_succ_lt_succ hbound) hfatal₁
      rw [hsymbols] at hrest hafter
      refine ⟨c', s', ?_, hafter⟩
      have hlast : ¬ decide (comma.text = "\x7d") = true := by
        rw [hcomma]
        decide
      rw [enumerators, exec_bind (exec_read_ok.mpr ⟨hread, rfl⟩)]
      dsimp only
      rw [exec_bind (exec_lift_ok.mpr ⟨hrun, rfl⟩), if_neg hlast, exec_bind hrest]
      rfl

/-! ## Reading an enumeration -/

/-- The tokens that open a body: a brace, possibly behind a tag. -/
def IsOpening (tokens : List Token) : Prop :=
  ∃ brace, brace.text = "\x7b" ∧
    (tokens = [brace] ∨ ∃ tag, tag.text ≠ "\x7b" ∧ tokens = [tag, brace])

/-- A body is opened. -/
theorem consumes_openBody {opening : List Token} (h : IsOpening opening) :
    ∃ tag, Consumes opening openBody (some tag) := by
  obtain ⟨brace, hbrace, rfl | ⟨tag, htag, rfl⟩⟩ := h
  · refine ⟨brace, Consumes.next_bind ?_⟩
    rw [if_pos hbrace]
    exact .pure _
  · refine ⟨tag, Consumes.next_bind ?_⟩
    rw [if_neg htag]
    refine Consumes.peek_bind ?_
    rw [if_pos hbrace]
    exact Consumes.next_bind (.pure _)

/-- A body with what closes the enumeration is read. -/
theorem exec_enumeration {constants : List BodyConstant} {body : List Token}
    (hbody : IsBody constants body) (tag : String) {c : Cursor} {s : Session}
    (hpieces : ∀ t ∈ c.ahead, IsPiece t) {rest : List Token} {name semicolon : Token}
    (hcode : c.code = body ++ (name :: semicolon :: rest)) (hname : name.kind = .ident)
    (hsemicolon : semicolon.text = ";") (hfatal : IsUnfailing s.symbols none constants) :
    ∃ c' s', (enumeration tag).exec c s =
        (.ok (⟨name.text, valued s.symbols none constants⟩, c'), s') ∧
      c'.code = rest ∧
      s'.symbols = (valued s.symbols none constants).foldl knownWith s.symbols := by
  have hbound : constants.length < c.ahead.length + 1 := by
    have hlength := hbody.length_lt
    have hle : c.code.length ≤ c.ahead.length := List.length_filter_le _ _
    rw [hcode, List.length_append] at hle
    omega
  obtain ⟨c₁, s', hlist, hpieces₁, hcode₁, hsymbols⟩ :=
    exec_enumerators hbody tag hpieces hcode hbound hfatal
  have hahead : (read ahead).exec c s = (.ok (c.ahead.length, c), s) :=
    exec_read_ok.mpr ⟨rfl, rfl⟩
  obtain ⟨c₂, hread₂, hpieces₂, hcode₂⟩ :=
    Consumes.expectKind hname "enum name" c₁ (semicolon :: rest) hpieces₁ hcode₁
  obtain ⟨c₃, hread₃, -, hcode₃⟩ :=
    Consumes.expect hsemicolon ("end of enum " ++ name.text) c₂ rest hpieces₂ hcode₂
  refine ⟨c₃, s', ?_, hcode₃, hsymbols⟩
  rw [enumeration, exec_bind hahead, exec_bind hlist, exec_bind (exec_read_ok.mpr ⟨hread₂, rfl⟩),
    exec_bind (exec_read_ok.mpr ⟨hread₃, rfl⟩)]
  rfl

/-- **Values of constants.**  An enumeration whose expressions do not stop the run is read to its
constants with their values, however it is spread over lines.  Those whose values are known are
known afterwards, and constants without expressions count up. -/
theorem typedefEnum_values (draft : Draft) (s : Session) {c : Cursor}
    (hpieces : ∀ t ∈ c.ahead, IsPiece t) {opening body rest : List Token} {name semicolon : Token}
    (hcode : c.code = opening ++ (body ++ (name :: semicolon :: rest)))
    (hopening : IsOpening opening) {constants : List BodyConstant} (hbody : IsBody constants body)
    (hname : name.kind = .ident) (hsemicolon : semicolon.text = ";")
    (hfatal : IsUnfailing s.symbols none constants) :
    ∃ list c' s',
      (typedefEnum draft).exec c s =
          (.ok ({ draft with header := { draft.header with
            enums := draft.header.enums ++ [⟨name.text, list⟩] } }, c'), s') ∧
        c'.code = rest ∧ IsValuation s.symbols none constants list ∧ CountsUp constants list ∧
        s'.symbols = list.foldl knownWith s.symbols := by
  obtain ⟨tag, hopen⟩ := consumes_openBody hopening
  obtain ⟨c₁, hread₁, hpieces₁, hcode₁⟩ := hopen c _ hpieces hcode
  obtain ⟨c', s', henum, hcode', hsymbols⟩ := exec_enumeration hbody
    (if tag.text = "\x7b" then "" else tag.text) hpieces₁ hcode₁ hname hsemicolon hfatal
  refine ⟨valued s.symbols none constants, c', s', ?_, hcode', isValuation_valued _ _ _,
    countsUp_valued _ _ _, hsymbols⟩
  rw [typedefEnum, exec_bind (exec_read_ok.mpr ⟨hread₁, rfl⟩)]
  dsimp only
  rw [exec_bind henum]
  rfl

/-- A constant right below the largest number, and two that follow it, on two lines. -/
theorem typedefEnum_values_crossing :
    let tokens := (Lexer.lex "a.h" "\x7b A = 4294967294, B,\nC, \x7d E;").tokens
    let c : Cursor := ⟨"a.h", [], tokens.dropLast, ⟨.eof, "", 2, 8⟩⟩
    let constants : List BodyConstant :=
      [⟨"A", some [⟨.number, "4294967294", 1, 7⟩]⟩, ⟨"B", none⟩, ⟨"C", none⟩]
    ∃ list c' s',
      (typedefEnum ⟨.empty "a.h", [], []⟩).exec c .start =
          (.ok (⟨{ Header.empty "a.h" with enums := [⟨"E", list⟩] }, [], []⟩, c'), s') ∧
        c'.code = [] ∧ IsValuation .empty none constants list ∧ CountsUp constants list ∧
        s'.symbols = list.foldl knownWith .empty := by
  intro tokens c constants
  have hpieces : ∀ t ∈ c.ahead, IsPiece t := by
    intro t ht
    have hcode : ∀ t ∈ c.ahead, t.kind ≠ .eof := by decide +kernel
    rcases Lexer.isPiece_of_mem_lexFrom ((List.dropLast_sublist _).subset ht) with hpiece | ⟨heof, -⟩
    · exact hpiece
    · exact absurd heof (hcode t ht)
  let body : List Token :=
    [⟨.ident, "A", 1, 3⟩, ⟨.punct, "=", 1, 5⟩, ⟨.number, "4294967294", 1, 7⟩] ++
      ⟨.punct, ",", 1, 17⟩ :: ([⟨.ident, "B", 1, 19⟩] ++
      ⟨.punct, ",", 1, 20⟩ :: ([⟨.ident, "C", 2, 1⟩] ++
      ⟨.punct, ",", 2, 2⟩ :: [⟨.punct, "\x7d", 2, 4⟩]))
  have hcode : c.code = [⟨.punct, "\x7b", 1, 1⟩] ++
      (body ++ (⟨.ident, "E", 2, 6⟩ :: ⟨.punct, ";", 2, 7⟩ :: [])) := by
    decide +kernel
  have hfirst : IsConstant ⟨"A", some [⟨.number, "4294967294", 1, 7⟩]⟩
      [⟨.ident, "A", 1, 3⟩, ⟨.punct, "=", 1, 5⟩, ⟨.number, "4294967294", 1, 7⟩] :=
    @IsConstant.valued ⟨.ident, "A", 1, 3⟩ ⟨.punct, "=", 1, 5⟩ _ rfl rfl (by decide) (by decide)
  have hbody : IsBody constants body :=
    .more hfirst rfl (.more (@IsConstant.bare ⟨.ident, "B", 1, 19⟩ rfl) rfl
      (.more (@IsConstant.bare ⟨.ident, "C", 2, 1⟩ rfl) rfl (.empty rfl)))
  have hopening : IsOpening [⟨.punct, "\x7b", 1, 1⟩] := ⟨_, rfl, .inl rfl⟩
  have hfatal : IsUnfailing Session.start.symbols none constants := by
    intro i k hk tokens htokens e he
    rcases i with _ | _ | _ | i
    · obtain rfl := Option.some.inj hk
      obtain rfl := Option.some.inj htokens
      have hok : (Constant.evaluate .empty [⟨.number, "4294967294", 1, 7⟩]).isOk = true := by
        decide +kernel
      rw [show Constant.evaluate .empty [⟨.number, "4294967294", 1, 7⟩] = .error e from he] at hok
      cases hok
    · obtain rfl := Option.some.inj hk
      cases htokens
    · obtain rfl := Option.some.inj hk
      cases htokens
    · cases hk
  exact typedefEnum_values ⟨.empty "a.h", [], []⟩ .start hpieces hcode hopening hbody rfl rfl hfatal

end SdkBindings.Grammar
