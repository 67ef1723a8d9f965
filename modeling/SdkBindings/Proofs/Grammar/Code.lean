import SdkBindings.Proofs.Comparison.Cursors
import SdkBindings.Proofs.Grammar.Forward
import SdkBindings.Proofs.Lexing.Pieces

/-!
# Reading code

What a reader does on the tokens of code that are ahead, however they are spread over lines:
`Consumes ts m a` says that the reader takes the tokens `ts` and gives `a`, whatever follows them.
Readers in a row consume what each of them consumes (`Consumes.bind`).
-/

namespace SdkBindings

open Lexer (IsPiece)

/-- A piece of a header is a token of code or a line end. -/
theorem Lexer.IsPiece.isCode_or_isBreak {t : Token} (h : IsPiece t) :
    t.isCode = true ∨ t.IsBreak := by
  obtain ⟨c, rest, k, hscan, htext⟩ := h
  by_cases hkind : t.kind = .newline
  · right
    rw [hkind] at hscan
    refine ⟨hkind, ?_⟩
    rcases Lexer.newline_of_scan hscan with ⟨rfl, rfl⟩ | ⟨rfl, hhead, rfl⟩
    · left
      rw [htext, List.take_zero]
    · right
      obtain ⟨tail, rfl⟩ := List.head?_eq_some_iff.mp hhead
      rw [htext]
      rfl
  · left
    have heof : t.kind ≠ .eof := by
      intro heof
      rcases Lexer.scan_eq_some hscan with h | ⟨h, -⟩ | ⟨h, -⟩ | ⟨h, -⟩ | ⟨h, -⟩ | ⟨h, -⟩ <;>
        cases heof.symm.trans h
    simp [Token.isCode, hkind, heof]

namespace Cursor

/-- A read in code mode takes the first token of code. -/
theorem next_of_code {c : Cursor} {t : Token} {rest : List Token} (h : c.code = t :: rest) :
    (c.next .code).1 = t ∧ (c.next .code).2.code = rest := by
  have hcode : (c.settle .code).code = t :: rest := c.code_settle.trans h
  unfold next current advance
  dsimp only
  rw [code] at hcode
  cases hdrop : (c.settle .code).ahead with
  | nil =>
    rw [hdrop] at hcode
    cases hcode
  | cons u us =>
    have hu : u.isLineEnd = false := by
      cases hline : u.isLineEnd with
      | false => rfl
      | true =>
        have hnone := takeWhile_dropWhile Token.isLineEnd c.ahead
        rw [← c.settle_ahead, hdrop, List.takeWhile_cons_of_pos hline] at hnone
        cases hnone
    rw [hdrop, List.filter_cons_of_pos (by rw [hu]; rfl)] at hcode
    exact List.cons.inj hcode

end Cursor

namespace Grammar

open Reader

/-- The reader takes the tokens off the code ahead, whatever follows them, and gives a result. -/
def Consumes {α : Type} (ts : List Token) (m : Reader α) (a : α) : Prop :=
  ∀ c rest, (∀ t ∈ c.ahead, IsPiece t) → c.code = ts ++ rest →
    ∃ c', m c = .ok (a, c') ∧ (∀ t ∈ c'.ahead, IsPiece t) ∧ c'.code = rest

namespace Consumes

variable {α β : Type}

/-- Reading nothing. -/
theorem pure (a : α) : Consumes [] (Pure.pure a) a :=
  fun c _ hpieces hcode => ⟨c, rfl, hpieces, hcode⟩

/-- Readers in a row. -/
theorem bind {ts us : List Token} {m : Reader α} {k : α → Reader β} {a : α} {b : β}
    (hm : Consumes ts m a) (hk : Consumes us (k a) b) : Consumes (ts ++ us) (m >>= k) b := by
  intro c rest hpieces hcode
  rw [List.append_assoc] at hcode
  obtain ⟨c', hfirst, hpieces', hcode'⟩ := hm c (us ++ rest) hpieces hcode
  obtain ⟨c'', hsecond, hafter⟩ := hk c' rest hpieces' hcode'
  refine ⟨c'', ?_, hafter⟩
  show (m c >>= fun p => k p.1 p.2) = _
  rw [hfirst]
  exact hsecond

/-- One token. -/
theorem next (t : Token) : Consumes [t] Reader.next t := by
  intro c rest hpieces hcode
  obtain ⟨hfirst, hrest⟩ := Cursor.next_of_code hcode
  refine ⟨(c.next .code).2, congrArg (fun u => Except.ok (u, _)) hfirst, fun u hu => ?_, hrest⟩
  exact hpieces u ((c.isBefore_next .code).mem_ahead hu)

/-- A token and what is read after it. -/
theorem next_bind {t : Token} {ts : List Token} {k : Token → Reader β} {b : β}
    (hk : Consumes ts (k t) b) : Consumes (t :: ts) (Reader.next >>= k) b :=
  (next t).bind hk

/-- A token that stays ahead, and what is read from it on. -/
theorem peek_bind {t : Token} {ts : List Token} {k : Token → Reader β} {b : β}
    (hk : Consumes (t :: ts) (k t) b) : Consumes (t :: ts) (Reader.peek >>= k) b := by
  intro c rest hpieces hcode
  obtain ⟨hfirst, -⟩ := Cursor.next_of_code hcode
  have hpeek : Reader.peek c = .ok (t, c.settle .code) := congrArg (fun u => Except.ok (u, _)) hfirst
  obtain ⟨c', hread, hafter⟩ := hk (c.settle .code) rest
    (fun u hu => hpieces u ((c.isBefore_settle .code).mem_ahead hu)) (c.code_settle.trans hcode)
  refine ⟨c', ?_, hafter⟩
  show (Reader.peek c >>= fun p => k p.1 p.2) = _
  rw [hpeek]
  exact hread

/-- A token with the text that it has to have. -/
theorem expect {t : Token} {text : String} (h : t.text = text) (context : String) :
    Consumes [t] (Reader.expect text context) t := by
  refine next_bind ?_
  rw [if_pos h]
  exact .pure t

/-- A token of the kind that it has to be of. -/
theorem expectKind {t : Token} {kind : Token.Kind} (h : t.kind = kind) (context : String) :
    Consumes [t] (Reader.expectKind kind context) t := by
  refine next_bind ?_
  rw [if_pos h]
  exact .pure t

end Consumes

/-! ## Expressions of constants -/

/-- The end of an expression of a constant, given the tokens of the expression. -/
def expressionEnd (ident : String) (expression : List Token) : Reader (List Token × Token) := do
  let context := "value of enum field " ++ ident
  let token ← next
  if token.kind = .eof then fail token "\x7d" context
  if expression = [] then fail token "expression" context
  pure (expression, token)

/-- The expression of a constant is what stands before a comma or a closing brace. -/
theorem enumExpression_apply (ident : String) (c : Cursor) :
    enumExpression ident c =
      expressionEnd ident
        ((c.ahead.takeWhile fun t => !endsExpression t).filter fun t => !t.isLineEnd)
        { c with
          passed := (c.ahead.takeWhile fun t => !endsExpression t).reverse ++ c.passed
          ahead := c.ahead.drop (c.ahead.takeWhile fun t => !endsExpression t).length } :=
  rfl

/-- A line end ends no expression of a constant. -/
theorem not_endsExpression_of_isBreak {e : Token} (h : e.IsBreak) : (!endsExpression e) = true := by
  unfold endsExpression
  rcases h.2 with htext | htext <;> rw [htext] <;> decide

end Grammar

end SdkBindings
