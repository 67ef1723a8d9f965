import SdkBindings.Proofs.Expression.Operands
import SdkBindings.Proofs.Expression.WellFormed

/-!
# Operands that are missing before a closing parenthesis

The end of an expression is checked for a missing operand, the end of a group is not.  So what has a
postfix form is not only a sentence, but whatever the lenient machine of `Sentence` accepts
(`exists_toPostfix_iff`), and the number of operands that are missing shows in the balance of the
form.  With any missing the form does not fit the stack: where no operand and no operator fails first,
its evaluation ends with one and the same error, whatever the constants are (`exists_misfit`).
-/

namespace SdkBindings.Constant

open Postfix

/-! ## Reading what the lenient machine accepts -/

/-- An operand is read with nothing that ends an operator in front. -/
theorem SpellsOperand.opensOperand {text : String} {ts : List Token} (h : SpellsOperand text ts)
    (rest : List Token) : ∀ u ∈ (ts ++ rest).head?, OpensOperand u.text :=
  (Expression.Spells.operand .nil h).opensOperand rest

/-- In the place of an operand no token is the second half of an operator. -/
theorem AcceptsWithout.opensOperand {n depth : Nat} {tokens : List Token}
    (h : AcceptsWithout n depth true tokens) : ∀ u ∈ tokens.head?, OpensOperand u.text := by
  cases h with
  | @sign _ _ op t rest ht _ =>
    rintro u ⟨⟩
    exact ht.2 ▸ opensOperand_sign op
  | operand hoperand _ => exact hoperand.opensOperand _
  | opening ht _ =>
    rintro u ⟨⟩
    exact ht.2 ▸ ⟨'(', [], by decide⟩
  | missing ht _ =>
    rintro u ⟨⟩
    exact ht.2 ▸ ⟨')', [], by decide⟩

namespace Postfix.State

/-- An open group can be closed. -/
theorem exists_closeGroup {s : State} (h : s.groups ≠ 0) : ∃ s', s.closeGroup = .ok s' := by
  obtain ⟨-, hzero⟩ | ⟨below, hbelow, -⟩ := dropWhile_ne_group s.stack
  · exact absurd hzero h
  · have hstack : (s.release (· ≠ .group)).stack = .group :: below := hbelow
    unfold closeGroup
    simp only [hstack]
    exact ⟨_, rfl⟩

/-- A binary operator is taken where no operand is expected. -/
theorem operator_binary {s : State} (hs : s.expectsOperand = false) (op : BinaryOp) :
    s.operator op.text = .ok { s.release (Waiting.isReleasedBy op.precedence) with
      stack := .binary op :: (s.release (Waiting.isReleasedBy op.precedence)).stack
      expectsOperand := true } := by
  have hne : op.text ≠ "(" ∧ op.text ≠ ")" := by cases op <;> decide
  have hpunctuation := punctuation_binary hs op
  rwa [State.punctuation, if_neg hne.1, if_neg hne.2] at hpunctuation

end Postfix.State

/-- **Reading.**  What the lenient machine accepts is read to the end of an expression, and the
surplus loses what is missing. -/
theorem AcceptsWithout.read {n depth : Nat} {expects : Bool} {tokens : List Token}
    (h : AcceptsWithout n depth expects tokens) {s : State} (hs : s.expectsOperand = expects)
    (hdepth : s.groups = depth) {previous : Option Token}
    (hprev : expects = true → ∀ p ∈ previous, p.kind ≠ .number) :
    ∃ s', Postfix.read s previous tokens = .ok s' ∧ s'.expectsOperand = false ∧ s'.groups = 0 ∧
      s'.surplus = s.surplus - n := by
  -- a parenthesis that closes is read alike whether an operand is missing before it or not
  have hclose {s : State} {depth : Nat} {t : Token} {rest : List Token} (ht : t.IsPunctuation ")")
      (hdepth : s.groups = depth + 1) (previous : Option Token) :
      ∃ s₁, Postfix.read s previous (t :: rest) = Postfix.read s₁ (some t) rest ∧
        s₁.expectsOperand = false ∧ s₁.groups = depth ∧
        s₁.surplus = s.surplus - if s.expectsOperand then 1 else 0 := by
    obtain ⟨s₁, hclosed⟩ := State.exists_closeGroup (s := s) (by omega)
    obtain ⟨hafter, hgroups, hsurplus⟩ := State.closeGroup_ok hclosed
    have hpair : ∀ u ∈ rest.head?, twoTokenOperators.contains (t.text ++ u.text) = false :=
      fun u _ => ht.2 ▸ not_pairs_close u.text
    refine ⟨s₁, ?_, hafter, by omega, hsurplus⟩
    rw [read_punct ht.1 hpair, ht.2]
    show s.closeGroup.bind _ = _
    rw [hclosed]
    rfl
  induction h generalizing s previous with
  | done => exact ⟨s, by rw [Postfix.read], hs, hdepth, by omega⟩
  | @sign n depth op t rest ht hrest ih =>
    have hpair : ∀ u ∈ rest.head?, twoTokenOperators.contains (t.text ++ u.text) = false :=
      fun u hu => ht.2 ▸ not_pairs_of_opens op.char (hrest.opensOperand u hu)
    rw [read_punct ht.1 hpair, ht.2, punctuation_sign hs, Except.bind]
    refine ih (s := { s with pending := s.pending ++ [op] }) hs hdepth fun _ => ?_
    rintro p ⟨⟩
    simp [ht.1]
  | @operand n depth text ts rest hoperand _ ih =>
    obtain ⟨last, hread⟩ := hoperand.read hs (hprev rfl) rest
    have hstep : s.operand text =
        .ok ⟨s.output ++ [.operand (Expression.signedText s.pending text)], s.stack, false, []⟩ :=
      if_pos hs
    obtain ⟨-, hafter, hgroups, hsurplus⟩ := State.operand_ok hstep
    rw [hread, ← hsurplus]
    exact ih hafter (hgroups.trans hdepth) (absurd · Bool.false_ne_true)
  | @opening n depth t rest ht hrest ih =>
    have hpair : ∀ u ∈ rest.head?, twoTokenOperators.contains (t.text ++ u.text) = false :=
      fun u hu => ht.2 ▸ not_pairs_of_opens '(' (hrest.opensOperand u hu)
    have hopened := Expression.punctuation_open hs
    obtain ⟨-, hafter, hgroups, hsurplus⟩ := State.openGroup_ok (show s.openGroup = _ from hopened)
    rw [read_punct ht.1 hpair, ht.2, hopened, Except.bind, ← hsurplus]
    refine ih hafter (by omega) fun _ => ?_
    rintro p ⟨⟩
    simp [ht.1]
  | closing ht _ ih =>
    obtain ⟨s₁, hread, hafter, hgroups, hsurplus⟩ := hclose ht hdepth previous
    rw [hs, if_neg Bool.false_ne_true] at hsurplus
    obtain ⟨s', hrest, hdone, hclosed, hlost⟩ := ih hafter hgroups (absurd · Bool.false_ne_true)
    exact ⟨s', hread.trans hrest, hdone, hclosed, by omega⟩
  | missing ht _ ih =>
    obtain ⟨s₁, hread, hafter, hgroups, hsurplus⟩ := hclose ht hdepth previous
    rw [hs, if_pos rfl] at hsurplus
    obtain ⟨s', hrest, hdone, hclosed, hlost⟩ := ih hafter hgroups (absurd · Bool.false_ne_true)
    exact ⟨s', hread.trans hrest, hdone, hclosed, by omega⟩
  | @operator n depth op os rest ho hrest ih =>
    obtain ⟨last, hlast, hread⟩ := ho.read hs previous rest hrest.opensOperand
    obtain ⟨hafter, hgroups, hsurplus, -⟩ := State.operator_ok (State.operator_binary hs op)
    rw [hread, ← hsurplus]
    exact ih hafter (hgroups.trans hdepth) fun _ => hlast

/-! ## What has a postfix form -/

/-- What the lenient machine accepts has a postfix form, and its balance says how many operands are
missing. -/
theorem AcceptsWithout.toPostfix {n : Nat} {tokens : List Token}
    (h : AcceptsWithout n 0 true tokens) :
    ∃ items, Constant.toPostfix tokens = .ok items ∧ balance items = 1 - n := by
  have hfirst : true = true → ∀ p ∈ (none : Option Token), p.kind ≠ .number := by
    rintro - p ⟨⟩
  obtain ⟨s, hread, hdone, hclosed, hlost⟩ := h.read (s := .start) rfl rfl hfirst
  have hgroup : s.stack.contains Waiting.group = false := by
    rw [Bool.eq_false_iff, ne_eq, List.contains_iff_mem]
    exact List.count_eq_zero.mp hclosed
  refine ⟨s.whole, ?_, ?_⟩
  · rw [Constant.toPostfix, hread]
    show s.finish = _
    simp only [State.finish, hdone, hgroup, Bool.false_eq_true, if_false, s.release_all.1]
  · simp [State.surplus, hdone, State.start, State.whole] at hlost ⊢
    omega

/-- **Postfix forms.**  The tokens that have a postfix form are those that the lenient machine accepts. -/
theorem exists_toPostfix_iff {tokens : List Token} (htokens : ∀ t ∈ tokens, t.IsGiven) :
    (∃ items, toPostfix tokens = .ok items) ↔ ∃ n, AcceptsWithout n 0 true tokens := by
  constructor
  · rintro ⟨items, hitems⟩
    obtain ⟨n, -, haccepts⟩ := accepts_of_toPostfix htokens hitems
    exact ⟨n, haccepts⟩
  · rintro ⟨n, haccepts⟩
    obtain ⟨items, hitems, -⟩ := haccepts.toPostfix
    exact ⟨items, hitems⟩

/-- The sentences are what the lenient machine accepts without an operand missing. -/
theorem sentence_iff_accepts {tokens : List Token} (htokens : ∀ t ∈ tokens, t.IsGiven) :
    Sentence tokens ↔ AcceptsWithout 0 0 true tokens := by
  refine ⟨fun hsentence => ?_, fun haccepts => haccepts.accepts.sentence⟩
  obtain ⟨items, hitems, hheight⟩ := hsentence.toPostfix
  obtain ⟨n, hbalance, haccepts⟩ := accepts_of_toPostfix htokens hitems
  have hone := balance_of_heightAfter hheight
  obtain rfl : n = 0 := by omega
  exact haccepts

/-- Tokens without a postfix form are of a kind that is left alone. -/
theorem unsupported_of_toPostfix {tokens : List Token} {e : Error} (h : toPostfix tokens = .error e) :
    e.class = .unsupported := by
  have hentries := @toPostfix_entries (fun _ => True) tokens
    ⟨fun _ _ _ _ => trivial, fun _ => trivial, fun _ => trivial⟩
  rwa [h] at hentries

/-- **Missing operands.**  Tokens that lack operands have a postfix form that never has a value. -/
theorem AcceptsWithout.exists_misfit {n : Nat} {tokens : List Token}
    (h : AcceptsWithout (n + 1) 0 true tokens) :
    ∃ items e, Constant.toPostfix tokens = .ok items ∧ e.IsMisfit ∧
      ∀ symbols, ∃ e', evaluatePostfix symbols items = .error e' ∧
        (e' = e ∨ Arises symbols items e') := by
  obtain ⟨items, hitems, hbalance⟩ := h.toPostfix
  have hheight : heightAfter items 0 ≠ some 1 := by
    intro hone
    have := balance_of_heightAfter hone
    omega
  obtain ⟨e, hmisfit, hevaluate⟩ := Constant.exists_misfit hheight
  exact ⟨items, e, hitems, hmisfit, hevaluate⟩

end SdkBindings.Constant
