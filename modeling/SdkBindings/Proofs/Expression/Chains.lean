import SdkBindings.Proofs.Expression.Value

/-!
# Chains of unary operators

A chain of unary operators in front of a bare operand stays with its text, and the operator nearest
the operand applies first.  In front of a parenthesis the chain waits on the stack instead and is
released from the top, where its first operator lies, so the farthest applies first
(`evaluate_chained_group`).  The two agree where reading the chain backwards makes no difference to
the operand (`evaluate_chain`); that is so for every operand if the operators apart from `+` read the
same in both directions (`applyUnary_reverse`).
-/

namespace SdkBindings.Constant

open Postfix

/-! ## Groups -/

/-- The postfix form of a group under a chain. -/
theorem toPostfix_chained_group {body : Expression} (he : body.IsLayered) {ts : List Token}
    (hbody : body.Spells ts) {signs : List UnaryOp} {us : List Token} (hs : SpellsSigns signs us)
    {o c : Token} (ho : o.IsPunctuation "(") (hc : c.IsPunctuation ")") :
    toPostfix (us ++ o :: (ts ++ [c])) =
      .ok (body.postfixItems ++ (signs.map Waiting.unary).filterMap Waiting.item?) := by
  have hfirst : ∀ p ∈ (none : Option Token), p.kind ≠ .number := by
    rintro p ⟨⟩
  have ho' : ∀ p ∈ some o, p.kind ≠ .number := by
    rintro p ⟨⟩
    simp [ho.1]
  have hinside := hbody.read he [] (shields_group body.level (signs.map Waiting.unary ++ [])) ho' [c]
  obtain ⟨last, hread⟩ :=
    Expression.read_group hs ho hbody hc he (shields_nil 0) hfirst [] hinside
  rw [List.append_nil] at hread
  simp only [toPostfix, State.start, hread, Postfix.read]
  show Except.ok ([] ++ (body.postfixItems ++
    (signs.map Waiting.unary).filterMap Waiting.item?) ++ []) = _
  rw [List.nil_append, List.append_nil]

/-- **Groups under a chain.**  The operators of a chain in front of a group apply to the number of
the group in the order in which they are written: the one farthest from the group first. -/
theorem evaluate_chained_group {body : Expression} (he : body.IsLayered) {ts : List Token}
    (hbody : body.Spells ts) {signs : List UnaryOp} {us : List Token} (hs : SpellsSigns signs us)
    {o c : Token} (ho : o.IsPunctuation "(") (hc : c.IsPunctuation ")") (symbols : SymbolTable) :
    (toPostfix (us ++ o :: (ts ++ [c]))).bind (evaluatePostfix symbols) =
      (body.value symbols).bind (applyUnary signs.reverse) := by
  have hbodyRun := hbody.run_postfixItems symbols
    ((signs.map Waiting.unary).filterMap Waiting.item?) []
  rw [toPostfix_chained_group he hbody hs ho hc, Except.bind, evaluatePostfix, hbodyRun]
  cases body.value symbols with
  | error e => rfl
  | ok x =>
    have hsigns := run_signs symbols signs x [] []
    rw [List.append_nil] at hsigns
    show (run symbols _ [x] >>= _) = applyUnary signs.reverse x
    rw [hsigns]
    cases applyUnary signs.reverse x <;> rfl

/-! ## Both directions -/

/-- The sign `+` does nothing in a chain. -/
theorem applyUnary_filter (signs : List UnaryOp) (x : Number) :
    applyUnary (signs.filter (· ≠ .plus)) x = applyUnary signs x := by
  induction signs with
  | nil => rfl
  | cons op signs ih =>
    by_cases hop : op = .plus
    · have hplus : applyUnary (.plus :: signs) x = applyUnary signs x := by
        rw [applyUnary]
        cases applyUnary signs x <;> rfl
      rw [hop, hplus, List.filter_cons_of_neg (by simp), ih]
    · rw [List.filter_cons_of_pos (by simpa using hop), applyUnary, applyUnary, ih]

/-- A chain whose operators apart from `+` read the same backwards does the same backwards. -/
theorem applyUnary_reverse {signs : List UnaryOp}
    (h : (signs.filter (· ≠ .plus)).reverse = signs.filter (· ≠ .plus)) (x : Number) :
    applyUnary signs.reverse x = applyUnary signs x := by
  rw [← applyUnary_filter, List.filter_reverse, h, applyUnary_filter]

/-- **Chains.**  In front of a bare operand the operator nearest to it applies first.  In front of the
operand between parentheses the farthest does.  So the two give the same number, or the same error,
exactly when the chain does to the operand what it does backwards. -/
theorem evaluate_chain {signs : List UnaryOp} {us ts : List Token} {text : String} {o c : Token}
    (hs : SpellsSigns signs us) (ht : SpellsOperand text ts) (ho : o.IsPunctuation "(")
    (hc : c.IsPunctuation ")") (symbols : SymbolTable) :
    let bare := (toPostfix (us ++ ts)).bind (evaluatePostfix symbols)
    let grouped := (toPostfix (us ++ o :: (ts ++ [c]))).bind (evaluatePostfix symbols)
    bare = (bareOperand symbols text.toList).bind (applyUnary signs) ∧
      grouped = (bareOperand symbols text.toList).bind (applyUnary signs.reverse) ∧
      (bare = grouped ↔ ∀ x, bareOperand symbols text.toList = .ok x →
        applyUnary signs x = applyUnary signs.reverse x) := by
  have hbare : (toPostfix (us ++ ts)).bind (evaluatePostfix symbols) =
      (bareOperand symbols text.toList).bind (applyUnary signs) :=
    Expression.Spells.evaluate_tokens (e := .operand signs text) (.operand hs ht) trivial symbols
  have hsingle : (Expression.operand [] text).Spells ts := .operand .nil ht
  have hvalue : (Expression.operand [] text).value symbols = bareOperand symbols text.toList := by
    show (bareOperand symbols text.toList).bind (applyUnary []) = _
    cases bareOperand symbols text.toList <;> rfl
  have hlayered : (Expression.operand [] text).IsLayered := trivial
  have hgrouped := evaluate_chained_group hlayered hsingle hs ho hc symbols
  rw [hvalue] at hgrouped
  refine ⟨hbare, hgrouped, ?_⟩
  simp only [hbare, hgrouped]
  cases bareOperand symbols text.toList with
  | error e => simp [Except.bind]
  | ok x => simp [Except.bind]

/-- The chain `~-` in front of a number: bare it complements the number's negative, in front of the
parenthesis it negates the number's complement. -/
theorem evaluate_chain_complement :
    let us : List Token := [⟨.punct, "~", 1, 1⟩, ⟨.punct, "-", 1, 2⟩]
    let t : Token := ⟨.number, "1", 1, 4⟩
    SpellsSigns [.complement, .neg] us ∧ SpellsOperand "1" [t] ∧
      (toPostfix (us ++ [t])).bind (evaluatePostfix .empty) = .ok (.int 0) ∧
      (toPostfix (us ++ ⟨.punct, "(", 1, 3⟩ :: ([t] ++ [⟨.punct, ")", 1, 5⟩]))).bind
        (evaluatePostfix .empty) = .ok (.int (-4294967294)) := by
  intro us t
  have hsigns : SpellsSigns [.complement, .neg] us :=
    .cons ⟨rfl, by decide⟩ (.cons ⟨rfl, by decide⟩ .nil)
  have hoperand : SpellsOperand "1" [t] := .bare (isOperand_number 1 4 (by decide +kernel))
  have hchain := evaluate_chain (o := ⟨.punct, "(", 1, 3⟩) (c := ⟨.punct, ")", 1, 5⟩) hsigns
    hoperand ⟨rfl, rfl⟩ ⟨rfl, rfl⟩ .empty
  exact ⟨hsigns, hoperand, hchain.1.trans (by rfl), hchain.2.1.trans (by rfl)⟩

/-- `-!0` is -1, but `-!(0)` is 1: between parentheses the operand is negated first. -/
theorem chains_differ :
    ¬ ∀ (signs : List UnaryOp) (us : List Token) (t o c : Token) (symbols : SymbolTable),
      SpellsSigns signs us → t.IsOperand → o.IsPunctuation "(" → c.IsPunctuation ")" →
      (toPostfix (us ++ [t])).bind (evaluatePostfix symbols) =
        (toPostfix (us ++ [o, t, c])).bind (evaluatePostfix symbols) := by
  intro h
  have hsigns : SpellsSigns [.neg, .not] [⟨.punct, "-", 1, 1⟩, ⟨.punct, "!", 1, 2⟩] :=
    .cons ⟨rfl, by decide⟩ (.cons ⟨rfl, by decide⟩ .nil)
  have hequal := h _ _ ⟨.number, "0", 1, 4⟩ ⟨.punct, "(", 1, 3⟩ ⟨.punct, ")", 1, 5⟩ .empty hsigns
    (isOperand_number 1 4 (by decide +kernel)) ⟨rfl, rfl⟩ ⟨rfl, rfl⟩
  have hbare : (toPostfix ([⟨.punct, "-", 1, 1⟩, ⟨.punct, "!", 1, 2⟩] ++
      [⟨.number, "0", 1, 4⟩])).bind (evaluatePostfix .empty) = .ok (.int (-1)) := by rfl
  have hgrouped : (toPostfix ([⟨.punct, "-", 1, 1⟩, ⟨.punct, "!", 1, 2⟩] ++
      [⟨.punct, "(", 1, 3⟩, ⟨.number, "0", 1, 4⟩, ⟨.punct, ")", 1, 5⟩])).bind
        (evaluatePostfix .empty) = .ok (.int 1) := by rfl
  rw [hbare, hgrouped] at hequal
  cases hequal

end SdkBindings.Constant
