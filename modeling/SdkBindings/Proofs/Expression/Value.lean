import SdkBindings.Proofs.Expression.Reading

/-!
# The value of a written expression

Every spelling of a layered expression evaluates to the tree's own number, or fails with the tree's
own error (`evaluatePostfix_toPostfix`).  `Reading` brings the spelling into the postfix order of
the tree, and running that order on any stack leaves the number of the tree on top of it
(`Expression.run_postfixItems`), one case of the induction for each kind of node.
-/

namespace SdkBindings.Constant

/-! ## Operands and unary operators -/

/-- An operand starts with no unary operator. -/
theorem ofChar?_eq_none {c : Char} (hc : c ∉ ['<', '>', '|', '&', '=', '-', '+', '~', '!']) :
    UnaryOp.ofChar? c = none := by
  rcases hop : UnaryOp.ofChar? c with _ | op
  · rfl
  · exfalso
    rw [UnaryOp.eq_char_of_ofChar? hop] at hc
    cases op <;> exact hc (by decide)

/-- The unary operators in front of an operand are split off again. -/
theorem splitUnary_signedText {c : Char} {rest : List Char} (hc : UnaryOp.ofChar? c = none)
    (signs : List UnaryOp) :
    splitUnary (signs.map UnaryOp.char ++ c :: rest) = (signs, c :: rest) := by
  induction signs with
  | nil => simp [splitUnary, hc]
  | cons op signs ih => simp [splitUnary, UnaryOp.ofChar?_char, ih]

/-- The number of an operand with unary operators in front of it. -/
theorem SpellsOperand.operandValue_signedText {text : String} {ts : List Token}
    (h : SpellsOperand text ts) (symbols : SymbolTable) (signs : List UnaryOp) :
    operandValue symbols (Expression.signedText signs text) =
      (Expression.operand signs text).value symbols := by
  have hoperand : ∃ c rest, text.toList = c :: rest ∧
      c ∉ ['<', '>', '|', '&', '=', '-', '+', '~', '!'] := by
    cases h with
    | bare ht => exact exists_of_isOperand ht
    | suffixed ht _ _ _ _ => exact exists_of_isOperand ht
  obtain ⟨c, rest, htext, hnot⟩ := hoperand
  have hlist : (Expression.signedText signs text).toList = signs.map UnaryOp.char ++ c :: rest := by
    rw [Expression.signedText, String.toList_append, String.toList_ofList, htext]
  rw [operandValue, Expression.value, hlist, splitUnary_signedText (ofChar?_eq_none hnot), htext]

/-- A unary operator is recognised by the text that writes it. -/
theorem UnaryOp.ofText_char (op : UnaryOp) : UnaryOp.ofText op.char.toString = op := by
  cases op <;> decide

/-- Of two chains in a row the inner one applies first. -/
theorem applyUnary_append (outer inner : List UnaryOp) (x : Number) :
    applyUnary (outer ++ inner) x = (applyUnary inner x).bind (applyUnary outer) := by
  induction outer with
  | nil =>
    rw [List.nil_append]
    cases applyUnary inner x <;> rfl
  | cons op outer ih =>
    rw [List.cons_append, applyUnary, ih]
    cases applyUnary inner x <;> rfl

/-- Unary operators that waited for a group apply to the number of the group one after the other, in
the order in which they were written. -/
theorem run_signs (symbols : SymbolTable) (signs : List UnaryOp) (x : Number)
    (stack : List Number) (items : List Item) :
    run symbols ((signs.map Postfix.Waiting.unary).filterMap Postfix.Waiting.item? ++ items)
        (x :: stack) =
      (applyUnary signs.reverse x).bind fun y => run symbols items (y :: stack) := by
  induction signs generalizing x with
  | nil => rfl
  | cons op signs ih =>
    have hone : applyUnary [op] x = op.apply x := rfl
    rw [List.reverse_cons, applyUnary_append, hone]
    show run symbols (Item.unary op.char.toString ::
      ((signs.map Postfix.Waiting.unary).filterMap Postfix.Waiting.item? ++ items)) (x :: stack) = _
    rw [run, Item.step, UnaryOp.ofText_char]
    cases op.apply x with
    | error e => rfl
    | ok y => exact ih y

/-! ## Running the postfix form -/

/-- **Running an expression.**  The postfix form of a tree leaves the number of the tree on top of
the stack it started with, or fails as the tree does. -/
theorem Expression.Spells.run_postfixItems {e : Expression} {tokens : List Token}
    (h : e.Spells tokens) (symbols : SymbolTable) (items : List Item) (stack : List Number) :
    run symbols (e.postfixItems ++ items) stack =
      (e.value symbols).bind fun x => run symbols items (x :: stack) := by
  induction h generalizing items stack with
  | @operand signs text us ts _ ht =>
    rw [postfixItems, List.singleton_append, run, Item.step,
      ht.operandValue_signedText symbols signs]
    cases (Expression.operand signs text).value symbols <;> rfl
  | @group sign body us ts o c _ _ _ _ ih =>
    rw [postfixItems, List.append_assoc, ih, value]
    cases body.value symbols with
    | error e => rfl
    | ok x =>
      have hsingle : sign.toList.reverse = sign.toList := by cases sign <;> rfl
      show run symbols (_ ++ items) (x :: stack) = _
      rw [run_signs, hsingle]
      rfl
  | @binary op left right ls os rs _ _ _ ihl ihr =>
    rw [postfixItems, List.append_assoc, List.append_assoc, ihl, value]
    cases left.value symbols with
    | error e => rfl
    | ok x =>
      show run symbols (right.postfixItems ++ ([Item.binary op.text] ++ items)) (x :: stack) = _
      rw [ihr]
      cases right.value symbols with
      | error e => rfl
      | ok y =>
        show run symbols (Item.binary op.text :: items) (y :: x :: stack) =
          (op.apply x y).bind fun z => run symbols items (z :: stack)
        simp only [run, Item.step, BinaryOp.ofText?_text]
        cases op.apply x y <;> rfl

/-- A spelling evaluates to the number of its tree, or fails as the tree does. -/
theorem Expression.Spells.evaluate_tokens {e : Expression} {tokens : List Token} (h : e.Spells tokens)
    (he : e.IsLayered) (symbols : SymbolTable) :
    (toPostfix tokens).bind (evaluatePostfix symbols) = e.value symbols := by
  have hrun := h.run_postfixItems symbols [] []
  rw [List.append_nil] at hrun
  rw [toPostfix_spells h he, Except.bind, evaluatePostfix, hrun]
  cases e.value symbols <;> rfl

/-- Tokens without a literal between quotation marks have the value of their number. -/
theorem evaluate_eq_numberValue {symbols : SymbolTable} {tokens : List Token} {x : Number}
    (hkinds : ∀ t ∈ tokens, t.kind ≠ .string)
    (hvalue : (toPostfix tokens).bind (evaluatePostfix symbols) = .ok x) :
    evaluate symbols tokens = .ok (numberValue x (Token.join tokens)) := by
  have hstring : stringLiteral? tokens = .ok none := by
    have hnone : ¬ tokens.any (·.kind = .string) = true := by
      intro hany
      obtain ⟨t, ht, hkind⟩ := List.any_eq_true.mp hany
      exact hkinds t ht (of_decide_eq_true hkind)
    exact if_neg hnone
  rw [evaluate, hstring]
  show ((toPostfix tokens).bind fun items => (evaluatePostfix symbols items).bind fun x =>
    .ok (numberValue x (Token.join tokens))) = _
  cases hitems : toPostfix tokens with
  | error e =>
    rw [hitems] at hvalue
    cases hvalue
  | ok items =>
    rw [hitems] at hvalue
    rw [Except.bind, show evaluatePostfix symbols items = .ok x from hvalue, Except.bind]

/-- **Written expressions have the value of their tree.**  For every layered tree, every spelling of
it and every table of symbols, evaluating the tokens gives the number of the tree or its error. -/
theorem evaluatePostfix_toPostfix {e : Expression} (he : e.IsLayered) {tokens : List Token}
    (h : e.Spells tokens) (symbols : SymbolTable) :
    (toPostfix tokens).bind (evaluatePostfix symbols) = e.value symbols :=
  h.evaluate_tokens he symbols

/-- The tokens of `~(1 | 8) >` and, on the next line, `> 2UL == 3 | | -4`. -/
def spreadTokens : List Token :=
  [⟨.punct, "~", 1, 1⟩, ⟨.punct, "(", 1, 2⟩, ⟨.number, "1", 1, 3⟩, ⟨.punct, "|", 1, 5⟩,
    ⟨.number, "8", 1, 7⟩, ⟨.punct, ")", 1, 8⟩, ⟨.punct, ">", 1, 10⟩, ⟨.punct, ">", 2, 1⟩,
    ⟨.number, "2", 2, 3⟩, ⟨.ident, "UL", 2, 4⟩, ⟨.punct, "=", 2, 7⟩, ⟨.punct, "=", 2, 8⟩,
    ⟨.number, "3", 2, 10⟩, ⟨.punct, "|", 2, 12⟩, ⟨.punct, "|", 2, 14⟩, ⟨.punct, "-", 2, 16⟩,
    ⟨.number, "4", 2, 17⟩]

/-- The tree they write: the logical operator binds tightest, the shift loosest. -/
def spreadTree : Expression :=
  .binary .shiftRight
    (.group (some .complement) (.binary .bitOr (.operand [] "1") (.operand [] "8")))
    (.binary .eq (.operand [] "2") (.binary .or (.operand [] "3") (.operand [.neg] "4")))

theorem isOperand_number (line column : Nat) {c : Char} {rest : List Char}
    (hc : Text.isDecimalDigit c = true) :
    Token.IsOperand ⟨.number, String.ofList (c :: rest), line, column⟩ :=
  ⟨c, rest, String.toList_ofList, .inl ⟨rfl, .inl hc⟩⟩

theorem spreadTree_spells : spreadTree.Spells spreadTokens := by
  have hdigit (line column : Nat) (d : Char) (h : Text.isDecimalDigit d = true) :
      SpellsOperand (String.ofList [d]) [⟨.number, String.ofList [d], line, column⟩] :=
    .bare (isOperand_number line column h)
  have hgroup : Expression.Spells (.binary .bitOr (.operand [] "1") (.operand [] "8"))
      [⟨.number, "1", 1, 3⟩, ⟨.punct, "|", 1, 5⟩, ⟨.number, "8", 1, 7⟩] :=
    .binary (.operand .nil (hdigit 1 3 '1' (by decide +kernel)))
      (.one '|' (by decide) ⟨rfl, by decide⟩) (.operand .nil (hdigit 1 7 '8' (by decide +kernel)))
  have hcount : SpellsOperand "2" [⟨.number, "2", 2, 3⟩, ⟨.ident, "UL", 2, 4⟩] :=
    .suffixed (show Token.IsOperand ⟨.number, String.ofList ['2'], 2, 3⟩ from
      isOperand_number 2 3 (by decide +kernel)) rfl rfl (by decide) (by decide)
  have hneg : SpellsSigns [.neg] [⟨.punct, "-", 2, 16⟩] := .cons ⟨rfl, by decide⟩ .nil
  have hcomplement : SpellsSigns (some UnaryOp.complement).toList [⟨.punct, "~", 1, 1⟩] :=
    .cons ⟨rfl, by decide⟩ .nil
  exact .binary (.group hcomplement ⟨rfl, rfl⟩ hgroup ⟨rfl, rfl⟩)
    (.two '>' '>' (by decide) ⟨rfl, by decide⟩ ⟨rfl, by decide⟩)
    (.binary (.operand .nil hcount) (.two '=' '=' (by decide) ⟨rfl, by decide⟩ ⟨rfl, by decide⟩)
      (.binary (.operand .nil (hdigit 2 10 '3' (by decide +kernel)))
        (.two '|' '|' (by decide) ⟨rfl, by decide⟩ ⟨rfl, by decide⟩)
        (.operand hneg (hdigit 2 17 '4' (by decide +kernel)))))

/-- A spelling over two lines with a suffix, a group and a logical operator written apart. -/
theorem evaluatePostfix_toPostfix_spread :
    spreadTree.IsLayered ∧ spreadTree.Spells spreadTokens ∧
      (toPostfix spreadTokens).bind (evaluatePostfix .empty) = .ok (.int 4294967286) :=
  ⟨by decide, spreadTree_spells,
    (evaluatePostfix_toPostfix (by decide) spreadTree_spells .empty).trans (by rfl)⟩

end SdkBindings.Constant
