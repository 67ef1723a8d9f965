import SdkBindings.Grammar.Headers
import SdkBindings.Module.Generate
import SdkBindings.Proofs.Expression.Value
import SdkBindings.Proofs.Formula.Emission

/-!
# Constants that are negative

A constant whose number is negative is kept as it was written and given to the generated module as an
expression.  That expression is read by the levels of the generated language, and its operators work on
integers of any size (`assignment_formula`).  It is worth the number of the constant where the header
groups the expression alike and every operator fits its numbers.  Otherwise it need not be: in a header
comparisons bind tighter than disjunctions (`assignment_formula_regrouped`).
-/

namespace SdkBindings

open Constant Generated SdkBindings.Module

/-- A constant that is kept as it was written is bound to its expression, if there is one and it uses no
unknown names. -/
theorem Module.assignment_ofRaw {raw text : String} {w : Written}
    (hexpression : expression raw = .ok text) (hnonempty : text ≠ "") (hknown : unknownNames w.values text = []) (name : String) :
    (assignment name (.ofRaw raw)).run w =
      (.ok (.bind name text), { w with values := addName name w.values }) := by
  have hunresolved : (Value.ofRaw raw).isResolved = false := rfl
  have hraw : expression (Value.ofRaw raw).raw = .ok text := hexpression
  have hbound : ¬ (text = "" ∨ unknownNames w.values text ≠ []) := by
    simp [hnonempty, hknown]
  rw [assignment, hunresolved, if_neg Bool.false_ne_true, hraw]
  dsimp only
  rw [run_bind]
  show (if text = "" ∨ unknownNames w.values text ≠ [] then _ else _ : Writing Line).run w = _
  rw [if_neg hbound]
  rfl

namespace Formula

variable {f : Formula} {tokens : List Token}

/-- The expression is worth in a header what the tokens evaluate to there. -/
theorem Spells.evaluate_postfix (h : f.Spells tokens) (hlayered : f.expression.IsLayered)
    (symbols : SymbolTable) :
    (toPostfix tokens).bind (evaluatePostfix symbols) = f.expression.value symbols :=
  h.expression.evaluate_tokens hlayered symbols

/-- A formula whose number is negative is kept as it was written. -/
theorem Spells.evaluate (h : f.Spells tokens) {symbols : SymbolTable} {n : Int}
    (hvalue : (toPostfix tokens).bind (evaluatePostfix symbols) = .ok (.int n)) (hn : n < 0) :
    Constant.evaluate symbols tokens = .ok (.ofRaw (Token.join tokens)) := by
  have hkinds : ∀ t ∈ tokens, t.kind ≠ .string := by
    intro t ht
    rcases h.kinds t ht with h | h | h <;> simp [h]
  have hnumber (raw : String) : numberValue (.int n) raw = .ofRaw raw := by
    have hsmall : ¬ (0 ≤ n ∧ n ≤ 0xFFFFFFFF) := by omega
    simp [numberValue, Value.ofUInt32?, hsmall]
  rw [evaluate_eq_numberValue hkinds hvalue, hnumber]

/-- A formula that is kept as it was written is bound to a text of its symbols. -/
theorem Spells.assignment (h : f.Spells tokens) (name : String) (w : Written) :
    ∃ text, Renders f.symbols text ∧
      (Module.assignment name (.ofRaw (Token.join tokens))).run w =
        (.ok (.bind name (String.ofList text)), { w with values := addName name w.values }) := by
  obtain ⟨text, hexpression, hrenders⟩ := h.expression_join
  refine ⟨text, hrenders, assignment_ofRaw hexpression ?_ ?_ name⟩
  · intro hempty
    have hread := hrenders.symbols? f.separated_symbols
    rw [String.ofList_eq_empty_iff.mp hempty, symbols?] at hread
    exact f.symbols_ne_nil (Option.some.inj hread).symm
  · rw [unknownNames, hrenders.referencedNames]
    rfl

end Formula

namespace Module

/-- **Negative constants.**  A formula whose number is negative is kept as it was written and bound to
an expression of the generated language, which is worth what the symbols of the formula are worth there.
This is the formula's value on integers where the levels of that language give back the formula, and it
is the number of the constant if the levels of the header give back the formula as well and every
operator fits its numbers. -/
theorem assignment_formula {f : Formula} {tokens : List Token} (h : f.Spells tokens)
    {symbols : SymbolTable} {n : Int}
    (hvalue : (toPostfix tokens).bind (evaluatePostfix symbols) = .ok (.int n)) (hn : n < 0)
    (name : String) (w : Written) :
    ∃ text, Constant.evaluate symbols tokens = .ok (.ofRaw (Token.join tokens)) ∧
      (assignment name (.ofRaw (Token.join tokens))).run w =
        (.ok (.bind name text), { w with values := addName name w.values }) ∧
      valueOf? text = valueFrom none [] f.symbols ∧
      (f.IsLayered → valueOf? text = f.integer?) ∧
      (f.IsLayered → f.expression.IsLayered → f.IsExact → valueOf? text = some n) := by
  obtain ⟨text, hrenders, hline⟩ := h.assignment name w
  have htext := Formula.valueOf?_renders hrenders
  have hinteger (hlayered : f.IsLayered) : valueOf? (String.ofList text) = f.integer? :=
    htext.trans hlayered.valueFrom
  refine ⟨String.ofList text, h.evaluate hvalue hn, hline, htext, hinteger, ?_⟩
  intro hlayered hheader hexact
  obtain ⟨x, hresult, hx⟩ := hexact.value symbols
  have hnumber : (Except.ok (.int n) : Except Constant.Error Number) = .ok (.int x) := by
    rw [← hvalue, h.evaluate_postfix hheader, hx]
  cases hnumber
  rw [hinteger hlayered, hresult]

/-- The tokens of `-( (5U|2) << ~ -2 )`. -/
def shiftedTokens : List Token :=
  [⟨.punct, "-", 1, 11⟩, ⟨.punct, "(", 1, 12⟩, ⟨.punct, "(", 1, 14⟩, ⟨.number, "5", 1, 15⟩,
    ⟨.ident, "U", 1, 16⟩, ⟨.punct, "|", 1, 17⟩, ⟨.number, "2", 1, 18⟩, ⟨.punct, ")", 1, 19⟩,
    ⟨.punct, "<", 1, 21⟩, ⟨.punct, "<", 1, 22⟩, ⟨.punct, "~", 1, 24⟩, ⟨.punct, "-", 1, 26⟩,
    ⟨.number, "2", 1, 27⟩, ⟨.punct, ")", 1, 29⟩]

/-- The formula they write: 7 is shifted by 1 and the result is negated. -/
def shiftedFormula : Formula :=
  .group (some .negative) (.word .shiftLeft (.group none (.word .bitOr (.number [] 5) (.number [] 2)))
    (.number [.complement, .negative] 2))

theorem shiftedFormula_spells : shiftedFormula.Spells shiftedTokens := by
  have hfive : SpellsNumber 5 [⟨.number, "5", 1, 15⟩, ⟨.ident, "U", 1, 16⟩] :=
    .suffixed rfl (by decide) rfl (by decide) (by decide)
  have htwo (column : Nat) : SpellsNumber 2 [⟨.number, "2", 1, column⟩] :=
    .bare rfl (show "2" = toString 2 by decide)
  have hor : SpellsTight WordOp.bitOr.binary.text [⟨.punct, "|", 1, 17⟩] :=
    .one '|' (by decide) (by decide) ⟨rfl, by decide⟩
  have hshift : SpellsTight WordOp.shiftLeft.binary.text [⟨.punct, "<", 1, 21⟩, ⟨.punct, "<", 1, 22⟩] :=
    .two '<' '<' (by decide) (by decide) (by decide) ⟨rfl, by decide⟩ ⟨rfl, by decide⟩ (by decide)
  have hopening (column : Nat) : Token.IsPunctuation ⟨.punct, "(", 1, column⟩ "(" := ⟨rfl, rfl⟩
  have hclosing (column : Nat) : Token.IsPunctuation ⟨.punct, ")", 1, column⟩ ")" := ⟨rfl, rfl⟩
  have hseven : Formula.Spells (.word .bitOr (.number [] 5) (.number [] 2)) _ :=
    .word (.number .nil hfive) hor (.number .nil (htwo 18))
  have hcount : Formula.Spells (.number [.complement, .negative] 2) _ :=
    .number (.cons (t := ⟨.punct, "~", 1, 24⟩) ⟨rfl, by decide⟩
      (.cons (t := ⟨.punct, "-", 1, 26⟩) ⟨rfl, by decide⟩ .nil)) (htwo 27)
  have hunsigned : SpellsSigns ((none : Option Sign).toList.map Sign.unary) [] := .nil
  have hsign : SpellsSigns ((some Sign.negative).toList.map Sign.unary) [⟨.punct, "-", 1, 11⟩] :=
    .cons ⟨rfl, by decide⟩ .nil
  exact .group hsign (hopening 12)
    (.word (.group hunsigned (hopening 14) hseven (hclosing 19)) hshift hcount) (hclosing 29)

theorem shiftedFormula_exact : shiftedFormula.IsExact := by
  have hseven : Int.lor 5 2 = 7 := by
    decide
  simp [shiftedFormula, Formula.IsExact, Formula.SignsFit, Sign.Fits, WordOp.Fits, SdkBindings.IsWord,
    Formula.integer?, Formula.signed, Generated.sign, effect?, hseven]

/-- A shift by a number under two signs, with a suffix that is dropped. -/
theorem assignment_formula_shifted :
    Constant.evaluate .empty shiftedTokens = .ok (.ofRaw "-( (5U|2) << ~ -2 )") ∧
      (assignment "X" (.ofRaw "-( (5U|2) << ~ -2 )")).run .start =
        (.ok (.bind "X" "-( (5 |2) << ~ -2 )"), { Written.start with values := ["X"] }) ∧
      valueOf? "-( (5 |2) << ~ -2 )" = some (-14) := by
  have hraw : Token.join shiftedTokens = "-( (5U|2) << ~ -2 )" := by
    decide +kernel
  have hnumber : (toPostfix shiftedTokens).bind (evaluatePostfix .empty) = .ok (.int (-14)) :=
    (shiftedFormula_spells.evaluate_postfix (by decide) .empty).trans (by rfl)
  obtain ⟨text, hvalue, hline, -, -, hagree⟩ :=
    assignment_formula shiftedFormula_spells hnumber (by decide) "X" .start
  have hexpression : expression "-( (5U|2) << ~ -2 )" = .ok "-( (5 |2) << ~ -2 )" := by
    decide +kernel
  have hwritten := assignment_ofRaw (w := .start) hexpression (by decide) (by decide +kernel) "X"
  rw [hraw] at hvalue hline
  cases hline.symm.trans hwritten
  exact ⟨hvalue, hwritten, hagree (by decide) (by decide) shiftedFormula_exact⟩

/-- In a header the comparison binds tighter than the disjunction, in the generated language it does
not: the constant is -1, its expression 0. -/
theorem assignment_formula_regrouped :
    (Grammar.readHeader true "test.h" "#define X -(1 | 2 == 2)\n" .start).1.toOption.map Header.macros =
        some [⟨"X", .ofRaw "-(1 | 2 == 2)"⟩] ∧
      (∃ tokens, Lexer.codeTokens "-(1 | 2 == 2)" = .ok tokens ∧
        (toPostfix tokens).bind (evaluatePostfix .empty) = .ok (.int (-1))) ∧
      (assignment "X" (.ofRaw "-(1 | 2 == 2)")).run .start =
        (.ok (.bind "X" "-(1 | 2 == 2)"), { Written.start with values := ["X"] }) ∧
      valueOf? "-(1 | 2 == 2)" = some 0 := by
  have htokens : Lexer.codeTokens "-(1 | 2 == 2)" = .ok
      [⟨.punct, "-", 1, 1⟩, ⟨.punct, "(", 1, 2⟩, ⟨.number, "1", 1, 3⟩, ⟨.punct, "|", 1, 5⟩,
        ⟨.number, "2", 1, 7⟩, ⟨.punct, "=", 1, 9⟩, ⟨.punct, "=", 1, 10⟩, ⟨.number, "2", 1, 12⟩,
        ⟨.punct, ")", 1, 13⟩] := by
    decide +kernel
  refine ⟨by decide +kernel, ⟨_, htokens, by rfl⟩, ?_, by decide +kernel⟩
  exact assignment_ofRaw (by decide +kernel) (by decide) (by decide +kernel) "X"

end Module

end SdkBindings
