import SdkBindings.Proofs.Expression.Missing
import SdkBindings.Proofs.Skipping.Forms

/-!
# Definitions whose body is no expression

A definition whose body is not a sentence declares nothing, if the body is found out before it is
evaluated.  That is the case unless all that is wrong with it are operands missing right before closing
parentheses.  Such a body is evaluated, does not fit the stack, and takes the header with it, unless an
operand of a kind that is left alone comes first (`definition_of_not_sentence`).
-/

namespace SdkBindings

namespace Constant

/-! ## Bodies without a value -/

/-- The tokens are a string literal, possibly after the prefix `L`. -/
def IsStringLiteral (tokens : List Token) : Prop :=
  ∃ token, token.kind = .string ∧
    (tokens = [token] ∨ ∃ first, first.text = "L" ∧ tokens = [first, token])

/-- Tokens that are no string literal are left alone if there is one among them. -/
theorem stringLiteral?_of_not_literal {tokens : List Token} (h : ¬ IsStringLiteral tokens) :
    stringLiteral? tokens = .ok none ∨
      ∃ e, stringLiteral? tokens = .error e ∧ e.class = .unsupported := by
  unfold stringLiteral?
  dsimp only
  split
  · rename_i hstring
    refine .inr ⟨.stringInExpression (Token.join tokens), ?_, rfl⟩
    match tokens, hstring with
    | [token], hstring =>
      have hkind : token.kind = .string := by simpa using hstring
      exact absurd ⟨token, hkind, .inl rfl⟩ h
    | [first, token], _ =>
      have hprefixed : ¬ (first.text = "L" ∧ token.kind = .string) := fun hboth =>
        h ⟨token, hboth.2, .inr ⟨first, hboth.1, rfl⟩⟩
      exact if_neg hprefixed
    | _ :: _ :: _ :: _, _ => rfl
  · exact .inl rfl

/-- A body of the wrong shape is left alone. -/
theorem unsupported_of_macroShape {name : Token} {body : List Token} {e : Error}
    (h : macroShape name body = .error e) : e.class = .unsupported := by
  unfold macroShape at h
  split at h
  · cases h
    rfl
  · split at h
    · cases h
      rfl
    · split at h
      · cases h
        rfl
      · cases h

/-- A body that has no value fails, for its shape or for its error. -/
theorem evaluateMacro_of_error {symbols : SymbolTable} {body : List Token} {e : Error}
    (h : evaluate symbols body = .error e) (name : Token) :
    evaluateMacro symbols name body = (macroShape name body).bind fun _ => .error e := by
  unfold evaluateMacro
  rw [h]
  rfl

/-- A body that is no string literal and has no postfix form is left alone. -/
theorem evaluateMacro_of_toPostfix_error {body : List Token} (hliteral : ¬ IsStringLiteral body)
    {cause : Error} (h : toPostfix body = .error cause) (symbols : SymbolTable) (name : Token) :
    ∃ e, evaluateMacro symbols name body = ((macroShape name body).bind fun _ => .error e) ∧
      e.class = .unsupported := by
  have hevaluate : ∃ e, evaluate symbols body = .error e ∧ e.class = .unsupported := by
    unfold evaluate
    rcases stringLiteral?_of_not_literal hliteral with hnone | ⟨e, herror, hclass⟩
    · refine ⟨cause, ?_, unsupported_of_toPostfix h⟩
      rw [hnone, h]
      rfl
    · refine ⟨e, ?_, hclass⟩
      rw [herror]
      rfl
  obtain ⟨e, he, hclass⟩ := hevaluate
  exact ⟨e, evaluateMacro_of_error he name, hclass⟩

/-- What the lenient machine accepts has no string literals. -/
theorem AcceptsWithout.ne_string {n depth : Nat} {expects : Bool} {tokens : List Token}
    (h : AcceptsWithout n depth expects tokens) : ∀ t ∈ tokens, t.kind ≠ .string := by
  induction h with
  | done => exact nofun
  | sign ht _ ih | opening ht _ ih | closing ht _ ih | missing ht _ ih =>
    exact List.forall_mem_cons.mpr ⟨by simp [ht.1], ih⟩
  | operand hoperand _ ih =>
    refine List.forall_mem_append.mpr ⟨?_, ih⟩
    have hkind {t : Token} (ht : t.IsOperand) : t.kind ≠ .string := by
      obtain ⟨-, -, -, ⟨h, -⟩ | ⟨h, -⟩ | ⟨h, -⟩⟩ := ht <;> simp [h]
    cases hoperand with
    | bare ht => simpa using hkind ht
    | suffixed ht _ hu _ _ => simpa [hu] using hkind ht
  | operator ho _ ih =>
    refine List.forall_mem_append.mpr ⟨?_, ih⟩
    cases ho with
    | one _ _ ht => simp [ht.1]
    | two _ _ _ ht hu => simp [ht.1, hu.1]

/-- A body whose postfix form fails does so too. -/
theorem evaluate_of_evaluatePostfix_error {body : List Token} (hstring : ∀ t ∈ body, t.kind ≠ .string)
    {items : List Item} (hitems : toPostfix body = .ok items) {symbols : SymbolTable} {e : Error}
    (he : evaluatePostfix symbols items = .error e) : evaluate symbols body = .error e := by
  unfold evaluate
  rw [stringLiteral?_eq_none.mpr hstring, hitems]
  show (evaluatePostfix symbols items).bind _ = _
  rw [he]
  rfl

end Constant

namespace Grammar

open Constant (AcceptsWithout Arises IsStringLiteral Sentence)

/-! ## Definitions -/

/-- The tokens define a macro with a body, up to the end of the line. -/
def IsDefinition (name : Token) (body run : List Token) : Prop :=
  ∃ hash word lineEnd, run = hash :: word :: name :: (body ++ [lineEnd]) ∧
    hash.isCode = true ∧ hash.text = "#" ∧ word.text = "define" ∧ word.isLineEnd = false ∧
    name.kind = .ident ∧ (∀ t ∈ body, t.isLineEnd = false) ∧ lineEnd.isLineEnd = true

/-- A definition is left alone for its name, for the shape of its body or for the error of that body. -/
def IsLeftAlone (name : Token) (body : List Token) (e : Constant.Error) : Prop :=
  Rules.isSkippedMacro name.text (body.map Token.text) = true ∨
    (∃ cause, Constant.macroShape name body = .error cause) ∨ e.class = .unsupported

/-- A definition whose body has no value is skipped or fails, wherever it stands. -/
theorem comesTo_of_isDefinition {name : Token} {body run : List Token} (h : IsDefinition name body run)
    {e : Constant.Error} {s : Session}
    (he : Constant.evaluateMacro s.symbols name body =
      (Constant.macroShape name body).bind fun _ => .error e) (file : String) (draft : Draft) :
    (IsLeftAlone name body e →
        ∃ s', ComesTo file draft s run (.ok draft) s' ∧ s'.symbols = s.symbols) ∧
      (¬ IsLeftAlone name body e → ∃ s', ComesTo file draft s run (.error (.constant e)) s') := by
  obtain ⟨hash, word, lineEnd, rfl, hcode, hhash, hword, hwordEnd, hname, hbody, hend⟩ := h
  obtain ⟨result, s', hread, hskipped, hfailed⟩ :=
    @comesTo_definition file draft s _ _ _ _ _ hcode hhash hword hwordEnd hname hbody
      hend
  have hleft : IsLeftAlone name body e → IsSkippedMacro s.symbols name body := by
    rintro (hrule | ⟨cause, hshape⟩ | hclass)
    · exact .inl hrule
    · rw [hshape] at he
      exact .inr ⟨cause, he, Constant.unsupported_of_macroShape hshape⟩
    · cases hshape : Constant.macroShape name body with
      | error cause =>
        rw [hshape] at he
        exact .inr ⟨cause, he, Constant.unsupported_of_macroShape hshape⟩
      | ok _ =>
        rw [hshape] at he
        exact .inr ⟨e, he, hclass⟩
  constructor
  · intro hleftAlone
    obtain ⟨rfl, hsymbols⟩ := hskipped (hleft hleftAlone)
    exact ⟨s', hread, hsymbols⟩
  · intro hnotLeft
    cases hshape : Constant.macroShape name body with
    | error cause => exact absurd (.inr (.inl ⟨cause, hshape⟩)) hnotLeft
    | ok _ =>
      have hvalue : Constant.evaluateMacro s.symbols name body = .error e := by
        rw [he, hshape]
        rfl
      refine ⟨s', (hfailed ?_ e hvalue) ▸ hread⟩
      rintro (hrule | ⟨e', he', hclass⟩)
      · exact hnotLeft (.inl hrule)
      · cases hvalue.symm.trans he'
        exact hnotLeft (.inr (.inr hclass))

/-- **Bodies that are no sentence.**  Unless operands are missing right before closing parentheses, and
nothing else is wrong, bringing such a body into postfix order fails, and a definition with the body is
skipped wherever it stands.  Where that is all that is wrong, the body has a postfix form, which does
not fit the stack: its evaluation fails with one misfit, or with the error of an operand or operator
that comes first.  A definition with the body then fails in the same way, and the header with it, unless
the definition or that error is of a kind that is left alone. -/
theorem definition_of_not_sentence {body : List Token} (hgiven : ∀ t ∈ body, t.IsGiven)
    (hnot : ¬ Sentence body) :
    ((∀ n, ¬ AcceptsWithout (n + 1) 0 true body) →
      (∃ e, Constant.toPostfix body = .error e ∧ e.class = .unsupported) ∧
        (¬ IsStringLiteral body → ∀ name run, IsDefinition name body run → ∀ file draft s,
          ∃ s', ComesTo file draft s run (.ok draft) s' ∧ s'.symbols = s.symbols)) ∧
    ((∃ n, AcceptsWithout (n + 1) 0 true body) →
      ∃ items misfit, Constant.toPostfix body = .ok items ∧ misfit.IsMisfit ∧
        misfit.class = .malformed ∧ ∀ symbols, ∃ e,
          Constant.evaluatePostfix symbols items = .error e ∧
          (e = misfit ∨ Arises symbols items e) ∧
          ∀ name run, IsDefinition name body run → ∀ file draft s, s.symbols = symbols →
            (IsLeftAlone name body e →
              ∃ s', ComesTo file draft s run (.ok draft) s' ∧ s'.symbols = s.symbols) ∧
            (¬ IsLeftAlone name body e →
              ∃ s', ComesTo file draft s run (.error (.constant e)) s')) := by
  constructor
  · intro hnone
    have hform : ∃ e, Constant.toPostfix body = .error e := by
      cases hpostfix : Constant.toPostfix body with
      | error e => exact ⟨e, rfl⟩
      | ok items =>
        obtain ⟨n, haccepts⟩ := (Constant.exists_toPostfix_iff hgiven).mp ⟨items, hpostfix⟩
        cases n with
        | zero => exact absurd haccepts.accepts.sentence hnot
        | succ n => exact absurd haccepts (hnone n)
    obtain ⟨cause, hcause⟩ := hform
    refine ⟨⟨cause, hcause, Constant.unsupported_of_toPostfix hcause⟩, ?_⟩
    intro hliteral name run hrun file draft s
    obtain ⟨e, he, hclass⟩ :=
      Constant.evaluateMacro_of_toPostfix_error hliteral hcause s.symbols name
    exact (comesTo_of_isDefinition hrun he file draft).1 (.inr (.inr hclass))
  · rintro ⟨n, haccepts⟩
    obtain ⟨items, misfit, hitems, hmisfit, hevaluate⟩ := haccepts.exists_misfit
    refine ⟨items, misfit, hitems, hmisfit, hmisfit.class_eq, fun symbols => ?_⟩
    obtain ⟨e, he, hcause⟩ := hevaluate symbols
    refine ⟨e, he, hcause, ?_⟩
    rintro name run hrun file draft s rfl
    have hvalue := Constant.evaluate_of_evaluatePostfix_error haccepts.ne_string hitems he
    exact comesTo_of_isDefinition hrun (Constant.evaluateMacro_of_error hvalue name) file draft

/-- The definition of `X` with a body. -/
def definitionOfX (body : List Token) : List Token :=
  ⟨.punct, "#", 1, 1⟩ :: ⟨.ident, "define", 1, 2⟩ :: ⟨.ident, "X", 1, 9⟩ ::
    (body ++ [⟨.newline, "\n", 1, 20⟩])

theorem isDefinition_definitionOfX {body : List Token} (h : ∀ t ∈ body, t.isLineEnd = false) :
    IsDefinition ⟨.ident, "X", 1, 9⟩ body (definitionOfX body) :=
  ⟨_, _, _, rfl, rfl, rfl, rfl, rfl, rfl, h, rfl⟩

/-- The tokens of `1 +`. -/
def cutShort : List Token :=
  [⟨.number, "1", 1, 11⟩, ⟨.punct, "+", 1, 13⟩]

/-- The tokens of `(1 +)`. -/
def cutShortInGroup : List Token :=
  [⟨.punct, "(", 1, 11⟩, ⟨.number, "1", 1, 12⟩, ⟨.punct, "+", 1, 14⟩, ⟨.punct, ")", 1, 15⟩]

/-- A definition with the body `1 +` is skipped, one with the body `(1 +)` stops the header. -/
theorem definition_of_not_sentence_cutShort :
    (∀ t ∈ cutShort, t.IsGiven) ∧ ¬ Sentence cutShort ∧
      (∃ s', ComesTo "test.h" ⟨.empty "test.h", [], []⟩ .start (definitionOfX cutShort)
        (.ok ⟨.empty "test.h", [], []⟩) s') ∧
    (∀ t ∈ cutShortInGroup, t.IsGiven) ∧ ¬ Sentence cutShortInGroup ∧
      ∃ s', ComesTo "test.h" ⟨.empty "test.h", [], []⟩ .start (definitionOfX cutShortInGroup)
        (.error (.constant (.binaryWithoutOperands "+"))) s' := by
  have hlexed : ∀ t ∈ cutShort, t ∈ (Lexer.lex "test.h" "#define X 1 +").tokens := by
    decide +kernel
  have hgiven : ∀ t ∈ cutShort, t.IsGiven := fun t ht => Lexer.isGiven_of_mem_lex (hlexed t ht)
  have hform : Constant.toPostfix cutShort = .error .incomplete := by rfl
  have hnot : ¬ Sentence cutShort := by
    intro hsentence
    obtain ⟨items, hitems, -⟩ := hsentence.toPostfix
    cases hform.symm.trans hitems
  have hnone : ∀ n, ¬ AcceptsWithout (n + 1) 0 true cutShort := by
    intro n haccepts
    obtain ⟨items, hitems, -⟩ := haccepts.toPostfix
    cases hform.symm.trans hitems
  have hliteral : ¬ IsStringLiteral cutShort := by
    rintro ⟨token, hkind, heq | ⟨first, hfirst, heq⟩⟩ <;> cases heq
    cases hkind
  have hskipped := ((definition_of_not_sentence hgiven hnot).1 hnone).2 hliteral _ _
    (isDefinition_definitionOfX (by decide)) "test.h" ⟨.empty "test.h", [], []⟩ .start
  have hlexed' : ∀ t ∈ cutShortInGroup, t ∈ (Lexer.lex "test.h" "#define X (1 +)").tokens := by
    decide +kernel
  have hgiven' : ∀ t ∈ cutShortInGroup, t.IsGiven :=
    fun t ht => Lexer.isGiven_of_mem_lex (hlexed' t ht)
  have hform' : Constant.toPostfix cutShortInGroup = .ok [.operand "1", .binary "+"] := by rfl
  have hnot' : ¬ Sentence cutShortInGroup := by
    intro hsentence
    obtain ⟨items, hitems, hheight⟩ := hsentence.toPostfix
    cases hform'.symm.trans hitems
    cases hheight
  have haccepts : AcceptsWithout 1 0 true cutShortInGroup :=
    .opening ⟨rfl, rfl⟩ (.operand (.bare (Constant.isOperand_number 1 12 (by decide +kernel)))
      (@AcceptsWithout.operator 1 1 .add _ _ (.one '+' (by decide) ⟨rfl, by decide⟩)
        (.missing ⟨rfl, rfl⟩ .done)))
  obtain ⟨items, misfit, hitems, -, -, hevaluate⟩ :=
    (definition_of_not_sentence hgiven' hnot').2 ⟨0, haccepts⟩
  obtain ⟨e, he, -, hruns⟩ := hevaluate .empty
  cases hform'.symm.trans hitems
  have hvalue : Constant.evaluatePostfix .empty [.operand "1", .binary "+"] =
      .error (.binaryWithoutOperands "+") := by rfl
  cases hvalue.symm.trans he
  have hleft : ¬ IsLeftAlone ⟨.ident, "X", 1, 9⟩ cutShortInGroup (.binaryWithoutOperands "+") := by
    rintro (hrule | ⟨cause, hshape⟩ | hclass)
    · revert hrule
      decide +kernel
    · cases hshape
    · cases hclass
  obtain ⟨s', hskip, -⟩ := hskipped
  exact ⟨hgiven, hnot, ⟨s', hskip⟩, hgiven', hnot',
    (hruns _ _ (isDefinition_definitionOfX (by decide)) "test.h" _ .start rfl).2 hleft⟩

/-- A group with nothing in it is no sentence.  It has a postfix form all the same, whose evaluation
stops the header. -/
theorem readHeader_emptyGroup :
    ¬ Sentence [⟨.punct, "(", 1, 11⟩, ⟨.punct, ")", 1, 12⟩] ∧
      Constant.toPostfix [⟨.punct, "(", 1, 11⟩, ⟨.punct, ")", 1, 12⟩] = .ok [] ∧
      (match (readHeader false "test.h" "#define X ()\n" .start).1 with
        | .error f => some f
        | .ok _ => none) = some (.constant (.stackSize 0)) := by
  have hform : Constant.toPostfix [⟨.punct, "(", 1, 11⟩, ⟨.punct, ")", 1, 12⟩] = .ok [] := by rfl
  refine ⟨?_, hform, by decide +kernel⟩
  intro hsentence
  obtain ⟨items, hitems, hheight⟩ := hsentence.toPostfix
  cases hform.symm.trans hitems
  cases hheight

end Grammar

end SdkBindings
