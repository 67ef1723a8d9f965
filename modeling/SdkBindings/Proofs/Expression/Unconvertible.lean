import SdkBindings.Proofs.Expression.Conversion
import SdkBindings.Proofs.Expression.Operands
import SdkBindings.Proofs.Expression.Value
import SdkBindings.Proofs.Lexing.Pieces
import SdkBindings.Proofs.Numeral.Digits

/-!
# Tokens whose evaluation breaks

The evaluation of the tokens of a header breaks exactly for those that are `Unconvertible`: a string
literal with a bad escape, or an expression whose run comes to a stuck entry (`breaks_evaluate`), on any
host.
Bringing tokens into postfix order never breaks, and since they are pieces of a header, the digits of
each operand stand for an integer, so that none of the entries is unreadable.
-/

namespace SdkBindings.Constant

open Lexer Postfix Text

/-! ## Postfix forms of the tokens of a header -/

/-- The digits of an operand of a header stand for an integer. -/
theorem isReadable_text {t : Token} (h : IsPiece t)
    (hkind : t.kind = .number ∨ t.kind = .ident ∨ t.kind = .char) : IsReadable t.text.toList := by
  intro hdigits
  obtain ⟨c, rest, htext, hc⟩ := isOperand_of_isPiece h hkind
  have hdecimal : ∀ c ∈ t.text.toList, isDecimalDigit c = true := by
    rcases hc with ⟨hnumber, -⟩ | ⟨-, hstart⟩ | ⟨-, hmark⟩
    · exact isDecimalDigit_of_isPiece h hnumber hdigits
    · rw [htext, isDigits, List.all_cons, isDigitLike_of_isIdentStart hstart, Bool.false_and,
        Bool.and_false] at hdigits
      cases hdigits
    · have hmark' : isDigitLike '\'' = false := by decide +kernel
      rw [htext, isDigits, List.all_cons, hmark, hmark', Bool.false_and, Bool.and_false] at hdigits
      cases hdigits
  exact ⟨_, Numeral.readInteger?_digits (by rw [htext]; exact List.cons_ne_nil c rest) hdecimal⟩

/-- Signs in front of an operand of a header leave its digits readable. -/
theorem isReadable_operand {t : Token} (h : IsPiece t)
    (hkind : t.kind = .number ∨ t.kind = .ident ∨ t.kind = .char) (signs : List UnaryOp) :
    (Item.operand (String.ofList (signs.map UnaryOp.char) ++ t.text)).IsReadable := by
  obtain ⟨c, rest, htext, hc⟩ := exists_of_isOperand (isOperand_of_isPiece h hkind)
  have hbody : splitUnary (String.ofList (signs.map UnaryOp.char) ++ t.text).toList =
      (signs, t.text.toList) := by
    rw [String.toList_append, String.toList_ofList, htext, splitUnary_signedText (ofChar?_eq_none hc)]
  rw [Item.IsReadable, hbody]
  exact isReadable_text h hkind

/-- The postfix form of the tokens of a header has readable operands; without one the expression is
left alone. -/
theorem toPostfix_of_isPiece {tokens : List Token} (h : ∀ t ∈ tokens, IsPiece t) :
    match toPostfix tokens with
    | .ok items => ∀ item ∈ items, item.IsReadable
    | .error e => e.class = .unsupported :=
  toPostfix_entries ⟨fun t ht hkind signs => isReadable_operand (h t ht) hkind signs,
    fun _ => trivial, fun _ => trivial⟩

/-! ## Expressions -/

/-- Tokens whose evaluation needs a conversion without a result.  They are a string literal, possibly
after the prefix `L`, with a bad escape; or the postfix form of an expression, and running it comes to
an entry that is stuck. -/
def Unconvertible [Host] (symbols : SymbolTable) (tokens : List Token) : Prop :=
  (∃ token, (tokens = [token] ∨ ∃ first, first.text = "L" ∧ tokens = [first, token]) ∧
      token.kind = .string ∧ HasBadEscape (token.text.toList.drop 1).dropLast) ∨
    ((∀ token ∈ tokens, token.kind ≠ .string) ∧ ∃ before item after stack,
      toPostfix tokens = .ok (before ++ item :: after) ∧ run symbols before [] = .ok stack ∧
        item.IsStuck symbols stack)

/-- A string literal breaks at a bad escape. -/
theorem breaks_stringLiteral? {tokens : List Token} :
    Breaks (stringLiteral? tokens) ↔
      ∃ token, (tokens = [token] ∨ ∃ first, first.text = "L" ∧ tokens = [first, token]) ∧
        token.kind = .string ∧ HasBadEscape (token.text.toList.drop 1).dropLast := by
  have hliteral (token : Token) :
      Breaks ((decodeEscapes (token.text.toList.drop 1).dropLast).map (some <| textOf ·)) ↔
        HasBadEscape (token.text.toList.drop 1).dropLast :=
    breaks_map.trans (breaks_decodeEscapes _)
  unfold stringLiteral?
  dsimp only
  split
  · match tokens with
    | [] => exact absurd ‹_› Bool.false_ne_true
    | [token] =>
      rename_i hstring
      have hkind : token.kind = .string := by simpa using hstring
      refine (hliteral token).trans ⟨fun h => ⟨token, .inl rfl, hkind, h⟩, ?_⟩
      rintro ⟨literal, (heq | ⟨first, -, heq⟩), -, h⟩
      · cases heq
        exact h
      · cases heq
    | [first, token] =>
      dsimp only
      by_cases hprefixed : first.text = "L" ∧ token.kind = .string
      · rw [if_pos hprefixed]
        refine (hliteral token).trans
          ⟨fun h => ⟨token, .inr ⟨first, hprefixed.1, rfl⟩, hprefixed.2, h⟩, ?_⟩
        rintro ⟨literal, (heq | ⟨first, -, heq⟩), -, h⟩
        · cases heq
        · cases heq
          exact h
      · rw [if_neg hprefixed]
        refine iff_of_false (not_breaks_error (.inl rfl)) ?_
        rintro ⟨literal, (heq | ⟨first, hfirst, heq⟩), hkind, -⟩
        · cases heq
        · cases heq
          exact hprefixed ⟨hfirst, hkind⟩
    | _ :: _ :: _ :: _ =>
      refine iff_of_false (not_breaks_error (.inl rfl)) ?_
      rintro ⟨literal, (heq | ⟨first, -, heq⟩), -⟩ <;> cases heq
  · rename_i hnone
    refine iff_of_false (not_breaks_ok _) ?_
    rintro ⟨token, htokens, hkind, -⟩
    refine hnone (List.any_eq_true.mpr ⟨token, ?_, decide_eq_true hkind⟩)
    rcases htokens with rfl | ⟨first, -, rfl⟩
    · exact List.mem_singleton_self token
    · exact List.mem_cons_of_mem first (List.mem_singleton_self token)

/-- Tokens are no string literal if none of them is one. -/
theorem stringLiteral?_eq_none {tokens : List Token} :
    stringLiteral? tokens = .ok none ↔ ∀ token ∈ tokens, token.kind ≠ .string := by
  have hliteral (token : Token) :
      (decodeEscapes (token.text.toList.drop 1).dropLast).map (some <| textOf ·) ≠
        .ok none := by
    cases decodeEscapes (token.text.toList.drop 1).dropLast <;> exact fun h => nomatch h
  unfold stringLiteral?
  dsimp only
  split
  · rename_i hstring
    obtain ⟨token, hmem, hkind⟩ := List.any_eq_true.mp hstring
    refine iff_of_false ?_ fun h => h token hmem (of_decide_eq_true hkind)
    split
    · exact hliteral _
    · split
      · exact hliteral _
      · exact fun h => nomatch h
    · exact fun h => nomatch h
  · rename_i hnone
    refine iff_of_true rfl fun token hmem hkind => ?_
    exact hnone (List.any_eq_true.mpr ⟨token, hmem, decide_eq_true hkind⟩)

/-- A postfix form breaks if its run does; too many or too few numbers at the end are reported. -/
theorem breaks_evaluatePostfix [Host] {symbols : SymbolTable} {items : List Item} :
    Breaks (evaluatePostfix symbols items) ↔ Breaks (run symbols items []) := by
  rw [evaluatePostfix, breaks_bind]
  refine or_iff_left ?_
  rintro ⟨stack, -, h⟩
  split at h
  · exact not_breaks_ok _ h
  · exact not_breaks_error (.inr rfl) h

/-- The postfix form of the tokens of a header breaks if it comes to a stuck entry. -/
theorem breaks_expression [Host] {symbols : SymbolTable} {tokens : List Token}
    (h : ∀ t ∈ tokens, IsPiece t) :
    Breaks (toPostfix tokens >>= evaluatePostfix symbols) ↔
      ∃ before item after stack, toPostfix tokens = .ok (before ++ item :: after) ∧
        run symbols before [] = .ok stack ∧ item.IsStuck symbols stack := by
  have hpostfix := toPostfix_of_isPiece h
  cases hitems : toPostfix tokens with
  | error e =>
    rw [hitems] at hpostfix
    refine iff_of_false (not_breaks_error (.inl hpostfix)) ?_
    rintro ⟨before, item, after, stack, heq, -⟩
    cases heq
  | ok items =>
    rw [hitems] at hpostfix
    refine breaks_evaluatePostfix.trans ((breaks_run hpostfix).trans ?_)
    simp only [Except.ok.injEq]

/-- **Breaking evaluations.**  The evaluation of tokens of a header breaks exactly if they are
unconvertible. -/
theorem breaks_evaluate [Host] (symbols : SymbolTable) {tokens : List Token} (h : ∀ t ∈ tokens, IsPiece t) :
    Breaks (evaluate symbols tokens) ↔ Unconvertible symbols tokens := by
  have hnumber : Breaks (do
      let items ← toPostfix tokens
      let x ← evaluatePostfix symbols items
      pure (numberValue x (Token.join tokens))) ↔
      Breaks (toPostfix tokens >>= evaluatePostfix symbols) := by
    rw [breaks_bind, breaks_bind]
    refine or_congr_right (exists_congr fun items => and_congr_right fun _ => ?_)
    exact breaks_map
  unfold evaluate Unconvertible
  rw [breaks_bind, breaks_stringLiteral?, ← breaks_expression h, ← hnumber, ← stringLiteral?_eq_none]
  refine or_congr_right ⟨?_, fun h => ⟨none, h⟩⟩
  rintro ⟨literal, hliteral, hbreaks⟩
  cases literal with
  | some text => exact (not_breaks_ok _ hbreaks).elim
  | none => exact ⟨hliteral, hbreaks⟩

end SdkBindings.Constant
