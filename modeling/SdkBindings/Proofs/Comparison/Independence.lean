import SdkBindings.Proofs.Comparison.LineEnds
import SdkBindings.Proofs.Expression.Unconvertible

/-!
# Headers without common constants are independent

Reading a header asks for the constants among its words only, and defines constants among its words
only.  So two sessions whose constants agree on the words of a header read it alike: the outcome is
the same, the constants still agree on these words, and nothing else about them has changed
(`readHeader_independent`).  In particular a header read before makes no difference unless it
changes a word.

That only words are asked for is where the lexer comes in: the operands of an expression are
numbers, characters or words, and the first two are recognised by the character they start with
(`word_of_asks`).
-/

namespace SdkBindings

open Lexer (IsPiece)

/-! ## Words -/

/-- The name is a word of a text. -/
def IsWordOf (file source name : String) : Prop :=
  ∃ t ∈ (Lexer.lex file source).tokens, t.kind = .ident ∧ t.text = name

/-- A piece of a header asks for nothing but itself, and only if it is a word. -/
theorem word_of_asks {t : Token} (h : IsPiece t) {name : String} (hasks : t.Asks name) :
    t.kind = .ident ∧ t.text = name := by
  rcases hasks with hword | ⟨hkind, hname⟩
  · exact hword
  obtain ⟨c, rest, htext, hc⟩ := Lexer.isOperand_of_isPiece h hkind
  obtain ⟨c', rest', htext', hsign⟩ := Constant.exists_of_isOperand ⟨c, rest, htext, hc⟩
  have hbody : Constant.splitUnary t.text.toList = ([], t.text.toList) := by
    rw [htext']
    exact Constant.splitUnary_signedText (Constant.ofChar?_eq_none hsign) []
  unfold Constant.askedName? at hname
  rw [hbody] at hname
  dsimp only at hname
  split at hname
  · cases hname
  split at hname
  · cases hname
  split at hname
  · cases hname
  rename_i hnumber
  split at hname
  · cases hname
  rename_i hmark
  -- neither the start of a number nor a mark is left for the first character
  rw [htext, List.take_succ_cons, List.take_zero] at hnumber hmark
  rcases hc with ⟨-, hdigit⟩ | ⟨hword, -⟩ | ⟨-, rfl⟩
  · refine absurd ?_ hnumber
    rcases hdigit with hdigit | rfl <;> simp [Text.isDigitLike, *]
  · refine ⟨hword, ?_⟩
    rw [← Option.some.inj hname, String.ofList_toList]
  · exact absurd rfl hmark

/-! ## Two sessions -/

namespace Comparison

/-- The same text is read on both sides, with constants that agree on some names and are otherwise
those of two given tables. -/
def sharing (shared : String → Prop) (symbols symbols' : SymbolTable) : Comparison where
  place := Eq
  name := shared
  table t u :=
    (∀ n, shared n → t.get? n = u.get? n) ∧
      ∀ n, ¬ shared n → t.get? n = symbols.get? n ∧ u.get? n = symbols'.get? n
  number?_eq := by
    rintro t u n ⟨hagree, -⟩ hn
    simp only [SymbolTable.number?, hagree n hn]
  insert := by
    rintro t u n value ⟨hagree, hother⟩ hn
    refine ⟨fun m hm => ?_, fun m hm => ?_⟩
    · simp only [SymbolTable.get?_insert, hagree m hm]
    · have hne : m ≠ n := fun heq => hm (heq ▸ hn)
      simp only [SymbolTable.get?_insert, if_neg hne]
      exact hother m hm

section

variable {shared : String → Prop} {symbols symbols' : SymbolTable}

/-- A token stands for itself if what it asks for is shared. -/
theorem sharing_matches {t : Token} (h : ∀ n, t.Asks n → shared n) :
    (sharing shared symbols symbols').Matches t t :=
  ⟨rfl, rfl, rfl, h⟩

/-- The tokens of a header are aligned with themselves. -/
theorem aligned_self {inLine : Bool} {previous : Option Token} {ts : List Token}
    (hts : ∀ t ∈ ts, t.isCode = true ∨ t.IsBreak) (hshared : ∀ t ∈ ts, ∀ n, t.Asks n → shared n) :
    (sharing shared symbols symbols').Aligned inLine (previous.map fun t => (t, t)) ts ts := by
  induction ts generalizing inLine previous with
  | nil => exact .nil
  | cons t ts ih =>
    obtain ⟨ht, hts⟩ := List.forall_mem_cons.mp hts
    obtain ⟨htshared, hshared⟩ := List.forall_mem_cons.mp hshared
    rcases ht with hcode | hbreak
    · have hrest : (sharing shared symbols symbols').Aligned (inLine || t.text = "#")
          ((some t).map fun t => (t, t)) ts ts := ih hts hshared
      refine .code hcode (sharing_matches htshared) ?_ hrest
      intro p hp
      obtain ⟨u, -, rfl⟩ := Option.map_eq_some_iff.mp hp
      rfl
    · exact .both hbreak (sharing_matches htshared) (ih hts hshared)

/-- Failures that say the same of the same place are the same. -/
theorem sharing_failure {f g : Grammar.Failure}
    (h : (sharing shared symbols symbols').SameFailure f g) : g = f := by
  cases h with
  | @grammar e e' h =>
    obtain ⟨hfile, hexpected, hactual, hcontext, hplace⟩ := h
    obtain ⟨file, line, column, expected, actual, context⟩ := e
    obtain ⟨file', line', column', expected', actual', context'⟩ := e'
    obtain ⟨rfl, rfl⟩ := Lexer.Position.mk.inj hplace
    dsimp only at hfile hexpected hactual hcontext
    rw [hfile, hexpected, hactual, hcontext]
  | constant e => rfl
  | unresolvedGuid file interface => rfl

end

end Comparison

namespace Grammar

/-- A text is read alike in sessions whose constants agree on its words. -/
theorem header_alike (strict : Bool) (file source : String) (symbols symbols' : SymbolTable) :
    (Comparison.sharing (IsWordOf file source) symbols symbols').ActsAlike Eq
      (header strict file source) (header strict file source) := by
  unfold header
  cases htokens : (Lexer.lex file source).tokens? with
  | error e => exact .throw (.grammar ⟨rfl, rfl, rfl, rfl, rfl⟩)
  | ok tokens =>
    obtain ⟨body, eof, rfl, hkind, htext, hbody⟩ := isTokenized_of_tokens? htokens
    have hlexed : (Lexer.lex file source).tokens = body ++ [eof] := by
      unfold Lexer.Lexed.tokens? at htokens
      split at htokens
      · cases htokens
      · exact Except.ok.inj htokens
    have hshared : ∀ t ∈ body, ∀ n, t.Asks n → IsWordOf file source n := by
      intro t ht n hasks
      have hmem : t ∈ (Lexer.lex file source).tokens := hlexed ▸ List.mem_append_left [eof] ht
      rcases Lexer.isPiece_of_mem_lexFrom hmem with hpiece | ⟨heof, -⟩
      · exact ⟨t, hmem, word_of_asks hpiece hasks⟩
      · rcases hbody t ht with h | h
        · simp [Token.isCode, heof] at h
        · cases heof.symm.trans h.1
    have heof : ∀ n, eof.Asks n → IsWordOf file source n := by
      rintro n (⟨hword, -⟩ | ⟨hoperand, -⟩)
      · cases hkind.symm.trans hword
      · rcases hoperand with h | h | h <;> cases hkind.symm.trans h
    dsimp only
    rw [Cursor.ofTokens?_concat file body hkind]
    have haligned : (Comparison.sharing (IsWordOf file source) symbols symbols').Aligned false
        ((none : Option Token).map fun t => (t, t)) body body := Comparison.aligned_self hbody hshared
    have halike : (Comparison.sharing (IsWordOf file source) symbols symbols').Alike
        (body.filter fun t => !t.isLineEnd).length ⟨file, [], body, eof⟩ ⟨file, [], body, eof⟩ :=
      ⟨false, none, rfl, Comparison.sharing_matches heof, hkind, htext, haligned, Nat.le_refl _⟩
    exact Comparison.headerOfCursor_alike strict halike

/-- **Independence.**  Sessions whose constants agree on the words of a header read it to the same
outcome.  Afterwards their constants agree on these words, and the others are as before.  So reading
a header that changes none of the words before it makes no difference. -/
theorem readHeader_independent (strict : Bool) (file source : String) :
    (∀ s s' : Session,
      (∀ n, IsWordOf file source n → s.symbols.get? n = s'.symbols.get? n) →
        let after := readHeader strict file source s
        let after' := readHeader strict file source s'
        after'.1 = after.1 ∧
          (∀ n, IsWordOf file source n → after.2.symbols.get? n = after'.2.symbols.get? n) ∧
          ∀ n, ¬ IsWordOf file source n →
            after.2.symbols.get? n = s.symbols.get? n ∧
              after'.2.symbols.get? n = s'.symbols.get? n) ∧
      ∀ (strict' : Bool) (file' source' : String) (s : Session),
        let before := (readHeader strict' file' source' s).2
        (∀ n, IsWordOf file source n → before.symbols.get? n = s.symbols.get? n) →
          (readHeader strict file source before).1 = (readHeader strict file source s).1 := by
  have hsame (s s' : Session)
      (h : ∀ n, IsWordOf file source n → s.symbols.get? n = s'.symbols.get? n) :
      (readHeader strict file source s').1 = (readHeader strict file source s).1 := by
    have halike := (header_alike strict file source s.symbols s'.symbols s s'
      ⟨h, fun n _ => ⟨rfl, rfl⟩⟩).1
    unfold readHeader
    generalize ((header strict file source).run s).1 = r at halike
    generalize ((header strict file source).run s').1 = r' at halike
    cases halike with
    | ok h => rw [h]
    | error h => rw [Comparison.sharing_failure h]
  refine ⟨fun s s' h => ?_, fun strict' file' source' s h => hsame s _ fun n hn => (h n hn).symm⟩
  obtain ⟨-, hagree, hother⟩ := header_alike strict file source s.symbols s'.symbols s s'
    ⟨h, fun n _ => ⟨rfl, rfl⟩⟩
  exact ⟨hsame s s' h, hagree, hother⟩

/-- A struct whose array has a length of its own, after a header with another macro. -/
theorem readHeader_independent_array :
    let source := "#define N 3\ntypedef struct S { int x[N]; } S;\n"
    let before := (readHeader false "a.h" "#define M 1\n" .start).2
    before.symbols.get? "M" ≠ Session.start.symbols.get? "M" ∧
      (∀ n, IsWordOf "b.h" source n → before.symbols.get? n = Session.start.symbols.get? n) ∧
      (readHeader true "b.h" source before).1 = (readHeader true "b.h" source .start).1 ∧
      ¬ IsWordOf "b.h" source "M" ∧
      (readHeader true "b.h" source before).2.symbols.get? "M" = before.symbols.get? "M" := by
  intro source before
  have hsymbols : before.symbols = SymbolTable.empty.insert "M" (.ofNumber 1 "1") := by
    decide +kernel
  have hword : ¬ IsWordOf "b.h" source "M" := by
    unfold IsWordOf
    decide +kernel
  have hagree : ∀ n, IsWordOf "b.h" source n →
      before.symbols.get? n = Session.start.symbols.get? n := by
    intro n hn
    have hne : n ≠ "M" := fun heq => hword (heq ▸ hn)
    rw [hsymbols, SymbolTable.get?_insert, if_neg hne]
    rfl
  obtain ⟨hsame, -, hother⟩ := (readHeader_independent true "b.h" source).1 before .start hagree
  refine ⟨?_, hagree, hsame.symm, hword, (hother "M" hword).1⟩
  rw [hsymbols]
  decide +kernel

end Grammar

end SdkBindings
