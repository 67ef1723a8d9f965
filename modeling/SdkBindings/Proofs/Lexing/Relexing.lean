import SdkBindings.Proofs.Comparison.LineEnds
import SdkBindings.Proofs.Lexing.Forms

/-!
# Stored code is cut to the same tokens

The expression of a constant is stored as text, and cut to tokens again when its binding is written.
For code on one line nothing is lost on the way (`relex_join`): the stored text is the condensed code,
it is cut to tokens of the same kinds and texts that touch each other where the first ones did, and so
it has the same value for every table of symbols.

A token is taken off the condensed text because it was taken off the code (`TakesToken.condensed`),
since the condensed rest of a line ends it in the same way (`EndsAlike`).  Numbers and identifiers only
see the characters up to the next gap.  A quotation mark, a slash and an asterisk that are punctuation
are so because of the whole rest of the line, in which no literal is closed and no comment ends; the
condensed rest does not do so either.
-/

namespace SdkBindings

open Lexer

/-! ## Single tokens -/

namespace Lexer

/-- A line that ends a token where a text does: both go on alike as far as a number or an identifier can
be continued, and the line closes no literal and no comment that the text does not close. -/
structure EndsAlike (text line : List Char) : Prop where
  /-- The line has no line feed. -/
  inline : '\n' ∉ line
  /-- A number is continued alike. -/
  numberPart : line.takeWhile isNumberPart = text.takeWhile isNumberPart
  /-- An identifier is continued alike. -/
  identPart : line.takeWhile isIdentPart = text.takeWhile isIdentPart
  /-- A literal that is not closed stays so. -/
  closing : ∀ mark, mark = '"' ∨ mark = '\'' → closingMark? mark text = none →
    closingMark? mark line = none
  /-- A slash that opens no comment stays so. -/
  comment : commentLength? text = none → commentLength? line = none

section

variable {text line : List Char}

/-- A number ends where it ended. -/
theorem EndsAlike.numberLength? (h : EndsAlike text line) (front : List Char) :
    Lexer.numberLength? (front ++ line) = Lexer.numberLength? (front ++ text) := by
  have hfront : (front ++ line).takeWhile isNumberPart = (front ++ text).takeWhile isNumberPart := by
    rw [List.takeWhile_append, List.takeWhile_append, h.numberPart]
  rw [← numberLength?_takeWhile, hfront, numberLength?_takeWhile]

/-- So does an identifier. -/
theorem EndsAlike.endsWord (h : EndsAlike text line) (htext : EndsWord text) : EndsWord line := by
  rw [endsWord_iff] at htext ⊢
  exact h.identPart.trans htext

/-- Punctuation stays alone. -/
theorem IsLone.of_endsAlike {c : Char} (h : IsLone c text) (halike : EndsAlike text line) :
    IsLone c line where
  number := (halike.numberLength? [c]).trans h.number
  closing hmark := halike.closing c hmark (h.closing hmark)
  comment hc := halike.comment (h.comment hc)

/-- What is taken off the front of a text is taken off the front of a line that ends it alike. -/
theorem TakesToken.of_endsAlike {t : Token} (htoken : TakesToken t text) (h : EndsAlike text line)
    (hcode : t.isCode = true) : TakesToken t line := by
  refine TokenForm.takesToken ?_ h.inline
  cases htoken.form hcode with
  | ident hkind hname hafter => exact .ident hkind hname (h.endsWord hafter)
  | number hkind htext hlength => exact .number hkind htext ((h.numberLength? _).trans hlength)
  | literal hmark hkind htext hbody => exact .literal hmark hkind htext hbody
  | punct hkind htext hc hlone => exact .punct hkind htext hc (hlone.of_endsAlike h)

end

section

variable {text joined : List Char} {ts : List Token} (h : Condenses text ts joined)
  (hline : '\n' ∉ text)

include h hline

/-- A condensed line ends a token where the line does. -/
theorem Condenses.endsAlike : EndsAlike text joined where
  inline := h.inline hline
  numberPart := h.takeWhile (fun _ hc => (isSeparate_of_isSpace hc).not_numberPart) (by decide) hline
  identPart := h.takeWhile (fun _ hc => (isSeparate_of_isSpace hc).not_identPart) (by decide) hline
  closing mark hmark hopen := by
    have hrun := h.survives (markWatch mark hmark) hline ((markWatch_run hmark hline).mpr hopen)
    exact (markWatch_run hmark (h.inline hline)).mp hrun
  comment := h.commentLength? hline

/-- What is taken off the front of a line is taken off the front of the condensed line. -/
theorem TakesToken.condensed {t : Token} (htoken : TakesToken t text) (hcode : t.isCode = true) :
    TakesToken t joined :=
  htoken.of_endsAlike (h.endsAlike hline) hcode

end

end Lexer

/-- No token of code starts with a blank. -/
theorem Lexer.TakesToken.not_space {t : Token} {after : List Char} (h : TakesToken t after)
    (hcode : t.isCode = true) (rest : List Char) :
    ∀ c ∈ (t.text.toList ++ rest).head?, isSpace c = false := by
  obtain ⟨c, piece, hpiece, hscan⟩ := h
  rw [hpiece]
  intro d hd
  obtain rfl := Option.some.inj hd
  refine (not_blank_of_scan hscan ?_).1
  intro hkind
  simp [Token.isCode, hkind] at hcode

/-! ## Tokens in a row -/

/-- The text that starts at `p` is cut to tokens of code that correspond to `ts`. -/
def CutsAlike (file : String) (p : Position) (text : List Char) (previous : Option (Token × Token))
    (ts : List Token) : Prop :=
  ∃ us eof, lexFrom file p text = ⟨us ++ [eof], none⟩ ∧ eof.isCode = false ∧
    (∀ u ∈ us, u.isCode = true) ∧ Comparison.layouts.Corresponds previous ts us

/-- A token is cut off in front of others. -/
theorem CutsAlike.token {file : String} {p : Position} {joined : List Char}
    {previous : Option (Token × Token)} {t : Token} {ts : List Token} (htoken : TakesToken t joined)
    (hcode : t.isCode = true) (hinline : '\n' ∉ t.text.toList)
    (hspaced : Comparison.SpacedAlike previous t ⟨t.kind, t.text, p.line, p.column⟩)
    (hrest : ∀ u : Token, u = ⟨t.kind, t.text, p.line, p.column⟩ →
      CutsAlike file ⟨u.line, u.endColumn⟩ joined (some (t, u)) ts) :
    CutsAlike file p (t.text.toList ++ joined) previous (t :: ts) := by
  let u : Token := ⟨t.kind, t.text, p.line, p.column⟩
  obtain ⟨us, eof, hlexed, heof, hus, hcorresponds⟩ := hrest u rfl
  obtain ⟨c, piece, hpiece, hscan⟩ := htoken
  have hplace : p.after (c :: piece) = ⟨u.line, u.endColumn⟩ := by
    rw [← hpiece, p.after_inline hinline, String.length_toList]
    rfl
  refine ⟨u :: us, eof, ?_, heof, ?_, ?_⟩
  · rw [hpiece, List.cons_append, lexFrom_token file p hscan, hplace, hlexed, ← hpiece,
      String.ofList_toList]
    rfl
  · exact List.forall_mem_cons.mpr ⟨hcode, hus⟩
  · exact .cons (Comparison.layouts_matches rfl rfl) hspaced hcorresponds

/-- A condensed text is cut to tokens that correspond to those that were joined. -/
theorem Lexer.Condenses.cutsAlike {text joined : List Char} {ts : List Token}
    (h : Condenses text ts joined) (hline : '\n' ∉ text) (hcode : ∀ t ∈ ts, t.isCode = true)
    (file : String) {previous previous' : Token} (hjoined : joined = Token.joinAfter previous ts) :
    CutsAlike file ⟨previous'.line, previous'.endColumn⟩ joined (some (previous, previous')) ts := by
  induction h generalizing previous previous' with
  | ended => exact ⟨[], _, by rw [lexFrom]; rfl, rfl, List.forall_mem_nil _, .nil⟩
  | @token gap text joined t ts hgap htoken hrest ih =>
    obtain ⟨ht, hts⟩ := List.forall_mem_cons.mp hcode
    simp only [List.mem_append, not_or] at hline
    have htoken' := htoken.condensed hrest hline.2.2 ht
    have hfirst (rest rest' : List Char) : t.text.toList ++ rest ≠ ' ' :: rest' := by
      intro heq
      have hspace := htoken.not_space ht rest ' ' (by rw [heq]; rfl)
      cases hspace
    -- no token starts with a space, so there is one on both sides or on none
    obtain ⟨hadjacent, hrest'⟩ : t.isAdjacentTo previous = decide (gap = []) ∧
        joined = Token.joinAfter t ts := by
      rw [Token.joinAfter, List.append_assoc] at hjoined
      by_cases hempty : gap = []
      · rw [if_pos hempty, List.nil_append] at hjoined
        split at hjoined
        · exact ⟨by simp [*], List.append_cancel_left hjoined⟩
        · exact absurd hjoined (hfirst _ _)
      · rw [if_neg hempty] at hjoined
        split at hjoined
        · exact absurd hjoined.symm (hfirst _ _)
        · exact ⟨by simp [*], List.append_cancel_left (List.cons.inj hjoined).2⟩
    have hfurther (u : Token) : CutsAlike file ⟨u.line, u.endColumn⟩ joined (some (t, u)) ts :=
      ih hline.2.2 hts hrest'
    by_cases hempty : gap = []
    · rw [if_pos hempty, List.nil_append]
      refine .token htoken' ht hline.2.1 ?_ fun u _ => hfurther u
      intro q hq
      obtain rfl := Option.some.inj hq
      show t.isAdjacentTo previous = _
      rw [hadjacent]
      simp [hempty, Token.isAdjacentTo]
    · rw [if_neg hempty, List.singleton_append]
      rw [CutsAlike, lexFrom_space file _ (htoken.not_space ht joined)]
      refine CutsAlike.token htoken' ht hline.2.1 ?_ fun u _ => hfurther u
      intro q hq
      obtain rfl := Option.some.inj hq
      show t.isAdjacentTo previous = _
      rw [hadjacent]
      simp [hempty, Token.isAdjacentTo, Position.after_inline]

/-! ## Stored code -/

/-- Corresponding tokens have the same kinds and texts and touch each other alike. -/
theorem Comparison.Corresponds.same {K : Comparison} {ts us : List Token}
    (h : K.Corresponds none ts us) :
    us.map (fun u => (u.kind, u.text)) = ts.map (fun t => (t.kind, t.text)) ∧
      adjacencies us = adjacencies ts := by
  have hbehind {t u : Token} {ts us : List Token} (h : K.Corresponds (some (t, u)) ts us) :
      us.map (fun u => (u.kind, u.text)) = ts.map (fun t => (t.kind, t.text)) ∧
        adjacencies (u :: us) = adjacencies (t :: ts) := by
    induction ts generalizing t u us with
    | nil =>
      cases h
      exact ⟨rfl, rfl⟩
    | cons t' ts ih =>
      cases h with
      | cons hmatch hspaced hrest =>
        obtain ⟨hsame, hadjacent⟩ := ih hrest
        refine ⟨?_, ?_⟩
        · simp [hmatch.kind, hmatch.text, hsame]
        · rw [adjacencies, adjacencies, hadjacent]
          exact congrArg (· :: _) (hspaced _ rfl).symm
  cases h with
  | nil => exact ⟨rfl, rfl⟩
  | cons hmatch _ hrest =>
    obtain ⟨hsame, hadjacent⟩ := hbehind hrest
    exact ⟨by simp [hmatch.kind, hmatch.text, hsame], hadjacent⟩

/-- Joined tokens are cut to tokens that correspond to them. -/
theorem Lexer.Begins.cutsAlike {p : Position} {text : List Char} {ts : List Token}
    (h : Begins p text ts) (hline : '\n' ∉ text) (hcode : ∀ t ∈ ts, t.isCode = true) (file : String)
    (q : Position) : CutsAlike file q (Token.join ts).toList none ts := by
  cases h with
  | empty => exact ⟨[], _, by rw [Token.join, String.toList_empty, lexFrom]; rfl, rfl,
      List.forall_mem_nil _, .nil⟩
  | token _ _ htoken hrest =>
    obtain ⟨ht, hts⟩ := List.forall_mem_cons.mp hcode
    simp only [List.mem_append, not_or] at hline
    rw [Token.join, String.toList_ofList]
    refine .token (htoken.condensed hrest hline.2.2 ht) ht hline.2.1 ?_ ?_
    · intro q hq
      cases hq
    · intro u _
      exact hrest.cutsAlike hline.2.2 hts file rfl

/-- The tokens of some code are those that are no line end and not the end. -/
theorem Lexer.codeTokens_eq_ok_iff {source : String} {ts : List Token} :
    codeTokens source = .ok ts ↔ (lex "<string>" source).failure = none ∧
      (lex "<string>" source).tokens.filter Token.isCode = ts := by
  unfold codeTokens Lexed.tokens?
  cases (lex "<string>" source).failure with
  | some e => exact ⟨fun h => (nomatch h), fun h => (nomatch h.1)⟩
  | none => exact ⟨fun h => ⟨rfl, Except.ok.inj h⟩, fun h => congrArg Except.ok h.2⟩

/-- **Stored code is cut to the same tokens.**  Code within a line that is cut to tokens is condensed
when these are joined: blanks and comments between two tokens become one space, and those around them
are left out.  The condensed code is cut to tokens of the same kinds and texts, of which the same ones
touch each other, and has the same value for every table of symbols. -/
theorem relex_join {source : String} (hline : '\n' ∉ source.toList) {ts : List Token}
    (h : codeTokens source = .ok ts) :
    Condensed source.toList ts (Token.join ts).toList ∧
      ∃ us, codeTokens (Token.join ts) = .ok us ∧
        us.map (fun u => (u.kind, u.text)) = ts.map (fun t => (t.kind, t.text)) ∧
        adjacencies us = adjacencies ts ∧
        ∀ symbols, Constant.evaluate symbols us = Constant.evaluate symbols ts := by
  have hfilter {ts : List Token} {eof : Token} (hts : ∀ t ∈ ts, t.isCode = true)
      (heof : eof.isCode = false) : (ts ++ [eof]).filter Token.isCode = ts := by
    rw [List.filter_append, List.filter_eq_self.mpr hts]
    simp [heof]
  obtain ⟨hnone, htokens⟩ := codeTokens_eq_ok_iff.mp h
  obtain ⟨ts', eof, hlexed, heof, hcode, hbegins⟩ := begins_of_lexFrom hline hnone
  obtain rfl : ts' = ts := by
    rw [← htokens, lex, hlexed, hfilter hcode heof]
  obtain ⟨us, eof', hlexed', heof', hcode', hcorresponds⟩ :=
    hbegins.cutsAlike hline hcode "<string>" .start
  obtain ⟨hsame, hadjacent⟩ := hcorresponds.same
  refine ⟨hbegins.condensed, us, ?_, hsame, hadjacent, fun symbols => ?_⟩
  · rw [codeTokens_eq_ok_iff, lex, hlexed']
    exact ⟨rfl, hfilter hcode' heof'⟩
  · exact Comparison.evaluate_eq rfl hcorresponds

/-- Code with a quotation mark and a backslash in front of comments. -/
theorem relex_join_comments :
    '\n' ∉ "0x/* */1F /*\"*/ '\\/**/e+ // end".toList ∧
      ∃ ts us, codeTokens "0x/* */1F /*\"*/ '\\/**/e+ // end" = .ok ts ∧
        Token.join ts = "0x 1F '\\ e+" ∧ codeTokens "0x 1F '\\ e+" = .ok us ∧
        adjacencies us = adjacencies ts := by
  have hline : '\n' ∉ "0x/* */1F /*\"*/ '\\/**/e+ // end".toList := by decide
  have htokens : codeTokens "0x/* */1F /*\"*/ '\\/**/e+ // end" = .ok
      [⟨.number, "0", 1, 1⟩, ⟨.ident, "x", 1, 2⟩, ⟨.number, "1", 1, 8⟩, ⟨.ident, "F", 1, 9⟩,
        ⟨.punct, "'", 1, 17⟩, ⟨.punct, "\\", 1, 18⟩, ⟨.ident, "e", 1, 23⟩, ⟨.punct, "+", 1, 24⟩] :=
    codeTokens_eq_ok_iff.mpr (by decide +kernel)
  obtain ⟨-, us, hcut, -, hadjacent, -⟩ := relex_join hline htokens
  have hjoin : Token.join [⟨.number, "0", 1, 1⟩, ⟨.ident, "x", 1, 2⟩, ⟨.number, "1", 1, 8⟩,
      ⟨.ident, "F", 1, 9⟩, ⟨.punct, "'", 1, 17⟩, ⟨.punct, "\\", 1, 18⟩, ⟨.ident, "e", 1, 23⟩,
      ⟨.punct, "+", 1, 24⟩] = "0x 1F '\\ e+" := by
    decide +kernel
  rw [hjoin] at hcut
  exact ⟨hline, _, us, htokens, hjoin, hcut, hadjacent⟩

end SdkBindings
