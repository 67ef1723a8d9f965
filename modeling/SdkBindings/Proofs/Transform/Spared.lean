import SdkBindings.Proofs.Lexing.Rows
import SdkBindings.Proofs.Transform.Words

/-!
# Removing prefixes from stored code

Prefixes are removed from stored code as from any text, anywhere in it and without regard to its tokens.
Whether it is cut to the same tokens afterwards, with the prefixes removed from the identifiers
(`KeepsTokens`), depends on each token and on what stands behind it (`Token.IsSpared`): an identifier may
vanish or lose its start, a literal may contain a prefix, and a number may contain one, share one with
the name that follows it, or be continued by what is left of that name.

If none of this happens, the tokens are kept (`AreSpared.keepsTokens`).  The induction is on the tokens.
What is removed from the text in front of a token is what is removed from the token and from the text
behind it, since no prefix reaches across what is not part of a name (`strip_append`).
-/

namespace SdkBindings

open Lexer
open Transform

/-! ## What is to be kept -/

/-- The text of a token after prefixes have been removed from names. -/
def Token.renamed (prefixes : List String) (t : Token) : String :=
  if t.kind = .ident then normalize prefixes t.text else t.text

/-- The second tokens have the same kinds and texts as the first ones, in the same order, except that the
prefixes have been removed from each identifier. -/
def AreRenamed (prefixes : List String) (ts us : List Token) : Prop :=
  us.map (fun u => (u.kind, u.text)) = ts.map fun t => (t.kind, t.renamed prefixes)

/-- The text is cut to the tokens with the prefixes removed from each identifier. -/
def KeepsTokens (prefixes : List String) (ts : List Token) (text : String) : Prop :=
  ∃ us, codeTokens text = .ok us ∧ AreRenamed prefixes ts us

/-- Removing the prefixes does no harm to the token in front of `after`: an identifier still is one, a
literal loses nothing, and from a number nothing is removed, neither alone nor with what follows, nor is
it continued by what is left of that. -/
def Token.IsSpared (prefixes : List String) (t : Token) (after : List Char) : Prop :=
  match t.kind with
  | .ident => IsName (normalize prefixes t.text)
  | .number =>
    strip prefixes (t.text.toList ++ after) = t.text.toList ++ strip prefixes after ∧
      numberLength? (t.text.toList ++ strip prefixes after) = some t.text.toList.length
  | .string | .char => normalize prefixes t.text = t.text
  | _ => True

/-- Removing the prefixes does no harm to any of the tokens in front of those behind it. -/
def AreSpared (prefixes : List String) : List Token → Prop
  | [] => True
  | t :: ts => t.IsSpared prefixes (Token.joinAfter t ts) ∧ AreSpared prefixes ts

/-- Whether a token is harmed can be decided. -/
instance Token.IsSpared.decidable (prefixes : List String) :
    (t : Token) → (after : List Char) → Decidable (t.IsSpared prefixes after)
  | ⟨.ident, text, _, _⟩, _ => inferInstanceAs (Decidable (IsName (normalize prefixes text)))
  | ⟨.number, text, _, _⟩, after =>
    inferInstanceAs (Decidable
      (strip prefixes (text.toList ++ after) = text.toList ++ strip prefixes after ∧
        numberLength? (text.toList ++ strip prefixes after) = some text.toList.length))
  | ⟨.string, text, _, _⟩, _ => inferInstanceAs (Decidable (normalize prefixes text = text))
  | ⟨.char, text, _, _⟩, _ => inferInstanceAs (Decidable (normalize prefixes text = text))
  | ⟨.punct, _, _, _⟩, _ => inferInstanceAs (Decidable True)
  | ⟨.newline, _, _, _⟩, _ => inferInstanceAs (Decidable True)
  | ⟨.eof, _, _, _⟩, _ => inferInstanceAs (Decidable True)

/-- Whether any token is harmed can be decided. -/
instance AreSpared.decidable (prefixes : List String) :
    (ts : List Token) → Decidable (AreSpared prefixes ts)
  | [] => inferInstanceAs (Decidable True)
  | t :: ts =>
    have := AreSpared.decidable prefixes ts
    inferInstanceAs (Decidable (t.IsSpared prefixes (Token.joinAfter t ts) ∧ AreSpared prefixes ts))

/-- The parts of a row. -/
theorem IsRow.form {t : Token} {ts : List Token} (h : IsRow (t :: ts)) :
    TokenForm t (Token.joinAfter t ts) :=
  h.1.2.2.form h.1.1

variable {prefixes : List String}

/-- What is no identifier is renamed to itself. -/
theorem Token.renamed_of_ne {t : Token} (h : t.kind ≠ .ident) : t.renamed prefixes = t.text :=
  if_neg h

/-- A literal is no identifier. -/
theorem Token.ne_ident_of_literal {t : Token} {mark : Char}
    (h : t.kind = if mark = '"' then .string else .char) : t.kind ≠ .ident := by
  rw [h]
  split <;> decide

/-- A token that is not harmed starts under its new name as it did before, or as an identifier does. -/
theorem Token.IsSpared.head?_renamed {t : Token} {after : List Char} (h : t.IsSpared prefixes after)
    (hform : TokenForm t after) : ∃ c rest, (t.renamed prefixes).toList = c :: rest ∧
      (c ∈ t.text.toList.head? ∨ isIdentStart c = true) := by
  have hsame {c : Char} {rest : List Char} (htext : t.text.toList = c :: rest)
      (hkind : t.kind ≠ .ident) : ∃ c rest, (t.renamed prefixes).toList = c :: rest ∧
        (c ∈ t.text.toList.head? ∨ isIdentStart c = true) := by
    refine ⟨c, rest, by rw [Token.renamed_of_ne hkind, htext], .inl ?_⟩
    rw [htext]
    rfl
  cases hform with
  | ident hkind =>
    rw [Token.IsSpared, hkind] at h
    have hname : isIdentifier (normalize prefixes t.text).toList = true := h
    rw [Token.renamed, if_pos hkind]
    cases htext : (normalize prefixes t.text).toList with
    | nil =>
      rw [htext] at hname
      cases hname
    | cons c rest =>
      rw [htext, isIdentifier, Bool.and_eq_true] at hname
      exact ⟨c, rest, rfl, .inr hname.1⟩
  | number hkind htext => exact hsame htext (by simp [hkind])
  | literal hmark hkind htext => exact hsame htext (Token.ne_ident_of_literal hkind)
  | punct hkind htext => exact hsame htext (by simp [hkind])

section

variable (hprefixes : ∀ part ∈ prefixes, IsName part)

include hprefixes

/-! ## Tokens without harm -/

/-- Between the marks of a literal and behind it prefixes are removed one by one. -/
theorem strip_literal {mark : Char} (hmark : mark = '"' ∨ mark = '\'') (body after : List Char) :
    strip prefixes (mark :: (body ++ mark :: after)) =
      mark :: (strip prefixes body ++ mark :: strip prefixes after) := by
  have hpart : isIdentPart mark = false := by rcases hmark with rfl | rfl <;> decide
  have hends : EndsWord (mark :: after) := by
    intro c hc
    obtain rfl := Option.some.inj hc
    exact hpart
  rw [strip_cons_of_outer hprefixes hpart, strip_append hprefixes body hends,
    strip_cons_of_outer hprefixes hpart]

/-- A literal loses nothing if nothing is removed between its marks. -/
theorem Token.isSpared_literal_iff {t : Token} {mark : Char} {body : List Char}
    (hmark : mark = '"' ∨ mark = '\'') (hkind : t.kind = if mark = '"' then .string else .char)
    (htext : t.text.toList = mark :: (body ++ [mark])) (after : List Char) :
    t.IsSpared prefixes after ↔ strip prefixes body = body := by
  have hspared : t.IsSpared prefixes after ↔ normalize prefixes t.text = t.text := by
    rcases hmark with rfl | rfl
    · rw [Token.IsSpared, hkind, if_pos rfl]
    · rw [Token.IsSpared, hkind, if_neg (by decide)]
  rw [hspared, ← String.toList_inj, toList_normalize, htext, strip_literal hprefixes hmark,
    strip_empty]
  simp

/-- A token that is not harmed is renamed in place. -/
theorem Token.IsSpared.strip {t : Token} {after : List Char} (h : t.IsSpared prefixes after)
    (hform : TokenForm t after) :
    Transform.strip prefixes (t.text.toList ++ after) =
      (t.renamed prefixes).toList ++ Transform.strip prefixes after := by
  cases hform with
  | ident hkind hname hafter =>
    rw [strip_append hprefixes _ hafter, Token.renamed, if_pos hkind, toList_normalize]
  | number hkind =>
    rw [Token.IsSpared, hkind] at h
    rw [Token.renamed_of_ne (by simp [hkind])]
    exact h.1
  | literal hmark hkind htext hbody =>
    have hkept := (Token.isSpared_literal_iff hprefixes hmark hkind htext after).mp h
    rw [Token.renamed_of_ne (Token.ne_ident_of_literal hkind), htext, List.cons_append,
      List.append_assoc, List.singleton_append, strip_literal hprefixes hmark, hkept]
    simp
  | punct hkind htext hc =>
    rw [Token.renamed_of_ne (by simp [hkind]), htext]
    exact strip_cons_of_outer hprefixes (isIdentPart_of_mem_punctuation hc) after

/-- A row without harm in front is renamed there. -/
theorem strip_joinAfter {t : Token} {ts : List Token} (hrow : IsRow (t :: ts))
    (h : AreSpared prefixes (t :: ts)) (previous : Token) :
    strip prefixes (Token.joinAfter previous (t :: ts)) =
      (if t.isAdjacentTo previous then [] else [' ']) ++
        ((t.renamed prefixes).toList ++ strip prefixes (Token.joinAfter t ts)) := by
  have hblank : isIdentPart ' ' = false := by decide
  rw [Token.joinAfter, List.append_assoc, ← h.1.strip hprefixes hrow.form]
  split
  · rfl
  · rw [List.singleton_append, List.singleton_append, strip_cons_of_outer hprefixes hblank]

/-- The token under its new name has a form as well if punctuation stays alone. -/
theorem Token.IsSpared.form {t : Token} {after : List Char} (h : t.IsSpared prefixes after)
    (hform : TokenForm t after) (hlone : ∀ c, c ∈ punctuation → IsLone c after →
      IsLone c (Transform.strip prefixes after)) :
    TokenForm { t with text := t.renamed prefixes } (Transform.strip prefixes after) := by
  cases hform with
  | ident hkind hname hafter =>
    refine .ident hkind ?_ (endsWord_strip hprefixes hafter)
    rw [Token.IsSpared, hkind] at h
    rw [Token.renamed, if_pos hkind]
    exact h
  | number hkind htext hlength =>
    rw [Token.IsSpared, hkind] at h
    rw [Token.renamed_of_ne (by simp [hkind])]
    exact .number hkind htext h.2
  | literal hmark hkind htext hbody =>
    rw [Token.renamed_of_ne (Token.ne_ident_of_literal hkind)]
    exact .literal hmark hkind htext hbody
  | punct hkind htext hc hlone' =>
    rw [Token.renamed_of_ne (by simp [hkind])]
    exact .punct hkind htext hc (hlone _ hc hlone')

/-- The first character of a row without harm stays, or is that of an identifier. -/
theorem head?_strip_joinAfter {ts : List Token} (hrow : IsRow ts) (h : AreSpared prefixes ts)
    (previous : Token) : ∀ c ∈ (strip prefixes (Token.joinAfter previous ts)).head?,
      c ∈ (Token.joinAfter previous ts).head? ∨ isIdentStart c = true := by
  intro c hc
  cases ts with
  | nil =>
    rw [Token.joinAfter, strip_empty] at hc
    cases hc
  | cons t ts =>
    obtain ⟨d, rest, hrenamed, hd⟩ := h.1.head?_renamed hrow.form
    rw [strip_joinAfter hprefixes hrow h, hrenamed] at hc
    rw [Token.joinAfter]
    split at hc
    · obtain rfl := Option.some.inj hc
      rw [if_pos ‹_›]
      refine hd.imp_left fun hd => ?_
      obtain ⟨tail, htail⟩ := List.head?_eq_some_iff.mp hd
      rw [htail]
      rfl
    · obtain rfl := Option.some.inj hc
      rw [if_neg ‹_›]
      exact .inl rfl

/-- A machine that a name leads to the state after a blank reads a row without harm to its end once the
prefixes have been removed if it does so before. -/
theorem survives_strip {σ : Type} (w : Watch σ)
    (hword : ∀ s c, isIdentPart c = true → w.step s c = some w.rest) {ts : List Token}
    (hrow : IsRow ts) (h : AreSpared prefixes ts) (previous : Token) {s : σ}
    (hrun : (w.run s (Token.joinAfter previous ts)).isSome) :
    (w.run s (strip prefixes (Token.joinAfter previous ts))).isSome := by
  have hname {word : List Char} (h : isIdentifier word = true) (s : σ) :
      w.run s word = some w.rest := by
    cases word with
    | nil => cases h
    | cons c word =>
      rw [isIdentifier, Bool.and_eq_true, List.all_eq_true] at h
      rw [w.run_cons, hword s c (isIdentPart_of_isIdentStart h.1), Option.bind_some]
      have hrest : ∀ d ∈ word, w.step w.rest d = some w.rest := fun d hd => hword _ d (h.2 d hd)
      clear h
      induction word with
      | nil => rfl
      | cons d word ih =>
        obtain ⟨hd, hword⟩ := List.forall_mem_cons.mp hrest
        rw [w.run_cons, hd, Option.bind_some, ih hword]
  induction ts generalizing previous s with
  | nil =>
    rw [Token.joinAfter, strip_empty]
    rfl
  | cons t ts ih =>
    have hsame (s : σ) : w.run s (t.renamed prefixes).toList = w.run s t.text.toList := by
      by_cases hkind : t.kind = .ident
      · have hspared := h.1
        rw [Token.IsSpared, hkind] at hspared
        rw [Token.renamed, if_pos hkind, hname hspared, hname (hrow.1.2.2.ident hkind).1]
      · rw [Token.renamed_of_ne hkind]
    rw [strip_joinAfter hprefixes hrow h]
    rw [Token.joinAfter, List.append_assoc] at hrun
    rw [w.run_append] at hrun ⊢
    obtain ⟨s₁, hs₁⟩ := Option.isSome_iff_exists.mp hrun
    obtain ⟨s₂, hgap, hrest⟩ := Option.bind_eq_some_iff.mp hs₁
    rw [hgap, Option.bind_some, w.run_append, hsame]
    rw [w.run_append] at hrest
    obtain ⟨s₃, htoken, hafter⟩ := Option.bind_eq_some_iff.mp hrest
    rw [htoken, Option.bind_some]
    exact ih hrow.2 h.2 t (Option.isSome_of_eq_some hafter)

/-- A slash in front of a row without harm opens no comment if it did not do so before. -/
theorem commentLength?_strip {ts : List Token} (hrow : IsRow ts) (h : AreSpared prefixes ts)
    (previous : Token) (hnone : commentLength? (Token.joinAfter previous ts) = none) :
    commentLength? (strip prefixes (Token.joinAfter previous ts)) = none := by
  cases ts with
  | nil =>
    rw [Token.joinAfter, strip_empty]
    rfl
  | cons t ts =>
    rw [strip_joinAfter hprefixes hrow h]
    by_cases hadjacent : t.isAdjacentTo previous = true
    · obtain ⟨c, piece, hpiece, hscan⟩ := hrow.1.2.2
      rw [Token.joinAfter, if_pos hadjacent, hpiece] at hnone
      rw [if_pos hadjacent, List.nil_append]
      by_cases hstar : c = '*'
      · -- the asterisk is a token by itself, and no comment ends behind it
        subst hstar
        have hmark : scan '*' (piece ++ Token.joinAfter t ts) = some (some .punct, 0) :=
          scan_punct (by decide) (by decide) (by decide) (fun h => absurd h (by decide))
            (fun h => absurd h (by decide)) (fun h => absurd h (by decide))
        rw [hmark, Option.some.injEq, Prod.mk.injEq, Option.some.injEq] at hscan
        obtain rfl := List.length_eq_zero_iff.mp hscan.2.symm
        rw [Token.renamed_of_ne (by simp [← hscan.1]), hpiece]
        have hopen : commentEnd? (Token.joinAfter t ts) = none := Option.map_eq_none_iff.mp hnone
        have hword : ∀ s d, isIdentPart d = true → closingWatch.step s d = some false := by
          intro starred d hd
          have hother : d ≠ '*' ∧ d ≠ '/' := by
            constructor <;> rintro rfl <;> cases hd
          simp [closingWatch, hother]
        exact Option.map_eq_none_iff.mpr ((closingWatch_run _).mp
          (survives_strip hprefixes closingWatch hword hrow.2 h.2 t ((closingWatch_run _).mpr hopen)))
      · obtain ⟨d, rest, hrenamed, hd⟩ := h.1.head?_renamed hrow.form
        refine commentLength?_eq_none fun e he => ?_
        rw [hrenamed] at he
        obtain rfl := Option.some.inj he
        rcases hd with hd | hd
        · rw [hpiece] at hd
          obtain rfl := Option.some.inj hd
          refine ⟨?_, hstar⟩
          rintro rfl
          cases hnone
        · constructor <;> rintro rfl <;> cases hd
    · rw [if_neg hadjacent]
      exact commentLength?_eq_none (by simp)

/-- Punctuation in front of a row without harm stays alone. -/
theorem isLone_strip {ts : List Token} (hrow : IsRow ts) (h : AreSpared prefixes ts) {previous : Token}
    {c : Char} (hc : c ∈ punctuation) (hlone : IsLone c (Token.joinAfter previous ts)) :
    IsLone c (strip prefixes (Token.joinAfter previous ts)) := by
  have hline : '\n' ∉ Token.joinAfter previous ts := hrow.inline previous
  have hline' : '\n' ∉ strip prefixes (Token.joinAfter previous ts) := fun hmem =>
    hline ((strip_sublist _ _).mem hmem)
  refine ⟨?_, fun hmark => ?_, ?_⟩
  · by_cases hpoint : c = '.'
    · subst hpoint
      refine numberLength?_point fun d hd => ?_
      rcases head?_strip_joinAfter hprefixes hrow h previous d hd with hd | hd
      · refine Bool.eq_false_iff.mpr fun hdigit => ?_
        obtain ⟨rest, hrest⟩ := List.head?_eq_some_iff.mp hd
        exact numberLength?_fraction hdigit rest (hrest ▸ hlone.number)
      · exact (Bool.or_eq_false_iff.mp (isDigitLike_of_isIdentStart hd)).1
    · exact numberLength?_eq_none (isOutside_of_mem_punctuation hc).not_digit hpoint _
  · have hword : ∀ s d, isIdentPart d = true → (markWatch c hmark).step s d = some false := by
      intro escaped d hd
      have hother : d ≠ '\\' ∧ d ≠ c := by
        constructor
        · rintro rfl
          cases hd
        · rintro rfl
          cases hd.symm.trans (isIdentPart_of_mem_punctuation hc)
      simp [markWatch, hother]
    have hrun := (markWatch_run hmark hline).mpr (hlone.closing hmark)
    exact (markWatch_run hmark hline').mp (survives_strip hprefixes _ hword hrow h previous hrun)
  · rintro rfl
    refine commentLength?_strip hprefixes hrow h previous (hlone.comment rfl)

/-- What a row without harm is cut to once the prefixes have been removed. -/
theorem lexFrom_strip {ts : List Token} (hrow : IsRow ts) (h : AreSpared prefixes ts)
    (previous : Token) (file : String) (p : Position) :
    ∃ us eof,
      lexFrom file p (strip prefixes (Token.joinAfter previous ts)) = ⟨us ++ [eof], none⟩ ∧
      eof.isCode = false ∧ (∀ u ∈ us, u.isCode = true) ∧ AreRenamed prefixes ts us := by
  induction ts generalizing previous p with
  | nil =>
    rw [Token.joinAfter, strip_empty, lexFrom]
    exact ⟨[], _, rfl, rfl, List.forall_mem_nil _, rfl⟩
  | cons t ts ih =>
    have hcode : t.isCode = true := hrow.1.1
    have hline : '\n' ∉ strip prefixes (Token.joinAfter t ts) := fun hmem =>
      hrow.2.inline t ((strip_sublist _ _).mem hmem)
    have hform := h.1.form hprefixes hrow.form fun c hc => isLone_strip hprefixes hrow.2 h.2 hc
    have htoken := hform.takesToken hline
    have hspace := htoken.not_space hcode
    obtain ⟨c, piece, hpiece, hscan⟩ := htoken
    have hcut (q : Position) : ∃ us eof,
        lexFrom file q ((t.renamed prefixes).toList ++ strip prefixes (Token.joinAfter t ts)) =
            ⟨us ++ [eof], none⟩ ∧
          eof.isCode = false ∧ (∀ u ∈ us, u.isCode = true) ∧ AreRenamed prefixes (t :: ts) us := by
      obtain ⟨us, eof, hlexed, heof, hus, hsame⟩ := ih hrow.2 h.2 t (q.after (c :: piece))
      refine ⟨⟨t.kind, t.renamed prefixes, q.line, q.column⟩ :: us, eof, ?_, heof, ?_, ?_⟩
      · rw [show (t.renamed prefixes).toList = c :: piece from hpiece, List.cons_append,
          lexFrom_token file q hscan, hlexed, ← hpiece, String.ofList_toList]
        rfl
      · exact List.forall_mem_cons.mpr ⟨hcode, hus⟩
      · rw [AreRenamed, List.map_cons, List.map_cons, hsame]
    rw [strip_joinAfter hprefixes hrow h]
    split
    · exact hcut p
    · rw [List.singleton_append, lexFrom_space file p (hspace _)]
      exact hcut _

/-- **A row without harm keeps its tokens.** -/
theorem AreSpared.keepsTokens {ts : List Token} (h : AreSpared prefixes ts) (hrow : IsRow ts) :
    KeepsTokens prefixes ts (normalize prefixes (Token.join ts)) := by
  obtain ⟨previous, hjoin⟩ := Token.exists_joinAfter ts
  obtain ⟨us, eof, hlexed, heof, hcode, hsame⟩ :=
    lexFrom_strip hprefixes hrow h previous "<string>" .start
  refine ⟨us, ?_, hsame⟩
  rw [codeTokens_eq_ok_iff, lex, toList_normalize, ← hjoin, hlexed]
  refine ⟨rfl, ?_⟩
  rw [List.filter_append, List.filter_eq_self.mpr hcode]
  simp [heof]

end

end SdkBindings
