import SdkBindings.Proofs.Transform.Spared

/-!
# The tokens of stored code once prefixes have been removed

Stored code keeps its tokens when prefixes are removed from it exactly if no token is harmed
(`keepsTokens_normalize_iff`).

If the tokens are kept, they have to stand where they stood.  All that the scanner may put between them
besides blanks are comments and line continuations, and those have characters that belong to no name.
Removing prefixes leaves every such character alone, and the tokens have all of them already
(`tokenSigns_renamed`), so there are only blanks between the tokens (`Spaced`).  From there on each token
is matched with what has been left of the one it comes from, by induction on the row.
-/

namespace SdkBindings

open Lexer
open Transform

/-! ## Characters that count -/

/-- How many characters of a text are neither blanks nor characters of names. -/
def signs (text : List Char) : Nat :=
  (text.filter isOuter).countP fun c => !isSpace c

@[simp]
theorem signs_append (a b : List Char) : signs (a ++ b) = signs a + signs b := by
  rw [signs, List.filter_append, List.countP_append]
  rfl

/-- A blank does not count. -/
theorem signs_space {c : Char} (hc : isSpace c = true) (text : List Char) :
    signs (c :: text) = signs text := by
  rw [signs, List.filter_cons]
  split
  · rw [List.countP_cons_of_neg (by simp [hc])]
    rfl
  · rfl

/-- A name does not count. -/
theorem signs_word {text : List Char} (h : ∀ c ∈ text, isIdentPart c = true) : signs text = 0 := by
  rw [signs, filter_isOuter_word h]
  rfl

/-- Filler without characters that count consists of blanks. -/
theorem isSpace_of_filler {after gap : List Char} (h : Filler after gap) (hsigns : signs gap = 0) :
    ∀ c ∈ gap, isSpace c = true := by
  have hsign {c : Char} {text : List Char} (hc : isIdentPart c = false ∧ isSpace c = false) :
      signs (c :: text) ≠ 0 := by
    rw [signs, List.filter_cons_of_pos (by simp [isOuter, hc]), List.countP_cons_of_pos (by simp [hc])]
    exact Nat.succ_ne_zero _
  induction h with
  | nil => exact List.forall_mem_nil _
  | blank hc _ ih =>
    rw [signs_space hc] at hsigns
    exact List.forall_mem_cons.mpr ⟨hc, ih hsigns⟩
  | continued => exact absurd hsigns (hsign (by decide))
  | continuedReturn => exact absurd hsigns (hsign (by decide))
  | comment hcomment _ _ =>
    cases hcomment with
    | line => exact absurd hsigns (hsign (by decide))
    | block => exact absurd hsigns (hsign (by decide))

/-- The characters that count in tokens. -/
def tokenSigns (ts : List Token) : Nat :=
  signs (ts.flatMap fun t => t.text.toList)

@[simp]
theorem tokenSigns_cons (t : Token) (ts : List Token) :
    tokenSigns (t :: ts) = signs t.text.toList + tokenSigns ts := by
  rw [tokenSigns, List.flatMap_cons, signs_append]
  rfl

/-- Joining tokens adds none. -/
theorem signs_joinAfter (previous : Token) (ts : List Token) :
    signs (Token.joinAfter previous ts) = tokenSigns ts := by
  induction ts generalizing previous with
  | nil => rfl
  | cons t ts ih =>
    rw [Token.joinAfter, signs_append, signs_append, tokenSigns_cons, ih t]
    split
    · rw [show signs [] = 0 from rfl, Nat.zero_add]
    · rw [show signs [' '] = 0 from rfl, Nat.zero_add]

/-! ## Tokens between blanks -/

/-- The text consists of the tokens with nothing but blanks around them, each taken off in front of what
follows it. -/
inductive Spaced : List Char → List Token → Prop
  /-- Nothing but blanks is left. -/
  | ended {gap : List Char} (hgap : ∀ c ∈ gap, isSpace c = true) : Spaced gap []
  /-- A token stands behind blanks. -/
  | token {gap text : List Char} {t : Token} {ts : List Token} (hgap : ∀ c ∈ gap, isSpace c = true)
      (hcode : t.isCode = true) (htoken : TakesToken t text) (rest : Spaced text ts) :
      Spaced (gap ++ (t.text.toList ++ text)) (t :: ts)

/-- The tokens of a text have no more characters that count than the text. -/
theorem Lexer.Condenses.tokenSigns_le {text joined : List Char} {ts : List Token}
    (h : Condenses text ts joined) : tokenSigns ts ≤ signs text := by
  induction h with
  | ended => exact Nat.zero_le _
  | token _ _ _ ih =>
    rw [tokenSigns_cons, signs_append, signs_append]
    omega

/-- If all that count belong to tokens, nothing but blanks stands between these. -/
theorem Lexer.Condenses.spaced {text joined : List Char} {ts : List Token}
    (h : Condenses text ts joined) (hcode : ∀ t ∈ ts, t.isCode = true)
    (hsigns : signs text ≤ tokenSigns ts) : Spaced text ts := by
  induction h with
  | ended hgap => exact .ended (isSpace_of_filler hgap (Nat.le_zero.mp hsigns))
  | token hgap htoken hrest ih =>
    obtain ⟨ht, hts⟩ := List.forall_mem_cons.mp hcode
    rw [tokenSigns_cons, signs_append, signs_append] at hsigns
    have hle := hrest.tokenSigns_le
    exact .token (isSpace_of_filler hgap (by omega)) ht htoken (ih hts (by omega))

/-- Blanks in front do not matter. -/
theorem Spaced.of_space {c : Char} {text : List Char} {ts : List Token} (h : Spaced (c :: text) ts)
    (hc : isSpace c = true) : Spaced text ts := by
  generalize htext : c :: text = whole at h
  cases h with
  | ended hgap =>
    rw [← htext] at hgap
    exact .ended (List.forall_mem_cons.mp hgap).2
  | @token gap text' t ts hgap hcode htoken rest =>
    cases gap with
    | nil =>
      rw [List.nil_append] at htext
      have hspace := htoken.not_space hcode text' c (by rw [← htext]; rfl)
      cases hc.symm.trans hspace
    | cons d gap =>
      rw [(List.cons.inj htext).2]
      exact .token (List.forall_mem_cons.mp hgap).2 hcode htoken rest

/-- The first of the tokens is taken off in front of the others. -/
theorem Spaced.exists_tail {text : List Char} {t : Token} {ts : List Token}
    (h : Spaced text (t :: ts)) : ∃ after, TakesToken t after ∧ Spaced after ts := by
  cases h with
  | token _ _ htoken hrest => exact ⟨_, htoken, hrest⟩

/-- What starts with something else starts with the first token. -/
theorem Spaced.exists_append {c : Char} {text : List Char} {t : Token} {ts : List Token}
    (h : Spaced (c :: text) (t :: ts)) (hc : isSpace c = false) :
    ∃ rest, c :: text = t.text.toList ++ rest ∧ TakesToken t rest ∧ t.isCode = true ∧
      Spaced rest ts := by
  generalize htext : c :: text = whole at h
  cases h with
  | @token gap text' _ _ hgap hcode htoken rest =>
    cases gap with
    | nil => exact ⟨text', rfl, htoken, hcode, rest⟩
    | cons d gap =>
      obtain rfl := (List.cons.inj htext).1
      cases hc.symm.trans (hgap c List.mem_cons_self)

/-! ## Where tokens end -/

/-- A token that is no identifier starts with something else, and with no blank. -/
theorem Lexer.TokenForm.exists_cons {t : Token} {after : List Char} (h : TokenForm t after)
    (hkind : t.kind ≠ .ident) :
    ∃ c rest, t.text.toList = c :: rest ∧ isIdentStart c = false ∧ isSpace c = false := by
  cases h with
  | ident hident => exact absurd hident hkind
  | number _ htext hlength =>
    rw [htext, List.cons_append] at hlength
    have hstart := (numberLength?_eq_some hlength).2.1
    refine ⟨_, _, htext, Bool.eq_false_iff.mpr fun hident => ?_, isSpace_eq_false (.inr hstart)⟩
    rcases hstart with hdigit | rfl
    · have hother := (Bool.or_eq_false_iff.mp (isDigitLike_of_isIdentStart hident)).1
      cases hdigit.symm.trans hother
    · cases hident
  | literal hmark _ htext =>
    refine ⟨_, _, htext, ?_⟩
    rcases hmark with rfl | rfl <;> decide
  | punct _ htext hc =>
    have houtside := isOutside_of_mem_punctuation hc
    exact ⟨_, _, htext, houtside.not_identStart, houtside.not_space⟩

/-- A text starts with one word only that does not go on. -/
theorem Lexer.EndsWord.append_inj {a b x y : List Char} (ha : ∀ c ∈ a, isIdentPart c = true)
    (hb : ∀ c ∈ b, isIdentPart c = true) (hx : EndsWord x) (hy : EndsWord y)
    (h : a ++ x = b ++ y) : a = b ∧ x = y := by
  have hword {a x : List Char} (ha : ∀ c ∈ a, isIdentPart c = true) (hx : EndsWord x) :
      (a ++ x).takeWhile isIdentPart = a := by
    rw [List.takeWhile_append_of_pos ha, endsWord_iff.mp hx, List.append_nil]
  have hab : a = b := by rw [← hword ha hx, h, hword hb hy]
  subst hab
  exact ⟨rfl, List.append_cancel_left h⟩

/-- What continues as a name behind a number in a row is an identifier right behind it. -/
theorem exists_glued {t : Token} {ts : List Token} (hrow : IsRow (t :: ts)) (hkind : t.kind = .number)
    (h : ¬ EndsWord (Token.joinAfter t ts)) :
    ∃ v us, ts = v :: us ∧ v.kind = .ident ∧
      Token.joinAfter t ts = v.text.toList ++ Token.joinAfter v us := by
  obtain ⟨c, hc, hpart⟩ : ∃ c ∈ (Token.joinAfter t ts).head?, isIdentPart c = true := by
    simpa [EndsWord] using h
  have hdigit : c.isDigit = false :=
    isPastDigits_number (hrow.1.2.2.number hkind) c (by rwa [List.drop_left])
  have hstart : isIdentStart c = true := isIdentStart_iff.mpr ⟨hpart, hdigit⟩
  cases ts with
  | nil => cases hc
  | cons v us =>
    rw [Token.joinAfter, List.append_assoc] at hc ⊢
    by_cases hadjacent : v.isAdjacentTo t = true
    · rw [if_pos hadjacent, List.nil_append] at hc ⊢
      refine ⟨v, us, rfl, Decidable.byContradiction fun hother => ?_, rfl⟩
      obtain ⟨d, rest, htext, hd, -⟩ := hrow.2.form.exists_cons hother
      rw [htext] at hc
      obtain rfl := Option.some.inj hc
      cases hstart.symm.trans hd
    · rw [if_neg hadjacent] at hc
      obtain rfl := Option.some.inj hc
      cases hstart

variable {prefixes : List String}

/-- Among renamed tokens the first one comes from the first one. -/
theorem AreRenamed.exists_cons {t : Token} {ts us : List Token} (h : AreRenamed prefixes (t :: ts) us) :
    ∃ u us', us = u :: us' ∧ u.kind = t.kind ∧ u.text = t.renamed prefixes ∧
      AreRenamed prefixes ts us' := by
  obtain ⟨u, us', rfl, hpair, hrest⟩ := List.map_eq_cons_iff.mp h
  obtain ⟨hkind, htext⟩ := Prod.mk.inj hpair
  exact ⟨u, us', rfl, hkind, htext, hrest⟩

section

variable (hprefixes : ∀ part ∈ prefixes, IsName part)

include hprefixes

/-! ## What is left when prefixes have been removed -/

/-- Removing prefixes leaves the characters that count. -/
theorem signs_strip (text : List Char) : signs (strip prefixes text) = signs text := by
  rw [signs, filter_strip hprefixes, signs]

/-- A text that does not start with an identifier keeps its start. -/
theorem strip_cons_append {t : Token} {after : List Char} (hform : TokenForm t after)
    (hkind : t.kind ≠ .ident) :
    ∃ c text, strip prefixes (t.text.toList ++ after) = c :: text ∧ isIdentStart c = false ∧
      isSpace c = false := by
  obtain ⟨c, rest, htext, hstart, hspace⟩ := hform.exists_cons hkind
  refine ⟨c, strip prefixes (rest ++ after), ?_, hstart, hspace⟩
  rw [htext, List.cons_append, strip_cons_of_not_start hprefixes hstart]

/-- The first token of a row that is left stands behind blanks. -/
theorem Spaced.of_joinAfter {previous t : Token} {ts us : List Token}
    (h : Spaced (strip prefixes (Token.joinAfter previous (t :: ts))) us) :
    Spaced (strip prefixes (t.text.toList ++ Token.joinAfter t ts)) us := by
  rw [Token.joinAfter, List.append_assoc] at h
  split at h
  · exact h
  · rw [List.singleton_append, strip_cons_of_outer hprefixes (by decide)] at h
    exact h.of_space (by decide)

/-- What is left of an identifier in a row. -/
theorem strip_ident {t : Token} {ts : List Token} (hrow : IsRow (t :: ts)) (hkind : t.kind = .ident) :
    strip prefixes (t.text.toList ++ Token.joinAfter t ts) =
        (t.renamed prefixes).toList ++ strip prefixes (Token.joinAfter t ts) ∧
      (∀ c ∈ (t.renamed prefixes).toList, isIdentPart c = true) ∧
      EndsWord (strip prefixes (Token.joinAfter t ts)) := by
  obtain ⟨hname, hafter⟩ := hrow.1.2.2.ident hkind
  rw [Token.renamed, if_pos hkind, toList_normalize]
  refine ⟨strip_append hprefixes _ hafter, fun c hc => ?_, endsWord_strip hprefixes hafter⟩
  exact Text.isIdentPart_of_mem hname ((strip_sublist _ _).mem hc)

/-- The token an identifier of a row is left as is followed by what is left of the others. -/
theorem Spaced.tail_ident {t u : Token} {ts us : List Token} (hrow : IsRow (t :: ts))
    (hkind : t.kind = .ident) (hne : (t.renamed prefixes).toList ≠ [])
    (h : Spaced (strip prefixes (t.text.toList ++ Token.joinAfter t ts)) (u :: us))
    (hu : u.kind = .ident) :
    u.text = t.renamed prefixes ∧ Spaced (strip prefixes (Token.joinAfter t ts)) us := by
  obtain ⟨hstrip, hword, hends⟩ := strip_ident hprefixes hrow hkind
  rw [hstrip] at h
  obtain ⟨c, piece, hpiece⟩ := List.exists_cons_of_ne_nil hne
  have hspace : isSpace c = false := isSpace_eq_false (.inl (hword c (hpiece ▸ List.mem_cons_self)))
  rw [hpiece, List.cons_append] at h
  obtain ⟨rest, happend, htoken, -, hrest⟩ := h.exists_append hspace
  obtain ⟨hname, hafter⟩ := htoken.ident hu
  rw [← List.cons_append, ← hpiece] at happend
  obtain ⟨htext, rfl⟩ :=
    EndsWord.append_inj hword (fun c => Text.isIdentPart_of_mem hname) hends hafter happend
  exact ⟨String.toList_inj.mp htext.symm, hrest⟩

/-- A row does not become one with another identifier in front. -/
theorem not_spaced {ts us : List Token} (hrow : IsRow ts) {previous u : Token}
    (h : Spaced (strip prefixes (Token.joinAfter previous ts)) (u :: us)) (hkind : u.kind = .ident)
    (hsame : AreRenamed prefixes ts us) :
    False := by
  induction ts generalizing previous u us with
  | nil =>
    rw [Token.joinAfter, strip_empty] at h
    generalize hnil : ([] : List Char) = text at h
    cases h with
    | token _ _ htoken _ =>
      obtain ⟨c, piece, hpiece, -⟩ := htoken
      simp [hpiece] at hnil
  | cons t ts ih =>
    obtain ⟨v, us, rfl, hvkind, hvtext, hsame⟩ := hsame.exists_cons
    have htoken := Spaced.of_joinAfter hprefixes h
    by_cases hident : t.kind = .ident
    · -- the identifier takes the place of the first token of the row, which takes its place in turn
      have hne : (t.renamed prefixes).toList ≠ [] := by
        rw [← hvtext]
        obtain ⟨_, -, hbehind⟩ := htoken.exists_tail
        obtain ⟨_, ⟨c, piece, hpiece, -⟩, -⟩ := hbehind.exists_tail
        rw [hpiece]
        exact List.cons_ne_nil c piece
      obtain ⟨-, hrest⟩ := Spaced.tail_ident hprefixes hrow hident hne htoken hkind
      exact ih hrow.2 hrest (hvkind.trans hident) hsame
    · obtain ⟨c, text, hstrip, hstart, hspace⟩ := strip_cons_append hprefixes hrow.form hident
      rw [hstrip] at htoken
      obtain ⟨rest, happend, htaken, -⟩ := htoken.exists_append hspace
      obtain ⟨hname, -⟩ := htaken.ident hkind
      cases htext : u.text.toList with
      | nil =>
        rw [htext] at hname
        cases hname
      | cons d piece =>
        rw [htext, isIdentifier, Bool.and_eq_true] at hname
        rw [htext] at happend
        obtain rfl := (List.cons.inj happend).1
        cases hname.1.symm.trans hstart

/-- A number of a row that is left in front of the others has lost nothing, and is followed by what is
left of them. -/
theorem Spaced.tail_number {t u : Token} {ts us : List Token} (hrow : IsRow (t :: ts))
    (hkind : t.kind = .number)
    (h : Spaced (strip prefixes (t.text.toList ++ Token.joinAfter t ts)) (u :: us))
    (hu : u.text = t.text)
    (hsame : AreRenamed prefixes ts us) :
    ∃ rest, strip prefixes (t.text.toList ++ Token.joinAfter t ts) = t.text.toList ++ rest ∧
      rest = strip prefixes (Token.joinAfter t ts) ∧ TakesToken u rest ∧ Spaced rest us := by
  obtain ⟨c, text, hstrip, -, hspace⟩ := strip_cons_append hprefixes hrow.form (by simp [hkind])
  rw [hstrip] at h
  obtain ⟨rest, happend, htoken, -, hrest⟩ := h.exists_append hspace
  rw [← hstrip, hu] at happend
  refine ⟨rest, happend, ?_, htoken, hrest⟩
  by_cases hends : EndsWord (Token.joinAfter t ts)
  · rw [strip_append hprefixes _ hends] at happend
    obtain ⟨more, hmore, hrest, -⟩ :=
      strip_append_eq hprefixes rfl (endsWord_strip hprefixes hends) happend
    -- nothing has been added to the number
    have hle := (strip_sublist prefixes t.text.toList).length_le
    rw [hmore, List.length_append] at hle
    obtain rfl : more = [] := List.length_eq_zero_iff.mp (by omega)
    exact hrest
  · -- an identifier stands right behind the number
    obtain ⟨v, ts, rfl, hv, hjoin⟩ := exists_glued hrow hkind hends
    obtain ⟨w, us, rfl, hwkind, hwtext, hsame⟩ := hsame.exists_cons
    obtain ⟨hname, hafter⟩ := hrow.2.1.2.2.ident hv
    obtain ⟨hident, -, hends⟩ := strip_ident hprefixes hrow.2 hv
    have hfilter : (t.text.toList ++ v.text.toList).filter isOuter = t.text.toList.filter isOuter := by
      rw [List.filter_append, filter_isOuter_word fun c => Text.isIdentPart_of_mem hname,
        List.append_nil]
    rw [hjoin, ← List.append_assoc, strip_append hprefixes _ hafter] at happend
    obtain ⟨more, -, rfl, hmore⟩ := strip_append_eq hprefixes hfilter hends happend
    rw [hjoin, hident, ← hwtext]
    cases more with
    | nil => exact (not_spaced hprefixes hrow.2.2 hrest (hwkind.trans hv) hsame).elim
    | cons d more =>
      have hspace : isSpace d = false := isSpace_eq_false (.inl (hmore d List.mem_cons_self))
      obtain ⟨rest, happend', htoken', -, -⟩ := Spaced.exists_append hrest hspace
      obtain ⟨hname', hafter'⟩ := htoken'.ident (hwkind.trans hv)
      rw [(EndsWord.append_inj hmore (fun c => Text.isIdentPart_of_mem hname') hends hafter'
        happend').1]

/-- A literal that is left in front of a text has lost nothing between its marks, and is followed by what
is left of the text. -/
theorem Spaced.tail_literal {t u : Token} {us : List Token} {mark : Char} {body after : List Char}
    (hmark : mark = '"' ∨ mark = '\'') (htext : t.text.toList = mark :: (body ++ [mark]))
    (hu : u.text = t.text) (h : Spaced (strip prefixes (t.text.toList ++ after)) (u :: us)) :
    strip prefixes body = body ∧ Spaced (strip prefixes after) us := by
  have hspace : isSpace mark = false := by rcases hmark with rfl | rfl <;> decide
  have hends (text : List Char) : EndsWord (mark :: text) := by
    intro c hc
    obtain rfl := Option.some.inj hc
    rcases hmark with rfl | rfl <;> decide
  rw [htext, List.cons_append, List.append_assoc, List.singleton_append,
    strip_literal hprefixes hmark] at h
  obtain ⟨rest, happend, -, -, hrest⟩ := h.exists_append hspace
  rw [hu, htext, List.cons_append, List.append_assoc, List.singleton_append] at happend
  obtain ⟨more, hmore, hafter, -⟩ :=
    strip_append_eq hprefixes rfl (hends _) (List.cons.inj happend).2
  -- nothing has been added between the marks
  have hle := (strip_sublist prefixes body).length_le
  rw [hmore, List.length_append] at hle
  obtain rfl : more = [] := List.length_eq_zero_iff.mp (by omega)
  obtain rfl := (List.cons.inj hafter).2
  rw [List.append_nil] at hmore
  exact ⟨hmore, hrest⟩

/-- Punctuation that is left in front of a text is followed by what is left of the text. -/
theorem Spaced.tail_punct {t u : Token} {us : List Token} {c : Char} {after : List Char}
    (hc : c ∈ punctuation) (htext : t.text.toList = [c]) (hu : u.text = t.text)
    (h : Spaced (strip prefixes (t.text.toList ++ after)) (u :: us)) :
    Spaced (strip prefixes after) us := by
  rw [htext, List.singleton_append,
    strip_cons_of_outer hprefixes (isIdentPart_of_mem_punctuation hc)] at h
  obtain ⟨rest, happend, -, -, hrest⟩ := h.exists_append (isOutside_of_mem_punctuation hc).not_space
  rw [hu, htext, List.singleton_append] at happend
  rw [(List.cons.inj happend).2]
  exact hrest

/-- **Only a row without harm keeps its tokens.** -/
theorem areSpared_of_spaced {ts us : List Token} (hrow : IsRow ts) {previous : Token}
    (h : Spaced (strip prefixes (Token.joinAfter previous ts)) us)
    (hsame : AreRenamed prefixes ts us) :
    AreSpared prefixes ts := by
  induction ts generalizing previous us with
  | nil => trivial
  | cons t ts ih =>
    obtain ⟨u, us, rfl, hukind, hutext, hsame⟩ := hsame.exists_cons
    have htoken := Spaced.of_joinAfter hprefixes h
    -- what is left of the token is told from what is left of the others
    obtain ⟨hspared, hrest⟩ : t.IsSpared prefixes (Token.joinAfter t ts) ∧
        Spaced (strip prefixes (Token.joinAfter t ts)) us := by
      cases hrow.form with
      | ident hkind =>
        obtain ⟨_, hident, -⟩ := htoken.exists_tail
        have hname : isIdentifier (t.renamed prefixes).toList = true :=
          hutext ▸ (hident.ident (hukind.trans hkind)).1
        have hne : (t.renamed prefixes).toList ≠ [] := by
          intro hnil
          rw [hnil] at hname
          cases hname
        rw [Token.IsSpared, hkind]
        rw [Token.renamed, if_pos hkind] at hname
        exact ⟨hname, (htoken.tail_ident hprefixes hrow hkind hne (hukind.trans hkind)).2⟩
      | number hkind =>
        have hsametext : u.text = t.text :=
          hutext.trans (Token.renamed_of_ne (by simp [hkind]))
        obtain ⟨rest, hstrip, rfl, htaken, hrest⟩ :=
          htoken.tail_number hprefixes hrow hkind hsametext hsame
        have hlength := htaken.number (hukind.trans hkind)
        rw [hsametext] at hlength
        rw [Token.IsSpared, hkind]
        exact ⟨⟨hstrip, hlength⟩, hrest⟩
      | literal hmark hkind htext =>
        have hsametext : u.text = t.text :=
          hutext.trans (Token.renamed_of_ne (Token.ne_ident_of_literal hkind))
        obtain ⟨hbody, hrest⟩ := htoken.tail_literal hprefixes hmark htext hsametext
        exact ⟨(Token.isSpared_literal_iff hprefixes hmark hkind htext _).mpr hbody, hrest⟩
      | punct hkind htext hc =>
        have hsametext : u.text = t.text :=
          hutext.trans (Token.renamed_of_ne (by simp [hkind]))
        rw [Token.IsSpared, hkind]
        exact ⟨trivial, htoken.tail_punct hprefixes hc htext hsametext⟩
    exact ⟨hspared, ih hrow.2 hrest hsame⟩

/-- Removing the prefixes from the identifiers of a row leaves the characters that count. -/
theorem tokenSigns_renamed {ts us : List Token} (hrow : IsRow ts)
    (hsame : AreRenamed prefixes ts us) :
    tokenSigns us = tokenSigns ts := by
  induction ts generalizing us with
  | nil =>
    obtain rfl := List.map_eq_nil_iff.mp hsame
    rfl
  | cons t ts ih =>
    obtain ⟨u, us, rfl, -, htext, hsame⟩ := hsame.exists_cons
    have hsigns : signs u.text.toList = signs t.text.toList := by
      rw [htext]
      by_cases hkind : t.kind = .ident
      · obtain ⟨-, hword, -⟩ := strip_ident hprefixes hrow hkind
        rw [signs_word hword, signs_word fun c => Text.isIdentPart_of_mem (hrow.1.2.2.ident hkind).1]
      · rw [Token.renamed_of_ne hkind]
    rw [tokenSigns_cons, tokenSigns_cons, hsigns, ih hrow.2 hsame]

/-- **What stored code is cut to once prefixes have been removed.**  It has the same tokens as before,
with the prefixes removed from each identifier, exactly if no token of it is harmed. -/
theorem keepsTokens_normalize_iff {ts : List Token} (hrow : IsRow ts) :
    KeepsTokens prefixes ts (normalize prefixes (Token.join ts)) ↔ AreSpared prefixes ts := by
  refine ⟨?_, fun h => h.keepsTokens hprefixes hrow⟩
  rintro ⟨us, hcut, hsame⟩
  obtain ⟨previous, hjoin⟩ := Token.exists_joinAfter ts
  obtain ⟨hnone, htokens⟩ := codeTokens_eq_ok_iff.mp hcut
  rw [lex, toList_normalize, ← hjoin] at hnone htokens
  have hline : '\n' ∉ strip prefixes (Token.joinAfter previous ts) := fun hmem =>
    hrow.inline previous ((strip_sublist _ _).mem hmem)
  obtain ⟨us', eof, hlexed, heof, hcode, hbegins⟩ := begins_of_lexFrom hline hnone
  obtain rfl : us' = us := by
    rw [← htokens, hlexed, List.filter_append, List.filter_eq_self.mpr hcode]
    simp [heof]
  let start : Token := ⟨.eof, "", 1, 1⟩
  have hcondenses : Condenses _ us' (Token.joinAfter start us') := Begins.condenses hbegins hline
  refine areSpared_of_spaced hprefixes hrow (hcondenses.spaced hcode ?_) hsame
  rw [signs_strip hprefixes, signs_joinAfter, tokenSigns_renamed hprefixes hrow hsame]

end

end SdkBindings
