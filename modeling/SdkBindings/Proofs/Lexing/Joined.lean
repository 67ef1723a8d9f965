import SdkBindings.Proofs.Lexing.Layout

/-!
# Joined tokens

The text of a constant is stored as its tokens with one space wherever two of them were not adjacent.
Cutting such a text gives a token at a time (`lexFrom_joinAfter`): the space is passed over, and a
lexeme that ends in front of what follows gives its token again, at a place of its own.  Tokens that
were adjacent are so again.
-/

namespace SdkBindings

open Lexer

/-- A single space in front of something else is passed over. -/
theorem lexFrom_space (file : String) (p : Position) {after : List Char}
    (hafter : ∀ c ∈ after.head?, isSpace c = false) :
    lexFrom file p (' ' :: after) = lexFrom file (p.after [' ']) after := by
  have hscan : scan ' ' ([] ++ after) = some (none, ([] : List Char).length) :=
    scan_spaces (by simp [isSpace]) hafter fun h => absurd h (by decide)
  exact lexFrom_skip file p hscan

/-- The place behind characters that end no line. -/
theorem Lexer.Position.after_inline (p : Position) {piece : List Char} (h : '\n' ∉ piece) :
    p.after piece = ⟨p.line, p.column + piece.length⟩ := by
  induction piece generalizing p with
  | nil => rfl
  | cons c piece ih =>
    simp only [List.mem_cons, not_or] at h
    show (p.next c).after piece = _
    rw [ih _ h.2, Position.next, if_neg (Ne.symm h.1), List.length_cons]
    dsimp only
    rw [Nat.add_assoc, Nat.add_comm 1]

/-- A decimal number ends in front of something that does not continue it. -/
theorem Lexer.numberLength?_digits_append {digits after : List Char} (hne : digits ≠ [])
    (hdigits : ∀ c ∈ digits, Text.isDecimalDigit c = true)
    (hafter : ∀ c ∈ after.head?, Text.isDecimalDigit c = false ∧ c ∉ ['.', 'e', 'E', 'x', 'X']) :
    numberLength? (digits ++ after) = some digits.length := by
  have hrun : run Text.isDecimalDigit (digits ++ after) = digits.length := by
    rw [run_append fun c hc => (hafter c hc).1, run_eq_length hdigits]
  have hhex : hexLength? (digits ++ after) = none := by
    have hdigit {c : Char} (hc : Text.isDecimalDigit c = true) : ¬ (c = 'x' ∨ c = 'X') := by
      rintro (rfl | rfl) <;> exact absurd hc (by decide +kernel)
    cases digits with
    | nil => exact absurd rfl hne
    | cons c digits =>
      cases hrest : digits ++ after with
      | nil =>
        rw [List.cons_append, hrest]
        exact hexLength?_singleton c
      | cons x rest =>
        rw [List.cons_append, hrest, hexLength?_cons_cons, if_neg]
        rintro ⟨-, hx, -⟩
        cases digits with
        | nil =>
          obtain rfl : after = x :: rest := hrest
          refine (hafter x rfl).2 ?_
          rcases hx with rfl | rfl <;> decide
        | cons d digits =>
          cases hrest
          exact hdigit (hdigits x (by simp)) hx
  have hmantissa : mantissaLength? (digits ++ after) = some digits.length := by
    rw [mantissaLength?_whole, hrun]
    · exact if_neg fun hzero => hne (List.length_eq_zero_iff.mp hzero)
    · intro fraction hfraction
      rw [hrun, List.drop_left] at hfraction
      subst hfraction
      exact absurd (by decide) (hafter '.' rfl).2
  have hexponent : exponentLength after = 0 := by
    cases after with
    | nil => rfl
    | cons c rest =>
      refine if_neg fun hc => (hafter c rfl).2 ?_
      rcases hc with rfl | rfl <;> decide
  rw [numberLength?, hhex, hmantissa]
  show some (digits.length + exponentLength ((digits ++ after).drop digits.length)) = _
  rw [List.drop_left, hexponent, Nat.add_zero]

/-- The place of a token behind another one: right behind it, or one space further. -/
def Token.placeBehind (previous t : Token) (p : Position) : Position :=
  if t.isAdjacentTo previous then p else p.after [' ']

/-- What a joined text starts with: a space, or the first token. -/
theorem Token.mem_head?_joinAfter {previous : Token} {ts : List Token}
    (hne : ∀ t ∈ ts.head?, t.text.toList ≠ []) {c : Char} (h : c ∈ (Token.joinAfter previous ts).head?) :
    c = ' ' ∨ ∃ t ∈ ts.head?, c ∈ t.text.toList.head? := by
  cases ts with
  | nil => cases h
  | cons t ts =>
    rw [Token.joinAfter] at h
    split at h
    · right
      refine ⟨t, rfl, ?_⟩
      cases htext : t.text.toList with
      | nil => exact absurd htext (hne t rfl)
      | cons d text => rwa [htext] at h
    · left
      exact (Option.mem_some.mp h).symm

/-- The first token of a joined text is cut off. -/
theorem lexFrom_joinAfter (file : String) (p : Position) (previous : Token) {t : Token}
    {rest : List Token}
    (hlexeme : IsLexeme t.kind t.text.toList)
    (hended : IsEnded t.kind t.text.toList (Token.joinAfter t rest)) :
    lexFrom file p (Token.joinAfter previous (t :: rest)) =
      (lexFrom file ((Token.placeBehind previous t p).after t.text.toList)
          (Token.joinAfter t rest)).prepend
        [⟨t.kind, t.text, (Token.placeBehind previous t p).line,
          (Token.placeBehind previous t p).column⟩] := by
  let lexeme : Lexeme := ⟨t.kind, t.text, hlexeme⟩
  obtain ⟨hstart, -⟩ := lexFrom_lexeme lexeme hended file p
  have htoken (q : Position) := (lexFrom_lexeme lexeme hended file q).2
  rw [Token.joinAfter, Token.placeBehind]
  split
  · exact htoken p
  · show lexFrom file p (' ' :: (t.text.toList ++ Token.joinAfter t rest)) = _
    rw [lexFrom_space file p fun c hc => (hstart c hc).1]
    exact htoken _

/-- A text that is joined behind an adjacent token is just joined. -/
theorem Token.exists_joinAfter (tokens : List Token) :
    ∃ previous, Token.joinAfter previous tokens = (Token.join tokens).toList := by
  cases tokens with
  | nil => exact ⟨⟨.eof, "", 1, 1⟩, rfl⟩
  | cons t ts =>
    refine ⟨⟨.eof, "", t.line, t.column⟩, ?_⟩
    have hadjacent : t.isAdjacentTo ⟨.eof, "", t.line, t.column⟩ = true := by
      simp [Token.isAdjacentTo, Token.endColumn]
    rw [Token.joinAfter, if_pos hadjacent, Token.join, String.toList_ofList]
    rfl

/-! ## Parts of a joined text -/

/-- In front of `rest`, the joined text of the tokens is cut to tokens with a property, wherever it
starts and whatever stands before it. -/
def CutsTo (file : String) (p : List Token → Prop) (tokens rest : List Token) : Prop :=
  ∀ previous place, ∃ last place' tokens', p tokens' ∧
    lexFrom file place (Token.joinAfter previous (tokens ++ rest)) =
      (lexFrom file place' (Token.joinAfter last rest)).prepend tokens'

/-- The tokens consist of two parts, each with a property. -/
def BothParts (p q : List Token → Prop) (tokens : List Token) : Prop :=
  ∃ xs ys, tokens = xs ++ ys ∧ p xs ∧ q ys

section

variable {file : String} {p q : List Token → Prop} {rest : List Token}

/-- What tokens are cut to may be said more weakly. -/
theorem CutsTo.mono {tokens : List Token} (h : CutsTo file p tokens rest)
    (hpq : ∀ tokens', p tokens' → q tokens') : CutsTo file q tokens rest := by
  intro previous place
  obtain ⟨last, place', tokens', hp, hlexed⟩ := h previous place
  exact ⟨last, place', tokens', hpq tokens' hp, hlexed⟩

/-- No tokens are cut to none. -/
theorem CutsTo.nil (hp : p []) : CutsTo file p [] rest :=
  fun previous place => ⟨previous, place, [], hp, rfl⟩

/-- Tokens in a row are cut one part after the other. -/
theorem CutsTo.append {xs ys : List Token} (hxs : CutsTo file p xs (ys ++ rest))
    (hys : CutsTo file q ys rest) : CutsTo file (BothParts p q) (xs ++ ys) rest := by
  intro previous place
  obtain ⟨last, place₁, xs', hp, hlexed⟩ := hxs previous place
  obtain ⟨last', place₂, ys', hq, hlexed'⟩ := hys last place₁
  refine ⟨last', place₂, xs' ++ ys', ⟨xs', ys', rfl, hp, hq⟩, ?_⟩
  rw [List.append_assoc, hlexed, hlexed', Lexed.prepend_prepend]

/-- A lexeme that ends in front of `rest` is cut to its token, at another place. -/
theorem cutsTo_token {t : Token} (hlexeme : IsLexeme t.kind t.text.toList)
    (hended : IsEnded t.kind t.text.toList (Token.joinAfter t rest))
    (hp : ∀ t' : Token, t'.kind = t.kind → t'.text = t.text → p [t']) : CutsTo file p [t] rest := by
  intro previous place
  let place' := Token.placeBehind previous t place
  exact ⟨t, place'.after t.text.toList, [⟨t.kind, t.text, place'.line, place'.column⟩], hp _ rfl rfl,
    lexFrom_joinAfter file place previous hlexeme hended⟩

/-- Two adjacent lexemes of which the first one ends no line are cut to adjacent tokens. -/
theorem cutsTo_pair {t u : Token} (hadjacent : u.isAdjacentTo t = true)
    (hlexeme : IsLexeme t.kind t.text.toList) (hinline : '\n' ∉ t.text.toList)
    (hended : IsEnded t.kind t.text.toList (Token.joinAfter t (u :: rest)))
    (hlexeme' : IsLexeme u.kind u.text.toList)
    (hended' : IsEnded u.kind u.text.toList (Token.joinAfter u rest))
    (hp : ∀ t' u' : Token, t'.kind = t.kind → t'.text = t.text → u'.kind = u.kind → u'.text = u.text →
      u'.isAdjacentTo t' = true → p [t', u']) :
    CutsTo file p [t, u] rest := by
  intro previous place
  let place₁ := Token.placeBehind previous t place
  let place₂ : Position := ⟨place₁.line, place₁.column + t.text.toList.length⟩
  have hfirst := lexFrom_joinAfter file place previous hlexeme hended
  have hsecond := lexFrom_joinAfter file (place₁.after t.text.toList) t hlexeme' hended'
  have hplace : Token.placeBehind t u (place₁.after t.text.toList) = place₂ := by
    rw [Token.placeBehind, if_pos hadjacent, place₁.after_inline hinline]
  rw [hplace] at hsecond
  refine ⟨u, place₂.after u.text.toList, [⟨t.kind, t.text, place₁.line, place₁.column⟩,
    ⟨u.kind, u.text, place₂.line, place₂.column⟩], hp _ _ rfl rfl rfl rfl ?_, ?_⟩
  · simp [Token.isAdjacentTo, Token.endColumn, place₂, String.length_toList]
  · exact hfirst.trans (congrArg (Lexed.prepend _) hsecond)

end

end SdkBindings
