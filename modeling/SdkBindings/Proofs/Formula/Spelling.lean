import SdkBindings.Proofs.Formula.Words
import SdkBindings.Proofs.Lexing.Joined

/-!
# Spellings of formulas

The tokens of a header write a formula with any space between them; only the suffix of a number and
the second half of an operator have to adjoin what is in front of them (`Formula.Spells`).  Such tokens
also write the formula as an expression of the header (`Formula.Spells.expression`).

A constant is stored as the joined text of its tokens.  When that text is cut again, the tokens that
come of it write the same formula (`Formula.Spells.codeTokens_join`).
-/

namespace SdkBindings

open Constant Lexer

/-! ## Tokens -/

/-- The characters of operators and parentheses. -/
def formulaMarks : List Char :=
  ['-', '~', '&', '^', '|', '<', '>', '=', '!', '(', ')']

/-- The token is one of these characters. -/
def Token.IsMark (t : Token) : Prop :=
  ∃ c ∈ formulaMarks, t.IsPunctuation c.toString

/-- The tokens write an operator; its second half adjoins the first one. -/
inductive SpellsTight : String → List Token → Prop where
  | one {text : String} {t : Token} (c : Char) (hc : c ∈ formulaMarks) (htext : text = c.toString)
      (ht : t.IsPunctuation c.toString) : SpellsTight text [t]
  | two {text : String} {t u : Token} (c d : Char) (hc : c ∈ formulaMarks) (hd : d ∈ formulaMarks)
      (htext : text = c.toString ++ d.toString) (ht : t.IsPunctuation c.toString)
      (hu : u.IsPunctuation d.toString) (hadjacent : u.isAdjacentTo t = true) :
      SpellsTight text [t, u]

/-- The tokens write a number; it may carry a suffix right behind it. -/
inductive SpellsNumber : Nat → List Token → Prop where
  | bare {n : Nat} {t : Token} (hkind : t.kind = .number) (htext : t.text = toString n) :
      SpellsNumber n [t]
  | suffixed {n : Nat} {t u : Token} (hkind : t.kind = .number) (htext : t.text = toString n)
      (hident : u.kind = .ident) (hsuffix : u.text ∈ literalSuffixes)
      (hadjacent : u.isAdjacentTo t = true) : SpellsNumber n [t, u]

namespace Formula

/-- The tokens write the formula. -/
inductive Spells : Formula → List Token → Prop where
  | number {signs : List Sign} {n : Nat} {us ts : List Token}
      (hsigns : SpellsSigns (signs.map Sign.unary) us) (hnumber : SpellsNumber n ts) :
      Spells (.number signs n) (us ++ ts)
  | group {sign : Option Sign} {body : Formula} {us ts : List Token} {o c : Token}
      (hsign : SpellsSigns (sign.toList.map Sign.unary) us) (hopening : o.IsPunctuation "(")
      (hbody : Spells body ts) (hclosing : c.IsPunctuation ")") :
      Spells (.group sign body) (us ++ o :: (ts ++ [c]))
  | word {op : WordOp} {left right : Formula} {ls os rs : List Token} (hleft : Spells left ls)
      (hop : SpellsTight op.binary.text os) (hright : Spells right rs) :
      Spells (.word op left right) (ls ++ (os ++ rs))
  | comparison {c : EqOp} {left right : Formula} {ls os rs : List Token} (hleft : Spells left ls)
      (hop : SpellsTight c.binary.text os) (hright : Spells right rs) :
      Spells (.comparison c left right) (ls ++ (os ++ rs))

end Formula

/-! ## Expressions of a header -/

/-- An operator whose halves stand together is written. -/
theorem SpellsTight.operator {op : BinaryOp} {os : List Token} (h : SpellsTight op.text os) :
    SpellsOperator op os := by
  cases h with
  | one c _ htext ht => exact .one c htext ht
  | two c d _ _ htext ht hu _ => exact .two c d htext ht hu

/-- A number is an operand. -/
theorem SpellsNumber.operand {n : Nat} {ts : List Token} (h : SpellsNumber n ts) :
    SpellsOperand (toString n) ts := by
  have hoperand {t : Token} (hkind : t.kind = .number) (htext : t.text = toString n) :
      t.IsOperand := by
    obtain ⟨c, rest, hdigits, -⟩ := Formula.exists_digit n
    refine ⟨c, rest, by rw [htext, Formula.toList_toString, hdigits], .inl ⟨hkind, .inl ?_⟩⟩
    exact Formula.isDecimalDigit_of_mem_toDigits (n := n) (by simp [hdigits])
  cases h with
  | bare hkind htext => exact htext ▸ .bare (hoperand hkind htext)
  | suffixed hkind htext hident hsuffix hadjacent =>
    exact htext ▸ .suffixed (hoperand hkind htext) hkind hident hsuffix hadjacent

/-- The tokens of a formula write it as an expression of the header. -/
theorem Formula.Spells.expression {f : Formula} {tokens : List Token} (h : f.Spells tokens) :
    f.expression.Spells tokens := by
  induction h with
  | number hsigns hnumber => exact .operand hsigns hnumber.operand
  | @group sign body us ts o c hsign hopening _ hclosing ih =>
    rw [← Option.toList_map] at hsign
    exact .group hsign hopening ih hclosing
  | word _ hop _ ihl ihr => exact .binary ihl hop.operator ihr
  | comparison _ hop _ ihl ihr => exact .binary ihl hop.operator ihr

/-! ## Marks and numbers -/

section

variable {file : String} {rest : List Token}

/-- Every mark is a lexeme that ends in front of anything. -/
theorem isLexeme_of_mem_formulaMarks {c : Char} (hc : c ∈ formulaMarks) :
    IsLexeme .punct [c] ∧ ∀ after, IsEnded .punct [c] after := by
  have hall : formulaMarks.all (fun c => isMark [c] && c != '.' && c != '/' && c != '\\') = true := by
    decide
  have hmark := List.all_eq_true.mp hall c hc
  simp only [Bool.and_eq_true, bne_iff_ne] at hmark
  obtain ⟨⟨⟨hmark, hpoint⟩, hslash⟩, hbackslash⟩ := hmark
  refine ⟨isLexeme_of_isMark hmark, fun after => ⟨?_, ?_, ?_⟩⟩
  · exact fun h => absurd (List.head_eq_of_cons_eq h) hpoint
  · exact fun h => absurd (List.head_eq_of_cons_eq h) hslash
  · exact fun h => absurd (List.head_eq_of_cons_eq h) hbackslash

/-- The text of a mark. -/
theorem Token.IsPunctuation.toList {t : Token} {c : Char} (h : t.IsPunctuation c.toString) :
    t.text.toList = [c] := by
  rw [h.2, Char.toString, String.toList_singleton]

/-- There is one token, which is the mark. -/
def SpellsMark (c : Char) (tokens : List Token) : Prop :=
  ∃ t, tokens = [t] ∧ t.IsPunctuation c.toString

/-- A mark is cut to the same mark. -/
theorem cutsTo_mark {t : Token} {c : Char} (hc : c ∈ formulaMarks) (ht : t.IsPunctuation c.toString) :
    CutsTo file (SpellsMark c) [t] rest := by
  obtain ⟨hlexeme, hended⟩ := isLexeme_of_mem_formulaMarks hc
  refine cutsTo_token ?_ ?_ fun t' hkind htext => ⟨t', rfl, hkind.trans ht.1, htext.trans ht.2⟩
  · rwa [ht.1, ht.toList]
  · rw [ht.1, ht.toList]
    exact hended _

/-- An operator is cut to the same operator. -/
theorem SpellsTight.cutsTo {text : String} {os : List Token} (h : SpellsTight text os) :
    CutsTo file (SpellsTight text) os rest := by
  cases h with
  | one c hc htext ht =>
    refine (cutsTo_mark hc ht).mono ?_
    rintro - ⟨t', rfl, ht'⟩
    exact .one c hc htext ht'
  | two c d hc hd htext ht hu hadjacent =>
    obtain ⟨hlexeme, hended⟩ := isLexeme_of_mem_formulaMarks hc
    obtain ⟨hlexeme', hended'⟩ := isLexeme_of_mem_formulaMarks hd
    have hinline : '\n' ∉ [c] := by
      rintro (_ | ⟨_, ⟨⟩⟩)
      exact absurd hc (by decide)
    refine cutsTo_pair hadjacent ?_ ?_ ?_ ?_ ?_ fun t' u' hkind hname hkind' hname' hadjacent' =>
      .two c d hc hd htext ⟨hkind.trans ht.1, hname.trans ht.2⟩ ⟨hkind'.trans hu.1, hname'.trans hu.2⟩
        hadjacent'
    · rwa [ht.1, ht.toList]
    · rwa [ht.toList]
    · rw [ht.1, ht.toList]
      exact hended _
    · rwa [hu.1, hu.toList]
    · rw [hu.1, hu.toList]
      exact hended' _

/-- The characters of signs are marks. -/
theorem Sign.char_mem (s : Sign) : s.unary.char ∈ formulaMarks := by
  cases s <;> decide

/-- Signs are cut to the same signs. -/
theorem cutsTo_signs {signs : List Sign} {us : List Token}
    (h : SpellsSigns (signs.map Sign.unary) us) :
    CutsTo file (SpellsSigns (signs.map Sign.unary)) us rest := by
  induction signs generalizing us with
  | nil =>
    cases h
    exact .nil .nil
  | cons s signs ih =>
    cases h with
    | @cons _ _ t us ht hsigns =>
      refine ((cutsTo_mark s.char_mem ht).append (ih hsigns)).mono ?_
      rintro - ⟨-, us', rfl, ⟨t', rfl, ht'⟩, hsigns'⟩
      exact .cons ht' hsigns'

/-- What a mark, or a space in front of it, does to what is before it: it ends a number and a name. -/
theorem not_continues_of_mem {c : Char} (hc : c ∈ ' ' :: formulaMarks) :
    isIdentPart c = false ∧ Text.isDecimalDigit c = false ∧ c ∉ ['.', 'e', 'E', 'x', 'X'] := by
  have hall : (' ' :: formulaMarks).all (fun c => !isIdentPart c && (!Text.isDecimalDigit c &&
      decide (c ∉ ['.', 'e', 'E', 'x', 'X']))) = true := by
    decide +kernel
  have hends := List.all_eq_true.mp hall c hc
  simpa only [Bool.and_eq_true, Bool.not_eq_true', decide_eq_true_eq] using hends

/-- In front of a mark a joined text starts with the mark or with a space. -/
theorem mem_formulaMarks_of_head? {t : Token} (hrest : ∀ u ∈ rest.head?, u.IsMark) {c : Char}
    (h : c ∈ (Token.joinAfter t rest).head?) : c ∈ ' ' :: formulaMarks := by
  have hne : ∀ u ∈ rest.head?, u.text.toList ≠ [] := by
    intro u hu
    obtain ⟨d, -, hd⟩ := hrest u hu
    rw [hd.toList]
    exact List.cons_ne_nil _ _
  rcases Token.mem_head?_joinAfter hne h with rfl | ⟨u, hu, hc⟩
  · exact List.mem_cons_self
  · obtain ⟨d, hd, htext⟩ := hrest u hu
    rw [htext.toList] at hc
    obtain rfl : d = c := Option.mem_some.mp hc
    exact List.mem_cons_of_mem _ hd

/-- Suffixes are names that neither continue a number nor end a line. -/
theorem isIdentifier_of_mem_literalSuffixes {text : String} (h : text ∈ literalSuffixes) :
    isIdentifier text.toList = true ∧
      ∀ c ∈ text.toList.head?, Text.isDecimalDigit c = false ∧ c ∉ ['.', 'e', 'E', 'x', 'X'] := by
  have hall : literalSuffixes.all (fun text => isIdentifier text.toList &&
      text.toList.head?.all fun c => !Text.isDecimalDigit c &&
        decide (c ∉ ['.', 'e', 'E', 'x', 'X'])) = true := by
    decide +kernel
  have hsuffix := List.all_eq_true.mp hall text h
  simp only [Bool.and_eq_true, Option.all_eq_true, Bool.not_eq_true', decide_eq_true_eq] at hsuffix
  exact hsuffix

/-- A number in front of a mark is cut to the same number. -/
theorem SpellsNumber.cutsTo {n : Nat} {ts : List Token} (h : SpellsNumber n ts)
    (hrest : ∀ u ∈ rest.head?, u.IsMark) : CutsTo file (SpellsNumber n) ts rest := by
  have hdecimal : ∀ c ∈ Nat.toDigits 10 n, Text.isDecimalDigit c = true :=
    fun c hc => Formula.isDecimalDigit_of_mem_toDigits hc
  have hnumber {after : List Char}
      (hafter : ∀ c ∈ after.head?, Text.isDecimalDigit c = false ∧ c ∉ ['.', 'e', 'E', 'x', 'X']) :
      numberLength? (Nat.toDigits 10 n ++ after) = some (Nat.toDigits 10 n).length :=
    numberLength?_digits_append (Formula.toDigits_ne_nil n) hdecimal hafter
  have hlexeme {t : Token} (hkind : t.kind = .number) (htext : t.text = toString n) :
      IsLexeme t.kind t.text.toList := by
    have hend : ∀ c ∈ ([] : List Char).head?,
        Text.isDecimalDigit c = false ∧ c ∉ ['.', 'e', 'E', 'x', 'X'] := by simp
    have hself := hnumber hend
    rw [List.append_nil] at hself
    rw [hkind, htext, Formula.toList_toString]
    exact .number hself
  cases h with
  | @bare t hkind htext =>
    refine cutsTo_token (hlexeme hkind htext) ?_ fun t' hkind' htext' =>
      .bare (hkind'.trans hkind) (htext'.trans htext)
    rw [hkind, htext, Formula.toList_toString]
    exact hnumber fun c hc => (not_continues_of_mem (mem_formulaMarks_of_head? hrest hc)).2
  | @suffixed t u hkind htext hident hsuffix hadjacent =>
    obtain ⟨hname, hhead⟩ := isIdentifier_of_mem_literalSuffixes hsuffix
    refine cutsTo_pair hadjacent (hlexeme hkind htext) ?_ ?_ ?_ ?_
      fun t' u' hkind' htext' hident' hsuffix' hadjacent' =>
        .suffixed (hkind'.trans hkind) (htext'.trans htext) (hident'.trans hident)
          (hsuffix'.symm ▸ hsuffix) hadjacent'
    · rw [htext, Formula.toList_toString]
      exact fun hline => absurd (hdecimal _ hline) (by decide +kernel)
    · rw [hkind, htext, Formula.toList_toString]
      refine hnumber fun c hc => hhead c ?_
      rw [Token.joinAfter, if_pos hadjacent, List.nil_append] at hc
      cases hletters : u.text.toList with
      | nil =>
        rw [hletters] at hname
        cases hname
      | cons d letters => rwa [hletters] at hc
    · rw [hident]
      exact .ident hname
    · rw [hident]
      exact fun c hc => (not_continues_of_mem (mem_formulaMarks_of_head? hrest hc)).1

/-! ## Formulas -/

/-- An operator starts with a mark. -/
theorem SpellsTight.head? {text : String} {os : List Token} (h : SpellsTight text os) :
    ∀ u ∈ (os ++ rest).head?, u.IsMark := by
  cases h with
  | one c hc _ ht =>
    rintro u ⟨⟩
    exact ⟨c, hc, ht⟩
  | two c d hc _ _ ht _ _ =>
    rintro u ⟨⟩
    exact ⟨c, hc, ht⟩

/-- In front of a mark, or at the end, a formula is cut to tokens that write it. -/
theorem Formula.Spells.cutsTo {f : Formula} {tokens : List Token} (h : f.Spells tokens)
    (hrest : ∀ u ∈ rest.head?, u.IsMark) : CutsTo file f.Spells tokens rest := by
  induction h generalizing rest with
  | number hsigns hnumber =>
    refine ((cutsTo_signs hsigns).append (hnumber.cutsTo hrest)).mono ?_
    rintro - ⟨us', ts', rfl, hsigns', hnumber'⟩
    exact .number hsigns' hnumber'
  | @group sign body us ts o c hsign hopening _ hclosing ih =>
    have hmark : ∀ u ∈ (c :: rest).head?, u.IsMark := by
      rintro u ⟨⟩
      exact ⟨')', by decide, hclosing⟩
    have hbody := (ih hmark).append (cutsTo_mark (c := ')') (by decide) hclosing)
    have hgroup := (cutsTo_mark (c := '(') (by decide) hopening).append hbody
    refine ((cutsTo_signs hsign).append hgroup).mono ?_
    rintro - ⟨us', -, rfl, hsign', -, -, rfl, ⟨o', rfl, ho'⟩, ts', -, rfl, hbody', c', rfl, hc'⟩
    exact .group hsign' ho' hbody' hc'
  | word _ hop _ ihl ihr =>
    refine ((ihl ?_).append (hop.cutsTo.append (ihr hrest))).mono ?_
    · rw [List.append_assoc]
      exact hop.head?
    · rintro - ⟨ls', -, rfl, hleft', os', rs', rfl, hop', hright'⟩
      exact .word hleft' hop' hright'
  | comparison _ hop _ ihl ihr =>
    refine ((ihl ?_).append (hop.cutsTo.append (ihr hrest))).mono ?_
    · rw [List.append_assoc]
      exact hop.head?
    · rintro - ⟨ls', -, rfl, hleft', os', rs', rfl, hop', hright'⟩
      exact .comparison hleft' hop' hright'

end

/-- The kinds of the tokens of formulas. -/
def Token.IsFormulaKind (t : Token) : Prop :=
  t.kind = .punct ∨ t.kind = .number ∨ t.kind = .ident

/-- Such tokens are code. -/
theorem Token.IsFormulaKind.isCode {t : Token} (h : t.IsFormulaKind) : t.isCode = true := by
  rcases h with h | h | h <;> simp [Token.isCode, h]

/-- An operator is punctuation. -/
theorem SpellsTight.kinds {text : String} {os : List Token} (h : SpellsTight text os) :
    ∀ t ∈ os, t.IsFormulaKind := by
  cases h with
  | one c _ _ ht => simp [Token.IsFormulaKind, ht.1]
  | two c d _ _ _ ht hu _ => simp [Token.IsFormulaKind, ht.1, hu.1]

/-- A number is one with a name behind it or not. -/
theorem SpellsNumber.kinds {n : Nat} {ts : List Token} (h : SpellsNumber n ts) :
    ∀ t ∈ ts, t.IsFormulaKind := by
  cases h with
  | bare hkind _ => simp [Token.IsFormulaKind, hkind]
  | suffixed hkind _ hident _ _ => simp [Token.IsFormulaKind, hkind, hident]

/-- Signs are punctuation. -/
theorem kinds_of_signs {ops : List UnaryOp} {us : List Token} (h : SpellsSigns ops us) :
    ∀ t ∈ us, t.IsFormulaKind := by
  induction h with
  | nil => simp
  | cons ht _ ih => exact List.forall_mem_cons.mpr ⟨.inl ht.1, ih⟩

/-- The tokens of a formula have no other kinds. -/
theorem Formula.Spells.kinds {f : Formula} {tokens : List Token} (h : f.Spells tokens) :
    ∀ t ∈ tokens, t.IsFormulaKind := by
  induction h with
  | number hsigns hnumber => exact List.forall_mem_append.mpr ⟨kinds_of_signs hsigns, hnumber.kinds⟩
  | group hsign hopening _ hclosing ih =>
    refine List.forall_mem_append.mpr ⟨kinds_of_signs hsign, ?_⟩
    refine List.forall_mem_cons.mpr ⟨.inl hopening.1, ?_⟩
    exact List.forall_mem_append.mpr ⟨ih, List.forall_mem_singleton.mpr (.inl hclosing.1)⟩
  | word _ hop _ ihl ihr =>
    exact List.forall_mem_append.mpr ⟨ihl, List.forall_mem_append.mpr ⟨hop.kinds, ihr⟩⟩
  | comparison _ hop _ ihl ihr =>
    exact List.forall_mem_append.mpr ⟨ihl, List.forall_mem_append.mpr ⟨hop.kinds, ihr⟩⟩

/-- **Joined formulas.**  The joined text of tokens that write a formula is cut to tokens that write
it. -/
theorem Formula.Spells.codeTokens_join {f : Formula} {tokens : List Token} (h : f.Spells tokens) :
    ∃ tokens', codeTokens (Token.join tokens) = .ok tokens' ∧ f.Spells tokens' := by
  obtain ⟨previous, hjoin⟩ := Token.exists_joinAfter tokens
  have hcuts : CutsTo "<string>" f.Spells tokens [] := h.cutsTo (by simp)
  obtain ⟨last, place, tokens', hspells, hlexed⟩ := hcuts previous .start
  rw [List.append_nil, hjoin, Token.joinAfter, lexFrom] at hlexed
  refine ⟨tokens', ?_, hspells⟩
  let eof : Token := ⟨.eof, "", place.line, place.column⟩
  have hcode : (tokens' ++ [eof]).filter Token.isCode = tokens' := by
    rw [List.filter_append, List.filter_eq_self.mpr fun t ht => (hspells.kinds t ht).isCode]
    simp [Token.isCode, eof]
  rw [codeTokens, lex, hlexed]
  exact congrArg Except.ok hcode

end SdkBindings
