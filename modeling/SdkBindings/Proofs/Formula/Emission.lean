import SdkBindings.Proofs.Formula.Rendering
import SdkBindings.Proofs.Formula.Spelling

/-!
# Formulas in a generated module

A constant whose value is not known is written token by token.  Each part of a formula writes its
symbols, whatever stands before it (`Emits`), and parts in a row write theirs one after the other.  So
the text that is written for the joined tokens of a formula consists of its symbols
(`Formula.Spells.expression_join`).  It is worth what the symbols are worth in the generated language
(`Formula.valueOf?_renders`), which is the value of the formula on integers where the levels of that
language give back the formula (`Formula.IsLayered.valueFrom`).
-/

namespace SdkBindings

open Generated SdkBindings.Module Constant

/-! ## Tokens -/

/-- Two tokens write a logical operator only if both are its character. -/
theorem operatorWord?_eq_none {first second : String}
    (h : ∀ c ∈ ['&', '|'], first.toList ++ second.toList ≠ [c, c]) :
    operatorWord? first second = none := by
  have hand : first ++ second ≠ "&&" := fun heq =>
    h '&' (by simp) (by rw [← String.toList_append, heq]; rfl)
  have hor : first ++ second ≠ "||" := fun heq =>
    h '|' (by simp) (by rw [← String.toList_append, heq]; rfl)
  rw [operatorWord?, if_neg hand, if_neg hor]

/-- Punctuation is no name. -/
theorem Token.IsPunctuation.kind_ne {t : Token} {text : String} (h : t.IsPunctuation text) :
    t.kind ≠ .ident := by
  simp [h.1]

/-- In front of the others the token is written as it is: it is no half of a logical operator, and no
negation by itself. -/
def Token.IsPlain (t : Token) (rest : List Token) : Prop :=
  (rest = [] → t.text ≠ "!") ∧
    ∀ u ∈ rest.head?, operatorWord? t.text u.text = none ∧ (t.text = "!" → u.text = "=")

/-- A token that starts with another character is written as it is in front of anything. -/
theorem Token.isPlain_of_first {t : Token} {c : Char} {rest : List Char}
    (htext : t.text.toList = c :: rest) (hc : c ∉ ['&', '|', '!']) (others : List Token) : t.IsPlain others := by
  simp only [List.mem_cons, List.not_mem_nil, or_false, not_or] at hc
  have hbang : t.text ≠ "!" := by
    intro h
    rw [h] at htext
    exact hc.2.2 (List.head_eq_of_cons_eq htext).symm
  refine ⟨fun _ => hbang, fun u _ => ⟨operatorWord?_eq_none ?_, fun h => absurd h hbang⟩⟩
  rintro d hd heq
  rw [htext] at heq
  obtain rfl : c = d := List.head_eq_of_cons_eq heq
  simp [hc] at hd

/-- A mark is written as it is in front of a token that starts with another character; a `!` needs an
`=`. -/
theorem Token.isPlain_mark {t u : Token} {c d : Char} {rest : List Char} {others : List Token}
    (ht : t.text.toList = [c]) (hu : u.text.toList = d :: rest) (hd : d ∉ ['&', '|'])
    (hbang : c = '!' → u.text = "=") : t.IsPlain (u :: others) := by
  refine ⟨fun h => absurd h (List.cons_ne_nil u others), ?_⟩
  rintro u' ⟨⟩
  refine ⟨operatorWord?_eq_none ?_, fun h => hbang ?_⟩
  · rintro e he heq
    rw [ht, hu] at heq
    obtain rfl : d = e := List.head_eq_of_cons_eq (List.tail_eq_of_cons_eq heq)
    exact hd he
  · rw [h] at ht
    exact (List.head_eq_of_cons_eq ht).symm

/-! ## Parts -/

/-- The characters that are written for the tokens that are left. -/
def partsText (previous : Option Token) (tokens : List Token) : List Char :=
  (String.join (expressionParts previous tokens)).toList

/-- The space that is written in front of a token. -/
def spaceBefore (previous : Option Token) (t : Token) : List Char :=
  if previous.isSome && !previous.any fun p => t.isAdjacentTo p then [' '] else []

/-- An adjacent token is written without a space. -/
@[simp] theorem spaceBefore_adjacent {p t : Token} (h : t.isAdjacentTo p = true) :
    spaceBefore (some p) t = [] := by
  simp [spaceBefore, h]

/-- A suffix is dropped. -/
theorem partsText_suffix {previous : Option Token} {t : Token} (h : isSuffix t previous = true)
    (rest : List Token) : partsText previous (t :: rest) = partsText previous rest := by
  rw [partsText, expressionParts, if_pos h]
  rfl

/-- A token that is written as it is. -/
theorem partsText_plain {previous : Option Token} {t : Token} {rest : List Token}
    (hkind : t.kind ≠ .ident) (hplain : t.IsPlain rest) :
    partsText previous (t :: rest) =
      spaceBefore previous t ++ (t.text.toList ++ partsText (some t) rest) := by
  have hsuffix : ¬ isSuffix t previous = true := by
    simp [isSuffix, hkind]
  have hspaced : (if previous.isSome && !previous.any fun p => t.isAdjacentTo p then " " ++ t.text
      else t.text).toList = spaceBefore previous t ++ t.text.toList := by
    rw [spaceBefore]
    split
    · rw [String.toList_append]
      rfl
    · rfl
  obtain ⟨hlast, hnext⟩ := hplain
  rw [partsText, expressionParts, if_neg hsuffix]
  cases rest with
  | nil =>
    dsimp only
    rw [if_neg (hlast rfl), String.join_cons, String.toList_append, hspaced, List.append_assoc]
    rfl
  | cons u rest =>
    obtain ⟨hword, hbang⟩ := hnext u rfl
    have hnot : ¬ (t.text = "!" ∧ u.text ≠ "=") := fun h => h.2 (hbang h.1)
    dsimp only
    rw [hword, if_neg hnot, String.join_cons, String.toList_append, hspaced, List.append_assoc]
    rfl

/-- In front of `rest`, the symbols are written for the tokens, whatever stands before them. -/
def Emits (symbols : List Symbol) (tokens rest : List Token) : Prop :=
  ∀ previous, ∃ last text, Renders symbols text ∧
    partsText previous (tokens ++ rest) = text ++ partsText last rest

section

variable {rest : List Token}

/-- Nothing is written for no tokens. -/
theorem Emits.nil : Emits [] [] rest :=
  fun previous => ⟨previous, [], .nil, rfl⟩

/-- Tokens in a row are written one part after the other. -/
theorem Emits.append {xs ys : List Symbol} {front back : List Token}
    (hx : Emits xs front (back ++ rest)) (hy : Emits ys back rest) : Emits (xs ++ ys) (front ++ back) rest := by
  intro previous
  obtain ⟨last, text, hrenders, hparts⟩ := hx previous
  obtain ⟨last', text', hrenders', hparts'⟩ := hy last
  refine ⟨last', text ++ text', hrenders.append hrenders', ?_⟩
  rw [List.append_assoc, hparts, hparts', List.append_assoc]

/-- A symbol with the space that is written in front of a token. -/
theorem renders_spaceBefore (previous : Option Token) (t : Token) (s : Symbol) :
    Renders [s] (spaceBefore previous t ++ s.text) := by
  have htight := (Renders.nil.tight (s := s))
  have hspaced := (Renders.nil.spaced (s := s))
  rw [List.append_nil] at htight hspaced
  rw [spaceBefore]
  split
  · exact hspaced
  · exact htight

/-- A token writes its own symbol. -/
theorem emits_token {s : Symbol} {t : Token} (hkind : t.kind ≠ .ident) (htext : t.text.toList = s.text)
    (hplain : t.IsPlain rest) : Emits [s] [t] rest := by
  intro previous
  refine ⟨some t, spaceBefore previous t ++ s.text, renders_spaceBefore previous t s, ?_⟩
  rw [List.singleton_append, partsText_plain hkind hplain, htext, List.append_assoc]

/-- Two adjacent tokens write one symbol. -/
theorem emits_pair {s : Symbol} {t u : Token} (hkind : t.kind ≠ .ident) (hkind' : u.kind ≠ .ident)
    (hadjacent : u.isAdjacentTo t = true) (htext : t.text.toList ++ u.text.toList = s.text)
    (hplain : t.IsPlain (u :: rest)) (hplain' : u.IsPlain rest) : Emits [s] [t, u] rest := by
  intro previous
  refine ⟨some u, spaceBefore previous t ++ s.text, renders_spaceBefore previous t s, ?_⟩
  show partsText previous (t :: u :: rest) = _
  rw [partsText_plain hkind hplain, partsText_plain hkind' hplain', spaceBefore_adjacent hadjacent,
    List.nil_append, ← htext]
  simp only [List.append_assoc]

/-! ## Symbols -/

/-- A sign is written. -/
theorem emits_signs {signs : List Sign} {us : List Token} (h : SpellsSigns (signs.map Sign.unary) us) :
    Emits (signs.map .sign) us rest := by
  induction signs generalizing us with
  | nil =>
    cases h
    exact .nil
  | cons s signs ih =>
    cases h with
    | @cons _ _ t us ht hsigns =>
      have hmark : s.unary.char ∉ ['&', '|', '!'] := by
        cases s <;> decide
      have hsign : Emits [.sign s] [t] (us ++ rest) :=
        emits_token ht.kind_ne ht.toList (Token.isPlain_of_first ht.toList hmark _)
      exact hsign.append (ih hsigns)

/-- A number starts with no operator that is doubled or negates. -/
theorem exists_toDigits (n : Nat) : ∃ c rest, Nat.toDigits 10 n = c :: rest ∧ c ∉ ['&', '|', '!'] := by
  obtain ⟨c, rest, hdigits, hc⟩ := Formula.exists_digit n
  refine ⟨c, rest, hdigits, ?_⟩
  intro hmark
  simp only [List.mem_cons, List.not_mem_nil, or_false] at hmark
  rcases hmark with rfl | rfl | rfl <;> simp at hc

/-- A number is written without its suffix. -/
theorem SpellsNumber.emits {n : Nat} {ts : List Token} (h : SpellsNumber n ts) :
    Emits [.number n] ts rest := by
  obtain ⟨c, digits, hdigits, hc⟩ := exists_toDigits n
  have hnumber {t : Token} (htext : t.text = toString n) : t.text.toList = Nat.toDigits 10 n := by
    rw [htext, Formula.toList_toString]
  cases h with
  | bare hkind htext =>
    exact emits_token (by simp [hkind]) (hnumber htext)
      (Token.isPlain_of_first ((hnumber htext).trans hdigits) hc rest)
  | @suffixed t u hkind htext hident hsuffix hadjacent =>
    have hplain : t.IsPlain (u :: rest) :=
      Token.isPlain_of_first ((hnumber htext).trans hdigits) hc (u :: rest)
    have hdropped : isSuffix u (some t) = true := by
      simp [isSuffix, hident, hsuffix, hkind, hadjacent]
    intro previous
    refine ⟨some t, _, renders_spaceBefore previous t (.number n), ?_⟩
    show partsText previous (t :: u :: rest) = _
    rw [partsText_plain (by simp [hkind]) hplain, partsText_suffix hdropped, hnumber htext,
      List.append_assoc]
    rfl

/-- The first token is no half of a logical operator. -/
def StartsOperand (tokens : List Token) : Prop :=
  ∃ t ts c cs, tokens = t :: ts ∧ t.text.toList = c :: cs ∧ c ∉ ['&', '|']

/-- Only the first token counts. -/
theorem StartsOperand.append {tokens : List Token} (h : StartsOperand tokens) (others : List Token) :
    StartsOperand (tokens ++ others) := by
  obtain ⟨t, ts, c, cs, rfl, htext, hc⟩ := h
  exact ⟨t, ts ++ others, c, cs, rfl, htext, hc⟩

/-- Signs in front of an operand start one. -/
theorem StartsOperand.signs {signs : List Sign} {us tokens : List Token} (h : StartsOperand tokens)
    (hsigns : SpellsSigns (signs.map Sign.unary) us) : StartsOperand (us ++ tokens) := by
  cases signs with
  | nil =>
    cases hsigns
    exact h
  | cons s signs =>
    cases hsigns with
    | @cons _ _ t us ht _ =>
      refine ⟨t, us ++ tokens, s.unary.char, [], rfl, ht.toList, ?_⟩
      cases s <;> simp [Sign.unary, UnaryOp.char]

/-- A formula starts with an operand. -/
theorem Formula.Spells.startsOperand {f : Formula} {tokens : List Token} (h : f.Spells tokens) :
    StartsOperand tokens := by
  induction h with
  | @number signs n us ts hsigns hnumber =>
    obtain ⟨c, digits, hdigits, hc⟩ := exists_toDigits n
    have hfirst {t : Token} (htext : t.text = toString n) (others : List Token) :
        StartsOperand (t :: others) := by
      refine ⟨t, others, c, digits, rfl, by rw [htext, Formula.toList_toString, hdigits], ?_⟩
      exact fun h => hc (List.mem_append_left ['!'] h)
    refine StartsOperand.signs ?_ hsigns
    cases hnumber with
    | bare _ htext => exact hfirst htext _
    | suffixed _ htext _ _ _ => exact hfirst htext _
  | group hsign hopening _ _ _ =>
    exact StartsOperand.signs ⟨_, _, '(', [], rfl, hopening.toList, by simp⟩ hsign
  | word _ _ _ ihl _ => exact ihl.append _
  | comparison _ _ _ ihl _ => exact ihl.append _

/-- An operator is written in front of an operand. -/
theorem SpellsTight.emits {s : Symbol} {text : String} {os : List Token} (h : SpellsTight text os)
    (hs : (∃ op, s = .operator op) ∨ ∃ c, s = .comparison c) (htext : text.toList = s.text)
    (hrest : StartsOperand rest) : Emits [s] os rest := by
  -- Of the operators only `!=` has a `!`, and none is a logical one.
  have hone : ∀ c, s.text = [c] → c ≠ '!' := by
    rcases hs with ⟨op, rfl⟩ | ⟨c, rfl⟩
    · cases op <;> simp [Symbol.text, WordOp.binary, BinaryOp.text]
    · cases c <;> simp [Symbol.text, EqOp.binary, BinaryOp.text]
  have htwo : ∀ c d, s.text = [c, d] → d ∉ ['&', '|', '!'] ∧ (c = '!' → d = '=') := by
    rcases hs with ⟨op, rfl⟩ | ⟨c, rfl⟩
    · cases op <;> simp [Symbol.text, WordOp.binary, BinaryOp.text]
    · cases c <;> simp [Symbol.text, EqOp.binary, BinaryOp.text]
  cases h with
  | @one t c hc htext' ht =>
    have hsymbol : t.text.toList = s.text := by
      rw [← htext, htext', ht.2]
    obtain ⟨u, us, d, ds, rfl, hu, hd⟩ := hrest
    have hbang : c ≠ '!' := hone c (hsymbol.symm.trans ht.toList)
    exact emits_token ht.kind_ne hsymbol (Token.isPlain_mark ht.toList hu hd fun h => absurd h hbang)
  | @two t u c d hc hd htext' ht hu hadjacent =>
    have hsymbol : t.text.toList ++ u.text.toList = s.text := by
      rw [← htext, htext', String.toList_append, ht.2, hu.2]
    have hchars : s.text = [c, d] := by
      rw [← hsymbol, ht.toList, hu.toList]
      rfl
    obtain ⟨hsecond, hbang⟩ := htwo c d hchars
    have hplain : t.IsPlain (u :: rest) := by
      have hother : d ∉ ['&', '|'] := fun h => hsecond (List.mem_append_left ['!'] h)
      refine Token.isPlain_mark ht.toList hu.toList hother ?_
      intro h
      rw [hu.2, hbang h]
      rfl
    exact emits_pair ht.kind_ne hu.kind_ne hadjacent hsymbol hplain
      (Token.isPlain_of_first hu.toList hsecond rest)

/-! ## Formulas -/

/-- The symbols of a formula are written for its tokens. -/
theorem Formula.Spells.emits {f : Formula} {tokens : List Token} (h : f.Spells tokens) :
    Emits f.symbols tokens rest := by
  induction h generalizing rest with
  | number hsigns hnumber => exact (emits_signs hsigns).append hnumber.emits
  | @group sign body us ts o c hsign hopening _ hclosing ih =>
    have hotext : o.text.toList = ['('] := hopening.toList
    have hctext : c.text.toList = [')'] := hclosing.toList
    have ho : Emits [.opening] [o] (ts ++ [c] ++ rest) :=
      emits_token hopening.kind_ne hotext (Token.isPlain_of_first hotext (by simp) _)
    have hc : Emits [.closing] [c] rest :=
      emits_token hclosing.kind_ne hctext (Token.isPlain_of_first hctext (by simp) _)
    exact (emits_signs hsign).append (ho.append (ih.append hc))
  | @word op _ _ ls os rs hleft hop hright ihl ihr =>
    have hoperator : Emits [.operator op] os (rs ++ rest) :=
      hop.emits (.inl ⟨op, rfl⟩) rfl (hright.startsOperand.append rest)
    exact ihl.append (hoperator.append ihr)
  | @comparison c _ _ ls os rs hleft hop hright ihl ihr =>
    have hoperator : Emits [.comparison c] os (rs ++ rest) :=
      hop.emits (.inr ⟨c, rfl⟩) rfl (hright.startsOperand.append rest)
    exact ihl.append (hoperator.append ihr)

end

namespace Formula

/-- A symbol that is no number may stand in front of anything. -/
theorem separated_cons {ys : List Symbol} {s : Symbol} (hs : ¬ s.IsNumber) (hy : Separated ys) :
    Separated (s :: ys) :=
  List.isChain_cons.mpr ⟨fun _ _ h => absurd h hs, hy⟩

/-- A symbol that is no number keeps separated symbols apart. -/
theorem separated_append {xs ys : List Symbol} {s : Symbol} (hs : ¬ s.IsNumber) (hx : Separated xs)
    (hy : Separated ys) : Separated (xs ++ s :: ys) := by
  refine List.isChain_append.mpr ⟨hx, separated_cons hs hy, ?_⟩
  intro _ _ next hnext _
  obtain rfl : s = next := Option.some.inj hnext
  exact hs

/-- Signs are separated from what is behind them. -/
theorem separated_signs (signs : List Sign) {ys : List Symbol} (hy : Separated ys) :
    Separated (signs.map .sign ++ ys) := by
  induction signs with
  | nil => exact hy
  | cons s signs ih => exact separated_cons id ih

/-- No numbers meet in a formula. -/
theorem separated_symbols (f : Formula) : Separated f.symbols := by
  induction f with
  | number signs n => exact separated_signs signs (List.isChain_singleton _)
  | group sign body ih =>
    have hclosing : Separated (body.symbols ++ [.closing]) := separated_append id ih List.isChain_nil
    exact separated_signs sign.toList (separated_cons id hclosing)
  | word op left right ihl ihr => exact separated_append id ihl ihr
  | comparison c left right ihl ihr => exact separated_append id ihl ihr

/-- A formula has symbols. -/
theorem symbols_ne_nil (f : Formula) : f.symbols ≠ [] := by
  cases f <;> simp [symbols]

/-- **Writing.**  The text that is written for the joined tokens of a formula consists of its symbols. -/
theorem Spells.expression_join {f : Formula} {tokens : List Token} (h : f.Spells tokens) :
    ∃ text, Module.expression (Token.join tokens) = .ok (String.ofList text) ∧
      Renders f.symbols text := by
  obtain ⟨tokens', hcut, hspells⟩ := h.codeTokens_join
  have hemits : Emits f.symbols tokens' [] := hspells.emits
  obtain ⟨last, text, hrenders, hparts⟩ := hemits none
  have htext : (String.join (expressionParts none tokens')).toList = text := by
    rw [List.append_nil] at hparts
    exact hparts.trans (List.append_nil text)
  refine ⟨Text.strip Text.isBlank text, ?_, hrenders.strip⟩
  rw [Module.expression, hcut, ← hrenders.squeezeSpaces, ← htext]
  rfl

/-- A text of the symbols of a formula is worth what they are worth. -/
theorem valueOf?_renders {f : Formula} {text : List Char} (h : Renders f.symbols text) :
    valueOf? (String.ofList text) = valueFrom none [] f.symbols := by
  rw [valueOf?, String.toList_ofList, h.symbols? f.separated_symbols, Option.bind_some]

/-- **Reading.**  The symbols of a formula have its value on integers, if the levels of the generated
language give back the formula. -/
theorem IsLayered.valueFrom {f : Formula} (hlayered : f.IsLayered) :
    valueFrom none [] f.symbols = f.integer? := by
  have hshields : Shields f.level [] := trivial
  have hends : Ends f.level [] := trivial
  have hvalue := valueFrom_symbols hlayered hshields hends
  rw [List.append_nil] at hvalue
  rw [hvalue]
  cases f.integer? <;> rfl

end Formula

end SdkBindings
