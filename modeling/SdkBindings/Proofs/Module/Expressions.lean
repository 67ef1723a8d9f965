import SdkBindings.Module.Expression
import SdkBindings.Proofs.Lexing.Pieces
import SdkBindings.Proofs.Outcome

/-!
# When an expression is empty, and what it is made of

The text of a constant is rewritten token by token, its spaces are squeezed and its ends trimmed.
None of this makes a token vanish, because every token of code has a character that is no blank and
the first one is never dropped as a suffix.  So the rewritten text is empty only if there are no
tokens (`expression_eq_empty_iff`).  Nor does it bring in more than spaces and the words of logical
operators, so a text on one line stays on one line (`mem_of_mem_expression`).
-/

namespace SdkBindings.Module

open Text

/-- The text has something in it that is not trimmed. -/
def HasInk (text : List Char) : Prop :=
  ∃ c ∈ text, isBlank c = false

/-- A text keeps its ink when it is put between others. -/
theorem HasInk.append_right {text : List Char} (h : HasInk text) (rest : List Char) :
    HasInk (text ++ rest) := by
  obtain ⟨c, hc, hink⟩ := h
  exact ⟨c, List.mem_append_left rest hc, hink⟩

/-- Squeezing spaces keeps everything else. -/
theorem HasInk.squeezeSpaces {text : List Char} (h : HasInk text) :
    HasInk (Module.squeezeSpaces text) := by
  obtain ⟨c, hc, hink⟩ := h
  have hspace : c ≠ ' ' := by
    rintro rfl
    cases hink
  refine ⟨c, ?_, hink⟩
  fun_induction Module.squeezeSpaces text with
  | case1 rest ih =>
    rcases List.mem_cons.mp hc with rfl | hc
    · exact absurd rfl hspace
    · exact ih hc
  | case2 d rest _ ih =>
    rcases List.mem_cons.mp hc with rfl | hc
    · exact List.mem_cons_self
    · exact List.mem_cons_of_mem d (ih hc)
  | case3 => cases hc

/-- A text with ink does not vanish when its front is trimmed. -/
theorem HasInk.dropWhile {text : List Char} (h : HasInk text) :
    ∃ c rest, text.dropWhile isBlank = c :: rest ∧ isBlank c = false := by
  obtain ⟨d, hd, hink⟩ := h
  induction text with
  | nil => cases hd
  | cons c rest ih =>
    cases hblank : isBlank c with
    | false => exact ⟨c, rest, List.dropWhile_cons_of_neg (by rw [hblank]; decide), hblank⟩
    | true =>
      rw [List.dropWhile_cons_of_pos hblank]
      rcases List.mem_cons.mp hd with rfl | hd
      · cases hblank.symm.trans hink
      · exact ih hd

/-- A text with ink does not vanish when it is trimmed. -/
theorem HasInk.strip_ne_nil {text : List Char} (h : HasInk text) : strip isBlank text ≠ [] := by
  obtain ⟨c, rest, hfront, hink⟩ := h.dropWhile
  have hback : HasInk (c :: rest).reverse := ⟨c, List.mem_reverse.mpr List.mem_cons_self, hink⟩
  obtain ⟨d, tail, hdropped, -⟩ := hback.dropWhile
  rw [strip, hfront, hdropped]
  exact fun hnil => nomatch List.reverse_eq_nil_iff.mp hnil

/-- What starts a token of code is no blank. -/
theorem isBlank_eq_false_of_start {c : Char}
    (h : isDecimalDigit c = true ∨ Lexer.isIdentStart c = true ∨ c ∈ Lexer.punctuation) :
    isBlank c = false := by
  have hnone : blankPoints.all (fun n => !isDecimalDigit (Char.ofNat n) &&
      !Lexer.isIdentStart (Char.ofNat n) && !Lexer.punctuation.contains (Char.ofNat n)) = true := by
    decide +kernel
  cases hblank : isBlank c with
  | false => rfl
  | true =>
    have hc := List.all_eq_true.mp hnone c.toNat (List.contains_iff_mem.mp hblank)
    rw [Char.ofNat_toNat] at hc
    simp only [Bool.and_eq_true, Bool.not_eq_true', List.contains_eq_mem, decide_eq_false_iff_not] at hc
    rcases h with h | h | h
    · cases h.symm.trans hc.1.1
    · cases h.symm.trans hc.1.2
    · exact absurd h hc.2

/-- Tokens of code have ink. -/
theorem hasInk_of_mem_codeTokens {raw : String} {tokens : List Token}
    (h : Lexer.codeTokens raw = .ok tokens) {t : Token} (ht : t ∈ tokens) : HasInk t.text.toList := by
  obtain ⟨all, hall, hfilter⟩ := bind_eq_ok h
  cases hfilter
  obtain ⟨hmem, hcode⟩ := List.mem_filter.mp ht
  rw [Token.isCode, decide_eq_true_eq] at hcode
  have hlexed : t ∈ (Lexer.lex "<string>" raw).tokens := by
    unfold Lexer.Lexed.tokens? at hall
    split at hall
    · cases hall
    · cases hall
      exact hmem
  rcases Lexer.isPiece_of_mem_lexFrom hlexed with ⟨c, rest, k, hscan, htext⟩ | ⟨heof, -⟩
  · refine ⟨c, by rw [htext, String.toList_ofList]; exact List.mem_cons_self, ?_⟩
    have hmark {d : Char} (hd : d ∈ Lexer.punctuation) (hc : c = d) : isBlank c = false :=
      isBlank_eq_false_of_start (.inr (.inr (hc ▸ hd)))
    rcases Lexer.scan_eq_some hscan with h | ⟨-, n, hn, -⟩ | ⟨-, hstart, -⟩ | ⟨-, hc, -⟩ |
      ⟨-, hc, -⟩ | ⟨-, hpunct, -⟩
    · exact absurd h hcode.1
    · rcases (Lexer.numberLength?_eq_some hn).2.1 with hdigit | hpoint
      · exact isBlank_eq_false_of_start (.inl hdigit)
      · exact hmark (by decide) hpoint
    · exact isBlank_eq_false_of_start (.inr (.inl hstart))
    · exact hmark (by decide) hc
    · exact hmark (by decide) hc
    · exact isBlank_eq_false_of_start (.inr (.inr hpunct))
  · exact absurd heof hcode.2

/-- The first token of an expression is written with ink. -/
theorem hasInk_expressionParts {t : Token} (h : HasInk t.text.toList) (rest : List Token) :
    ∃ part parts, expressionParts none (t :: rest) = part :: parts ∧ HasInk part.toList := by
  have hword {first second word : String} (hw : operatorWord? first second = some word) :
      HasInk word.toList := by
    unfold operatorWord? at hw
    split at hw
    · cases hw
      exact ⟨'a', by decide, by decide⟩
    · split at hw
      · cases hw
        exact ⟨'o', by decide, by decide⟩
      · cases hw
  have hchoice {p : Prop} [Decidable p] : HasInk (if p then " not " else t.text).toList := by
    split
    · exact ⟨'n', by decide, by decide⟩
    · exact h
  have hfirst : Constant.isSuffix t none = false := by
    rw [Constant.isSuffix, Bool.and_false]
  rw [expressionParts, hfirst, if_neg Bool.false_ne_true]
  cases rest with
  | nil => exact ⟨_, _, rfl, hchoice⟩
  | cons following more =>
    dsimp only
    split
    · rename_i word hw
      exact ⟨_, _, rfl, hword hw⟩
    · exact ⟨_, _, rfl, hchoice⟩

/-- An expression is empty exactly if it has no tokens. -/
theorem expression_eq_empty_iff {raw text : String} (h : expression raw = .ok text) :
    text = "" ↔ Lexer.codeTokens raw = .ok [] := by
  obtain ⟨tokens, htokens, htext⟩ := bind_eq_ok h
  obtain rfl := Except.ok.inj htext
  cases tokens with
  | nil => exact ⟨fun _ => htokens, fun _ => by decide⟩
  | cons t rest =>
    obtain ⟨part, parts, hparts, hink⟩ :=
      hasInk_expressionParts (hasInk_of_mem_codeTokens htokens List.mem_cons_self) rest
    constructor
    · intro hempty
      have hlist := congrArg String.toList hempty
      rw [String.toList_ofList, hparts] at hlist
      refine absurd hlist (HasInk.strip_ne_nil (HasInk.squeezeSpaces ?_))
      rw [String.join_cons, String.toList_append]
      exact hink.append_right _
    · intro hnil
      cases htokens.symm.trans hnil

/-! ## Characters of an expression -/

/-- The characters that rewriting may add. -/
def addedCharacters : List Char := [' ', 'a', 'n', 'd', 'o', 'r', 't']

/-- The word for a logical operator is added. -/
theorem mem_of_operatorWord? {first second word : String}
    (h : operatorWord? first second = some word) {c : Char} (hc : c ∈ word.toList) :
    c ∈ addedCharacters := by
  have hwords : " and ".toList ++ " or ".toList ⊆ addedCharacters := by decide
  unfold operatorWord? at h
  split at h
  · cases h
    exact hwords (List.mem_append_left _ hc)
  · split at h <;> cases h
    exact hwords (List.mem_append_right _ hc)

/-- A token is written as a word, behind a space or as it is. -/
theorem mem_of_mem_spaced {p q : Prop} [Decidable p] [Decidable q] {t : Token} {c : Char}
    (hc : c ∈ (if p then " not " else if q then " " ++ t.text else t.text).toList) :
    c ∈ t.text.toList ∨ c ∈ addedCharacters := by
  have hword : " not ".toList ⊆ addedCharacters := by decide
  split at hc
  · exact .inr (hword hc)
  split at hc
  · rw [String.toList_append, List.mem_append] at hc
    exact hc.symm.imp_right fun hspace => hword (List.mem_of_mem_take (i := 1) hspace)
  · exact .inl hc

/-- What is written for tokens is part of their texts, or added. -/
theorem mem_of_mem_expressionParts {previous : Option Token} {tokens : List Token} {part : String}
    (h : part ∈ expressionParts previous tokens) {c : Char} (hc : c ∈ part.toList) :
    (∃ t ∈ tokens, c ∈ t.text.toList) ∨ c ∈ addedCharacters := by
  have hmore {ts ts' : List Token} (hsub : ts ⊆ ts')
      (hts : (∃ t ∈ ts, c ∈ t.text.toList) ∨ c ∈ addedCharacters) :
      (∃ t ∈ ts', c ∈ t.text.toList) ∨ c ∈ addedCharacters :=
    hts.imp_left fun ⟨t, ht, hct⟩ => ⟨t, hsub ht, hct⟩
  fun_induction expressionParts previous tokens with
  | case1 => cases h
  | case2 previous token rest hsuffix ih => exact hmore (List.subset_cons_self token rest) (ih h)
  | case3 previous token adjacent hkeep spaced ih =>
    rcases List.mem_cons.mp h with rfl | h
    · exact (mem_of_mem_spaced hc).imp_left fun hct => ⟨token, List.mem_cons_self, hct⟩
    · exact hmore (List.nil_subset _) (ih h)
  | case4 previous token hkeep following more word hword ih =>
    rcases List.mem_cons.mp h with rfl | h
    · exact .inr (mem_of_operatorWord? hword hc)
    · exact hmore (fun t ht => List.mem_cons_of_mem _ (List.mem_cons_of_mem _ ht)) (ih h)
  | case5 previous token adjacent hkeep spaced following more hnone ih =>
    rcases List.mem_cons.mp h with rfl | h
    · exact (mem_of_mem_spaced hc).imp_left fun hct => ⟨token, List.mem_cons_self, hct⟩
    · exact hmore (List.subset_cons_self token _) (ih h)

/-- Squeezing spaces adds nothing. -/
theorem mem_of_mem_squeezeSpaces {text : List Char} {c : Char} (h : c ∈ squeezeSpaces text) :
    c ∈ text := by
  fun_induction squeezeSpaces text with
  | case1 rest ih => exact List.mem_cons_of_mem _ (ih h)
  | case2 d rest _ ih =>
    rcases List.mem_cons.mp h with rfl | h
    · exact List.mem_cons_self
    · exact List.mem_cons_of_mem d (ih h)
  | case3 => cases h

/-- Trimming adds nothing. -/
theorem mem_of_mem_strip {p : Char → Bool} {text : List Char} {c : Char} (h : c ∈ strip p text) :
    c ∈ text := by
  rw [strip, List.mem_reverse] at h
  have hfront := (List.dropWhile_sublist p).mem h
  exact (List.dropWhile_sublist p).mem (List.mem_reverse.mp hfront)

/-- An expression consists of characters of its text and of added ones. -/
theorem mem_of_mem_expression {raw text : String} (h : expression raw = .ok text) {c : Char}
    (hc : c ∈ text.toList) : c ∈ raw.toList ∨ c ∈ addedCharacters := by
  obtain ⟨tokens, htokens, htext⟩ := bind_eq_ok h
  obtain ⟨all, hall, hfilter⟩ := bind_eq_ok htokens
  obtain rfl := Except.ok.inj htext
  cases hfilter
  have hlexed : all = (Lexer.lex "<string>" raw).tokens := by
    unfold Lexer.Lexed.tokens? at hall
    split at hall <;> cases hall
    rfl
  rw [String.toList_ofList] at hc
  have hjoined := mem_of_mem_squeezeSpaces (mem_of_mem_strip hc)
  rw [String.toList_join, List.mem_flatMap] at hjoined
  obtain ⟨part, hpart, hcpart⟩ := hjoined
  rcases mem_of_mem_expressionParts hpart hcpart with ⟨t, ht, hct⟩ | hadded
  · have hmem := (List.mem_filter.mp ht).1
    rw [hlexed] at hmem
    exact .inl (Lexer.mem_of_mem_lexFrom hmem hct)
  · exact .inr hadded

end SdkBindings.Module
