import SdkBindings.Proofs.Expression.Heights
import SdkBindings.Proofs.Expression.Sentence
import SdkBindings.Proofs.Lexing.Pieces

/-!
# Only sentences have a value

The pass from infix to postfix order takes a closing parenthesis even where an operand should stand,
so it accepts more than sentences.  Whatever it accepts besides has no value (`evaluates_only_sentences`).
Two quantities of its state show this.

* **The surplus** (`State.surplus`): what the postfix form, with everything that waits, leaves on the
  stack, against what the place in the expression calls for.  Every token keeps it, except that a
  closing parenthesis in the place of an operand loses one, and nothing makes up for it.  The lenient
  machine of `Sentence` counts what is lost (`accepts_of_read`), and a form that leaves one number
  comes from a reading that lost nothing.
* **Soundness** (`State.IsSound`): the output runs and leaves one number for each operator that
  waits.  Sentences keep it (`Sentence.read`), so their postfix form leaves one number.
-/

namespace SdkBindings

/-- The token has the category and the text of one that the lexer gives. -/
def Token.IsGiven (t : Token) : Prop :=
  Lexer.IsPiece t ∨ (t.kind = .eof ∧ t.text = "")

/-- The lexer gives such tokens. -/
theorem Lexer.isGiven_of_mem_lex {file source : String} {t : Token}
    (h : t ∈ (Lexer.lex file source).tokens) : t.IsGiven :=
  Lexer.isPiece_of_mem_lexFrom h

namespace Constant

open Postfix

/-! ## Tokens -/

/-- Punctuation is a single character. -/
theorem exists_char_of_punct {t : Token} (h : t.IsGiven) (ht : t.kind = .punct) :
    ∃ c : Char, t.IsPunctuation c.toString := by
  rcases h with ⟨c, rest, k, hscan, htext⟩ | ⟨heof, -⟩
  · refine ⟨c, ht, ?_⟩
    have hk : k = 0 := by
      rcases Lexer.scan_eq_some hscan with h | ⟨h, -⟩ | ⟨h, -⟩ | ⟨h, -⟩ | ⟨h, -⟩ | ⟨-, -, hk⟩
      · cases ht.symm.trans h
      · cases ht.symm.trans h
      · cases ht.symm.trans h
      · cases ht.symm.trans h
      · cases ht.symm.trans h
      · exact hk
    rw [htext, hk]
    rfl
  · cases ht.symm.trans heof

/-- Only punctuation is the second half of an operator. -/
theorem punct_of_pairs {c : Char} {u : Token} (hu : u.IsGiven)
    (h : twoTokenOperators.contains (c.toString ++ u.text) = true) : u.kind = .punct := by
  have hnot : ¬ OpensOperand u.text := by
    intro hopens
    rw [not_pairs_of_opens c hopens] at h
    cases h
  rcases hu with hpiece | ⟨-, hempty⟩
  · obtain ⟨d, rest, k, hscan, htext⟩ := hpiece
    have hopens (hd : d ∉ ['<', '>', '|', '&', '=']) : OpensOperand u.text :=
      ⟨d, rest.take k, by rw [htext, String.toList_ofList], hd⟩
    have hoperand (hkind : u.kind = .number ∨ u.kind = .ident ∨ u.kind = .char) :
        OpensOperand u.text :=
      opensOperand_of_isOperand (Lexer.isOperand_of_isPiece ⟨d, rest, k, hscan, htext⟩ hkind)
    rcases Lexer.scan_eq_some hscan with h | ⟨h, -⟩ | ⟨h, -⟩ | ⟨-, rfl, -⟩ | ⟨h, -⟩ | ⟨h, -⟩
    · rw [h] at hscan
      obtain ⟨rfl, -⟩ | ⟨rfl, -⟩ := Lexer.newline_of_scan hscan
      · exact absurd (hopens (by decide)) hnot
      · exact absurd (hopens (by decide)) hnot
    · exact absurd (hoperand (.inl h)) hnot
    · exact absurd (hoperand (.inr (.inl h))) hnot
    · exact absurd (hopens (by decide)) hnot
    · exact absurd (hoperand (.inr (.inr h))) hnot
    · exact h
  · obtain ⟨a, b, hab, -⟩ := exists_of_mem_twoTokenOperators (List.contains_iff_mem.mp h)
    simp [hempty, Char.toString] at hab

/-- An operator is the one with its text. -/
theorem BinaryOp.eq_text_of_ofText? {text : String} {op : BinaryOp}
    (h : BinaryOp.ofText? text = some op) : text = op.text := by
  have := List.find?_some h
  simpa [eq_comm] using this

namespace Postfix

/-! ## Groups and operators that wait -/

/-- Whether the entry is a binary operator. -/
def Waiting.isBinary : Waiting → Bool
  | .binary _ => true
  | _ => false

namespace State

/-- The number of groups that are open. -/
def groups (s : State) : Nat :=
  s.stack.count .group

/-- The number of binary operators that wait. -/
def operators (s : State) : Nat :=
  s.stack.countP Waiting.isBinary

/-- Releasing entries down to the nearest parenthesis at most leaves the open groups alone. -/
theorem groups_release (s : State) {p : Waiting → Bool} (hp : p .group = false) :
    (s.release p).groups = s.groups := by
  have hnone : (s.stack.takeWhile p).count .group = 0 := by
    rw [List.count_eq_zero]
    intro hmem
    have := List.all_eq_true.mp (List.all_takeWhile (p := p) (l := s.stack)) _ hmem
    rw [hp] at this
    cases this
  have hsplit := congrArg (List.count Waiting.group)
    (List.takeWhile_append_dropWhile (p := p) (l := s.stack))
  rw [List.count_append, hnone, Nat.zero_add] at hsplit
  exact hsplit

/-- Down to the nearest parenthesis either nothing is left, and no group is open, or that
parenthesis is. -/
theorem dropWhile_ne_group (stack : List Waiting) :
    (stack.dropWhile (· ≠ .group) = [] ∧ stack.count .group = 0) ∨
      ∃ below, stack.dropWhile (· ≠ .group) = .group :: below ∧
        stack.count .group = below.count .group + 1 := by
  induction stack with
  | nil => exact .inl ⟨rfl, rfl⟩
  | cons w stack ih =>
    cases w with
    | group => exact .inr ⟨stack, by simp, by simp⟩
    | unary op => simpa using ih
    | binary op => simpa using ih

/-! ## Surplus -/

/-- The postfix form, if everything that waits were released. -/
def whole (s : State) : List Item :=
  s.output ++ s.stack.filterMap Waiting.item?

/-- Releasing entries does not change what there will be in the end. -/
theorem whole_release (s : State) (p : Waiting → Bool) : (s.release p).whole = s.whole := by
  have hsplit := congrArg (List.filterMap Waiting.item?)
    (List.takeWhile_append_dropWhile (p := p) (l := s.stack))
  rw [List.filterMap_append] at hsplit
  simp only [whole, release, List.append_assoc, hsplit]

/-- Releasing every entry gives the postfix form and leaves none. -/
theorem release_all (s : State) :
    (s.release fun _ => true).output = s.whole ∧ (s.release fun _ => true).stack = [] := by
  have hsplit (stack : List Waiting) :
      stack.takeWhile (fun _ => true) = stack ∧ stack.dropWhile (fun _ => true) = [] := by
    induction stack with
    | nil => exact ⟨rfl, rfl⟩
    | cons w stack ih => exact ⟨congrArg (w :: ·) ih.1, ih.2⟩
  refine ⟨?_, (hsplit s.stack).2⟩
  rw [release, whole, (hsplit s.stack).1]

/-- What the postfix form leaves on the stack besides the operand that has just been read. -/
def surplus (s : State) : Int :=
  balance s.whole - if s.expectsOperand then 0 else 1

/-- The effect of an operand. -/
theorem operand_ok {s s' : State} {text : String} (h : s.operand text = .ok s') :
    s.expectsOperand = true ∧ s'.expectsOperand = false ∧ s'.groups = s.groups ∧
      s'.surplus = s.surplus := by
  unfold operand at h
  split at h
  · rename_i hexpects
    cases h
    refine ⟨hexpects, rfl, rfl, ?_⟩
    simp only [surplus, whole, hexpects, balance_append, balance_cons, balance_nil, Item.balance,
      if_true, Bool.false_eq_true, if_false]
    omega
  · cases h

/-- The effect of an opening parenthesis. -/
theorem openGroup_ok {s s' : State} (h : s.openGroup = .ok s') :
    s.expectsOperand = true ∧ s'.expectsOperand = true ∧ s'.groups = s.groups + 1 ∧
      s'.surplus = s.surplus := by
  unfold openGroup at h
  split at h
  · rename_i hexpects
    cases h
    have hgroups : (s.pending.map Waiting.unary).count .group = 0 := by
      simp [List.count_eq_zero]
    have hbalance (ops : List UnaryOp) :
        balance (ops.filterMap (Waiting.item? ∘ Waiting.unary)) = 0 := by
      induction ops with
      | nil => rfl
      | cons op ops ih => simpa [List.filterMap_cons, Waiting.item?, Item.balance] using ih
    refine ⟨hexpects, hexpects, ?_, ?_⟩
    · simp [groups, hgroups]
    · simp [surplus, whole, hexpects, List.filterMap_cons, Waiting.item?, hbalance]
  · cases h

/-- The effect of a closing parenthesis: in the place of an operand it loses one. -/
theorem closeGroup_ok {s s' : State} (h : s.closeGroup = .ok s') :
    s'.expectsOperand = false ∧ s.groups = s'.groups + 1 ∧
      s'.surplus = s.surplus - if s.expectsOperand then 1 else 0 := by
  unfold closeGroup at h
  dsimp only at h
  split at h
  · cases h
  · rename_i w below hstack
    obtain ⟨hnil, -⟩ | ⟨rest, hrest, hcount⟩ := dropWhile_ne_group s.stack
    · cases hstack.symm.trans hnil
    obtain ⟨rfl, rfl⟩ : w = .group ∧ below = rest := List.cons.inj (hstack.symm.trans hrest)
    cases h
    have hwhole : ({ s.release (· ≠ .group) with stack := below } : State).whole = s.whole := by
      rw [← whole_release s (· ≠ .group), whole, whole, hstack]
      rfl
    refine ⟨rfl, ?_, ?_⟩
    · rw [groups, hcount]
      have := groups_release ({ s.release (· ≠ .group) with stack := below } : State)
        (p := Waiting.isUnary) rfl
      exact congrArg (· + 1) this.symm
    · have hreleased := whole_release ({ s.release (· ≠ .group) with stack := below } : State)
        Waiting.isUnary
      rw [hwhole] at hreleased
      unfold surplus
      rw [← hreleased]
      simp only [whole, Bool.false_eq_true, if_false]
      split <;> omega

/-- The effect of an operator. -/
theorem operator_ok {s s' : State} {text : String} (h : s.operator text = .ok s') :
    s'.expectsOperand = true ∧ s'.groups = s.groups ∧ s'.surplus = s.surplus ∧
      if s.expectsOperand then ∃ op : UnaryOp, text = op.char.toString
      else ∃ op : BinaryOp, text = op.text := by
  unfold operator at h
  split at h
  · rename_i hexpects
    split at h
    · rename_i c htext
      split at h
      · rename_i op hop
        cases h
        refine ⟨hexpects, rfl, rfl, ?_⟩
        rw [if_pos hexpects]
        refine ⟨op, ?_⟩
        rw [← UnaryOp.eq_char_of_ofChar? hop, ← String.toList_inj, htext]
        simp [Char.toString]
      · cases h
    · cases h
  · rename_i hexpects
    split at h
    · cases h
    · rename_i op hop
      cases h
      have hgroups := groups_release s (p := Waiting.isReleasedBy op.precedence) rfl
      have hwhole := whole_release s (Waiting.isReleasedBy op.precedence)
      refine ⟨rfl, ?_, ?_, ?_⟩
      · simpa [groups] using hgroups
      · simp only [surplus, whole, hexpects] at hwhole ⊢
        rw [← hwhole]
        simp [Waiting.item?, Item.balance]
        omega
      · rw [if_neg hexpects]
        exact ⟨op, BinaryOp.eq_text_of_ofText? hop⟩

end State

end Postfix

/-! ## What is read without loss -/

/-- The tokens behind the suffix of the token before them, if there is one. -/
def pastSuffix (previous : Option Token) : List Token → List Token
  | [] => []
  | t :: rest => if isSuffix t previous then rest else t :: rest

/-- Only numbers have suffixes. -/
theorem pastSuffix_of_ne_number {t : Token} (ht : t.kind ≠ .number) (tokens : List Token) :
    pastSuffix (some t) tokens = tokens := by
  cases tokens with
  | nil => rfl
  | cons u rest => simp [pastSuffix, isSuffix, ht]

/-- An operand is read with its suffix. -/
theorem accepts_operand {t : Token} (ht : t.IsOperand) {n depth : Nat} {rest : List Token}
    (h : AcceptsWithout n depth false (pastSuffix (some t) rest)) :
    AcceptsWithout n depth true (t :: rest) := by
  cases rest with
  | nil => exact .operand (.bare ht) h
  | cons u rest =>
    cases hsuffix : isSuffix u (some t) with
    | false =>
      simp only [pastSuffix, hsuffix, Bool.false_eq_true, if_false] at h
      exact .operand (.bare ht) h
    | true =>
      simp only [pastSuffix, hsuffix, if_true] at h
      simp only [isSuffix, Bool.and_eq_true, decide_eq_true_eq, List.contains_iff_mem] at hsuffix
      obtain ⟨⟨hu, hmem⟩, hnumber, hadjacent⟩ := hsuffix
      exact .operand (.suffixed ht hnumber hu hmem hadjacent) h

section

variable {s s' : State}

/-- A single character of punctuation is a step of the machine, which counts what is lost. -/
theorem accepts_punctuation {t : Token} {c : Char} (ht : t.IsPunctuation c.toString)
    (h : s.punctuation t.text = .ok s') :
    ∃ lost : Nat, s'.surplus = s.surplus - lost ∧ ∀ n rest,
      AcceptsWithout n s'.groups s'.expectsOperand rest →
        AcceptsWithout (n + lost) s.groups s.expectsOperand (t :: rest) := by
  unfold State.punctuation at h
  split at h
  · rename_i hopen
    obtain ⟨hbefore, hafter, hgroups, hsurplus⟩ := State.openGroup_ok h
    refine ⟨0, by omega, fun n rest hrest => ?_⟩
    rw [hgroups, hafter] at hrest
    rw [hbefore]
    exact .opening ⟨ht.1, hopen⟩ hrest
  split at h
  · rename_i hclose
    obtain ⟨hafter, hgroups, hsurplus⟩ := State.closeGroup_ok h
    rw [hgroups]
    cases hbefore : s.expectsOperand with
    | true =>
      rw [hbefore, if_pos rfl] at hsurplus
      refine ⟨1, hsurplus, fun n rest hrest => ?_⟩
      rw [hafter] at hrest
      exact .missing ⟨ht.1, hclose⟩ hrest
    | false =>
      rw [hbefore, if_neg Bool.false_ne_true] at hsurplus
      refine ⟨0, hsurplus, fun n rest hrest => ?_⟩
      rw [hafter] at hrest
      exact .closing ⟨ht.1, hclose⟩ hrest
  · obtain ⟨hafter, hgroups, hsurplus, htext⟩ := State.operator_ok h
    refine ⟨0, by omega, fun n rest hrest => ?_⟩
    rw [hafter, hgroups] at hrest
    cases hbefore : s.expectsOperand with
    | true =>
      rw [hbefore, if_pos rfl] at htext
      obtain ⟨op, hop⟩ := htext
      exact .sign ⟨ht.1, hop⟩ hrest
    | false =>
      rw [hbefore, if_neg Bool.false_ne_true] at htext
      obtain ⟨op, hop⟩ := htext
      exact .operator (.one c (hop.symm.trans ht.2) ht) hrest

/-- Two characters that make an operator together are a step of the machine. -/
theorem accepts_pair {t u : Token} {c d : Char} (ht : t.IsPunctuation c.toString)
    (hu : u.IsPunctuation d.toString) (h : s.punctuation (t.text ++ u.text) = .ok s') :
    s'.surplus = s.surplus ∧ ∀ n rest,
      AcceptsWithout n s'.groups s'.expectsOperand rest →
        AcceptsWithout n s.groups s.expectsOperand (t :: u :: rest) := by
  have hlist : (t.text ++ u.text).toList = [c, d] := by
    rw [ht.2, hu.2, String.toList_append]
    simp [Char.toString]
  have hne {text : String} (htext : text.toList.length = 1) : t.text ++ u.text ≠ text := by
    rintro rfl
    rw [hlist] at htext
    cases htext
  have hopen : t.text ++ u.text ≠ "(" := hne rfl
  have hclose : t.text ++ u.text ≠ ")" := hne rfl
  rw [State.punctuation, if_neg hopen, if_neg hclose] at h
  obtain ⟨hafter, hgroups, hsurplus, htext⟩ := State.operator_ok h
  refine ⟨hsurplus, fun n rest hrest => ?_⟩
  rw [hafter, hgroups] at hrest
  cases hbefore : s.expectsOperand with
  | true =>
    rw [hbefore, if_pos rfl] at htext
    obtain ⟨op, hop⟩ := htext
    exact absurd hop (hne (by simp [Char.toString]))
  | false =>
    rw [hbefore, if_neg Bool.false_ne_true] at htext
    obtain ⟨op, hop⟩ := htext
    rw [ht.2, hu.2] at hop
    exact .operator (.two c d hop.symm ht hu) hrest

end

/-- **Reading.**  A run of tokens that is read to the end of an expression is accepted by the machine,
except that it lacks as many operands as the surplus has lost. -/
theorem accepts_of_read {s s' : State} {previous : Option Token} {tokens : List Token}
    (htokens : ∀ t ∈ tokens, t.IsGiven) (h : Postfix.read s previous tokens = .ok s')
    (hdone : s'.expectsOperand = false) (hclosed : s'.groups = 0) :
    ∃ n : Nat, s'.surplus = s.surplus - n ∧
      AcceptsWithout n s.groups s.expectsOperand (pastSuffix previous tokens) := by
  fun_induction Postfix.read s previous tokens with
  | case1 s previous =>
    cases h
    refine ⟨0, by omega, ?_⟩
    rw [hdone, hclosed]
    exact .done
  | case2 s previous token rest hsuffix ih =>
    have hident : token.kind ≠ .number := by
      intro hnumber
      simp [isSuffix, hnumber] at hsuffix
    rw [pastSuffix, if_pos hsuffix, ← pastSuffix_of_ne_number hident rest]
    exact ih (fun t ht => htokens t (List.mem_cons_of_mem _ ht)) h
  | case3 s previous token rest hsuffix hkind ih =>
    obtain ⟨s₁, hoperand, hread⟩ := bind_eq_ok h
    obtain ⟨hbefore, hafter, hgroups, hsurplus⟩ := State.operand_ok hoperand
    obtain ⟨n, hlost, hrest⟩ := ih s₁ (fun t ht => htokens t (List.mem_cons_of_mem _ ht)) hread
    refine ⟨n, by omega, ?_⟩
    rw [hafter, hgroups] at hrest
    rw [pastSuffix, if_neg hsuffix, hbefore]
    refine accepts_operand ?_ hrest
    rcases htokens token List.mem_cons_self with hpiece | ⟨heof, -⟩
    · exact Lexer.isOperand_of_isPiece hpiece hkind
    · rw [heof] at hkind
      rcases hkind with hkind | hkind | hkind <;> cases hkind
  | case4 => cases h
  | case5 s previous token hsuffix hkind hpunct =>
    obtain ⟨c, hc⟩ := exists_char_of_punct (htokens token List.mem_cons_self)
      (Decidable.not_not.mp hpunct)
    obtain ⟨lost, hlost, hstep⟩ := accepts_punctuation hc h
    have hend : AcceptsWithout 0 s'.groups s'.expectsOperand [] := by
      rw [hdone, hclosed]
      exact .done
    rw [pastSuffix, if_neg hsuffix]
    exact ⟨0 + lost, by omega, hstep 0 [] hend⟩
  | case6 s previous token hsuffix hkind hpunct next rest hpair ih =>
    obtain ⟨s₁, hpunctuation, hread⟩ := bind_eq_ok h
    obtain ⟨c, hc⟩ := exists_char_of_punct (htokens token List.mem_cons_self)
      (Decidable.not_not.mp hpunct)
    have hnext : next.IsGiven := htokens next (List.mem_cons_of_mem _ List.mem_cons_self)
    have hnextPunct : next.kind = .punct := punct_of_pairs hnext (hc.2 ▸ hpair)
    obtain ⟨d, hd⟩ := exists_char_of_punct hnext hnextPunct
    obtain ⟨hsurplus, hstep⟩ := accepts_pair hc hd hpunctuation
    obtain ⟨n, hlost, hrest⟩ := ih s₁
      (fun t ht => htokens t (List.mem_cons_of_mem _ (List.mem_cons_of_mem _ ht))) hread
    rw [pastSuffix_of_ne_number (by simp [hnextPunct])] at hrest
    rw [pastSuffix, if_neg hsuffix]
    exact ⟨n, by omega, hstep n rest hrest⟩
  | case7 s previous token hsuffix hkind hpunct next rest hpair ih =>
    obtain ⟨s₁, hpunctuation, hread⟩ := bind_eq_ok h
    obtain ⟨c, hc⟩ := exists_char_of_punct (htokens token List.mem_cons_self)
      (Decidable.not_not.mp hpunct)
    obtain ⟨lost, hlostHere, hstep⟩ := accepts_punctuation hc hpunctuation
    obtain ⟨n, hlost, hrest⟩ := ih s₁ (fun t ht => htokens t (List.mem_cons_of_mem _ ht)) hread
    rw [pastSuffix_of_ne_number (by simp [hc.1])] at hrest
    rw [pastSuffix, if_neg hsuffix]
    exact ⟨n + lost, by omega, hstep n (next :: rest) hrest⟩

/-- Releasing everything at the end gives the whole postfix form. -/
theorem finish_ok {s : State} {items : List Item} (h : s.finish = .ok items) :
    s.expectsOperand = false ∧ s.groups = 0 ∧ items = s.whole := by
  unfold State.finish at h
  split at h
  · cases h
  split at h
  · cases h
  · rename_i hexpects hgroup
    cases h
    refine ⟨by simpa using hexpects, ?_, ?_⟩
    · rw [List.contains_iff_mem] at hgroup
      exact List.count_eq_zero.mpr hgroup
    · exact s.release_all.1

/-- Tokens with a postfix form are accepted, except that they lack as many operands as its balance
says. -/
theorem accepts_of_toPostfix {tokens : List Token} (htokens : ∀ t ∈ tokens, t.IsGiven)
    {items : List Item} (h : toPostfix tokens = .ok items) :
    ∃ n : Nat, balance items = 1 - n ∧ AcceptsWithout n 0 true tokens := by
  obtain ⟨s, hread, hfinish⟩ := bind_eq_ok h
  obtain ⟨hdone, hclosed, rfl⟩ := finish_ok hfinish
  obtain ⟨n, hlost, haccepts⟩ := accepts_of_read htokens hread hdone hclosed
  have hall : pastSuffix none tokens = tokens := by
    cases tokens with
    | nil => rfl
    | cons t rest => simp [pastSuffix, isSuffix]
  rw [hall] at haccepts
  refine ⟨n, ?_, haccepts⟩
  simp [State.surplus, hdone, State.start, State.whole] at hlost ⊢
  omega

/-- Tokens whose postfix form leaves one number are a sentence. -/
theorem sentence_of_heightAfter {tokens : List Token} (htokens : ∀ t ∈ tokens, t.IsGiven)
    {items : List Item} (h : toPostfix tokens = .ok items) (hheight : heightAfter items 0 = some 1) :
    Sentence tokens := by
  obtain ⟨n, hbalance, haccepts⟩ := accepts_of_toPostfix htokens h
  have hone := balance_of_heightAfter hheight
  obtain rfl : n = 0 := by omega
  exact haccepts.accepts.sentence

/-! ## What sentences leave -/

namespace Postfix.State

/-- The output runs and leaves one number for each binary operator that waits, and one more behind an
operand. -/
def IsSound (s : State) : Prop :=
  heightAfter s.output 0 = some (s.operators + if s.expectsOperand then 0 else 1)

/-- Waiting operators find their operands when they are released behind an operand. -/
theorem heightAfter_released (stack : List Waiting) (n : Nat) :
    heightAfter (stack.filterMap Waiting.item?) (stack.countP Waiting.isBinary + (n + 1)) =
      some (n + 1) := by
  induction stack with
  | nil => simp [heightAfter]
  | cons w stack ih =>
    cases w with
    | group => simpa [List.filterMap_cons, Waiting.item?, Waiting.isBinary] using ih
    | unary op =>
      simp only [List.filterMap_cons, Waiting.item?, heightAfter]
      exact ih
    | binary op =>
      have hcount : (Waiting.binary op :: stack).countP Waiting.isBinary + (n + 1) =
          stack.countP Waiting.isBinary + n + 2 := by
        rw [List.countP_cons_of_pos (by rfl)]
        omega
      simp only [List.filterMap_cons, Waiting.item?, heightAfter, hcount, Item.heightAfter,
        BinaryOp.ofText?_text, Option.isSome_some, if_true, Option.bind_some]
      exact ih

/-- Releasing entries behind an operand keeps a state sound. -/
theorem IsSound.release {s : State} (h : s.IsSound) (hs : s.expectsOperand = false)
    (p : Waiting → Bool) : (s.release p).IsSound := by
  have hsplit := congrArg (List.countP Waiting.isBinary)
    (List.takeWhile_append_dropWhile (p := p) (l := s.stack))
  rw [List.countP_append] at hsplit
  have hreleased := heightAfter_released (s.stack.takeWhile p)
    ((s.stack.dropWhile p).countP Waiting.isBinary)
  have hsum : s.operators + 1 = (s.stack.takeWhile p).countP Waiting.isBinary +
      ((s.stack.dropWhile p).countP Waiting.isBinary + 1) := by
    unfold operators
    omega
  simp only [IsSound, hs, Bool.false_eq_true, if_false, hsum] at h
  simp only [IsSound, State.release, hs, heightAfter_append, h, Option.bind_some, hreleased,
    operators, Bool.false_eq_true, if_false]

/-- An operand leaves one more number. -/
theorem IsSound.operand {s : State} (h : s.IsSound) (hs : s.expectsOperand = true) (text : String) :
    IsSound ⟨s.output ++ [.operand text], s.stack, false, []⟩ := by
  simp only [IsSound, hs, if_true, Nat.add_zero] at h
  simp [IsSound, operators, heightAfter, Item.heightAfter, h]

/-- An opening parenthesis in the place of an operand opens a group.  Neither it nor the unary
operators before it are binary operators. -/
theorem IsSound.openGroup {s : State} (h : s.IsSound) (hs : s.expectsOperand = true) :
    ∃ s', s.openGroup = .ok s' ∧ s'.IsSound := by
  have hnone (ops : List UnaryOp) : (ops.map Waiting.unary).countP Waiting.isBinary = 0 := by
    simp [List.countP_eq_zero, Waiting.isBinary]
  have hcount : (Waiting.group :: (s.pending.map Waiting.unary ++ s.stack)).countP
      Waiting.isBinary = s.operators := by
    rw [List.countP_cons_of_neg (by simp [Waiting.isBinary]), List.countP_append, hnone,
      Nat.zero_add]
    rfl
  refine ⟨{ s with
    stack := .group :: (s.pending.map Waiting.unary ++ s.stack)
    pending := [] }, if_pos hs, ?_⟩
  simpa only [IsSound, operators, hcount] using h

/-- A binary operator takes the number of its left operand into account. -/
theorem IsSound.operator {s : State} (h : s.IsSound) (hs : s.expectsOperand = false)
    (op : BinaryOp) (pending : List UnaryOp) :
    IsSound ⟨s.output, .binary op :: s.stack, true, pending⟩ := by
  have hcount : (Waiting.binary op :: s.stack).countP Waiting.isBinary = s.operators + 1 :=
    List.countP_cons_of_pos rfl
  simp only [IsSound, hs, Bool.false_eq_true, if_false] at h
  simp only [IsSound, operators, hcount, if_true, Nat.add_zero, h]

/-- A closing parenthesis behind an operand closes a group. -/
theorem IsSound.closeGroup {s : State} (h : s.IsSound) (hs : s.expectsOperand = false)
    (hgroups : s.groups ≠ 0) : ∃ s', s.closeGroup = .ok s' ∧ s'.IsSound := by
  obtain ⟨-, hzero⟩ | ⟨below, hbelow, -⟩ := dropWhile_ne_group s.stack
  · exact absurd hzero hgroups
  have hstack : (s.release (· ≠ .group)).stack = .group :: below := hbelow
  have hinner : IsSound { s.release (· ≠ .group) with stack := below } := by
    have hreleased := h.release hs (· ≠ .group)
    rw [IsSound, operators, hstack, List.countP_cons_of_neg (by simp [Waiting.isBinary])] at hreleased
    exact hreleased
  refine ⟨{ ({ s.release (· ≠ .group) with stack := below } : State).release Waiting.isUnary with
    expectsOperand := false }, ?_, ?_⟩
  · unfold State.closeGroup
    simp only [hstack]
  · have hfinal := hinner.release hs Waiting.isUnary
    rw [← hs]
    exact hfinal

end Postfix.State

/-- **Reading a sentence.**  Where an operand is expected, a sentence is read to its end; the state
stays sound and no group is opened or closed for good. -/
theorem Sentence.read {tokens : List Token} (h : Sentence tokens) {s : State} (hsound : s.IsSound)
    (hs : s.expectsOperand = true) {previous : Option Token}
    (hprev : ∀ p ∈ previous, p.kind ≠ .number) (rest : List Token) :
    ∃ s' last, Postfix.read s previous (tokens ++ rest) = Postfix.read s' last rest ∧
      s'.IsSound ∧ s'.expectsOperand = false ∧ s'.groups = s.groups := by
  induction h generalizing s previous rest with
  | @operand signs text us ts hsigns hoperand =>
    have hopen : ∀ u ∈ (ts ++ rest).head?, OpensOperand u.text :=
      (Sentence.operand .nil hoperand).opensOperand rest
    obtain ⟨previous', hprev', hreadSigns⟩ := hsigns.read hs hprev (ts ++ rest) hopen
    obtain ⟨last, hreadOperand⟩ :=
      hoperand.read (s := { s with pending := s.pending ++ signs }) hs hprev' rest
    rw [List.append_assoc, hreadSigns, hreadOperand]
    exact ⟨_, last, rfl, hsound.operand hs _, rfl, rfl⟩
  | @group signs us body o c hsigns ho hbody hc ih =>
    have hopair : ∀ u ∈ (body ++ (c :: rest)).head?,
        twoTokenOperators.contains (o.text ++ u.text) = false :=
      fun u hu => ho.2 ▸ not_pairs_of_opens '(' (hbody.opensOperand _ u hu)
    have hcpair : ∀ u ∈ rest.head?, twoTokenOperators.contains (c.text ++ u.text) = false :=
      fun u _ => hc.2 ▸ not_pairs_close u.text
    have ho' : ∀ p ∈ some o, p.kind ≠ .number := by
      rintro p ⟨⟩
      simp [ho.1]
    have hsplit : us ++ o :: (body ++ [c]) ++ rest = us ++ o :: (body ++ c :: rest) := by simp
    obtain ⟨previous', hprev', hreadSigns⟩ :=
      hsigns.read hs hprev (o :: (body ++ c :: rest))
        (by rintro u ⟨⟩; exact ho.2 ▸ ⟨'(', [], by decide⟩)
    have hsigned : State.IsSound { s with pending := s.pending ++ signs } := hsound
    obtain ⟨opened, hopened, hopenedSound⟩ := hsigned.openGroup hs
    obtain ⟨-, hopenedAfter, hopenedCount, -⟩ := State.openGroup_ok hopened
    obtain ⟨inside, last, hreadBody, hinside, hinsideAfter, hinsideCount⟩ :=
      ih hopenedSound hopenedAfter ho' (c :: rest)
    obtain ⟨closed, hclosed, hclosedSound⟩ := hinside.closeGroup hinsideAfter (by omega)
    obtain ⟨hclosedAfter, hclosedCount, -⟩ := State.closeGroup_ok hclosed
    refine ⟨closed, some c, ?_, hclosedSound, hclosedAfter, ?_⟩
    · rw [hsplit, hreadSigns, read_punct ho.1 hopair, ho.2]
      show (State.openGroup _).bind _ = _
      rw [hopened, Except.bind, hreadBody, read_punct hc.1 hcpair, hc.2]
      show inside.closeGroup.bind _ = _
      rw [hclosed, Except.bind]
    · have : State.groups { s with pending := s.pending ++ signs } = s.groups := rfl
      omega
  | @binary op ls os rs hl ho hr ihl ihr =>
    obtain ⟨left, last, hreadLeft, hleft, hleftAfter, hleftCount⟩ :=
      ihl hsound hs hprev (os ++ (rs ++ rest))
    obtain ⟨last', hlast', hreadOperator⟩ :=
      ho.read hleftAfter last (rs ++ rest) (hr.opensOperand rest)
    have hreleased := hleft.release hleftAfter (Waiting.isReleasedBy op.precedence)
    have hgroups := State.groups_release left (p := Waiting.isReleasedBy op.precedence) rfl
    obtain ⟨right, last'', hreadRight, hright, hrightAfter, hrightCount⟩ :=
      ihr (hreleased.operator hleftAfter op left.pending) rfl hlast' rest
    refine ⟨right, last'', ?_, hright, hrightAfter, ?_⟩
    · rw [List.append_assoc, List.append_assoc, hreadLeft, hreadOperator]
      exact hreadRight
    · rw [hrightCount, ← hleftCount, ← hgroups]
      rfl

/-- The postfix form of a sentence leaves one number. -/
theorem Sentence.toPostfix {tokens : List Token} (h : Sentence tokens) :
    ∃ items, toPostfix tokens = .ok items ∧ heightAfter items 0 = some 1 := by
  have hstart : State.IsSound .start := rfl
  have hfirst : ∀ p ∈ (none : Option Token), p.kind ≠ .number := by
    rintro p ⟨⟩
  obtain ⟨s, last, hread, hsound, hdone, hclosed⟩ := h.read hstart rfl hfirst []
  have hreleased := hsound.release hdone (fun _ => true)
  have hgroup : s.stack.contains Waiting.group = false := by
    rw [Bool.eq_false_iff, ne_eq, List.contains_iff_mem]
    exact List.count_eq_zero.mp hclosed
  rw [List.append_nil] at hread
  refine ⟨(s.release fun _ => true).output, ?_, ?_⟩
  · simp only [Constant.toPostfix, hread, Postfix.read]
    show s.finish = _
    simp only [State.finish, hdone, hgroup, Bool.false_eq_true, if_false]
  · have hafter : (s.release fun _ => true).expectsOperand = false := hdone
    simpa [State.IsSound, State.operators, s.release_all.2, hafter] using hreleased

/-- **Only sentences have a value.**  A run of tokens with a value is a sentence; a sentence has a
postfix form, and evaluating that fails only in an operand or an operator, never because it does not
fit the stack. -/
theorem evaluates_only_sentences {tokens : List Token} (h : ∀ t ∈ tokens, t.IsGiven) :
    (∀ symbols x, (toPostfix tokens).bind (evaluatePostfix symbols) = .ok x → Sentence tokens) ∧
      (Sentence tokens → ∃ items, toPostfix tokens = .ok items ∧
        ∀ symbols e, evaluatePostfix symbols items = .error e →
          Arises symbols items e ∧ ¬ e.IsMisfit) := by
  constructor
  · intro symbols x hx
    obtain ⟨items, hitems, hvalue⟩ := bind_eq_ok hx
    exact sentence_of_heightAfter h hitems (heightAfter_of_evaluatePostfix hvalue)
  · intro hsentence
    obtain ⟨items, hitems, hheight⟩ := hsentence.toPostfix
    refine ⟨items, hitems, fun symbols e he => ?_⟩
    have harises := arises_of_heightAfter hheight he
    exact ⟨harises, harises.not_isMisfit⟩

/-- The tokens of `-(9 > > 1U)`. -/
def halvedTokens : List Token :=
  [⟨.punct, "-", 1, 1⟩, ⟨.punct, "(", 1, 2⟩, ⟨.number, "9", 1, 3⟩, ⟨.punct, ">", 1, 5⟩,
    ⟨.punct, ">", 1, 7⟩, ⟨.number, "1", 1, 9⟩, ⟨.ident, "U", 1, 10⟩, ⟨.punct, ")", 1, 11⟩]

/-- A group under a sign with an operator that is written apart and a number with a suffix. -/
theorem evaluates_only_sentences_halved :
    (∀ t ∈ halvedTokens, t.IsGiven) ∧
      (toPostfix halvedTokens).bind (evaluatePostfix .empty) = .ok (.int (-4)) ∧
      Sentence halvedTokens := by
  have hlexed : ∀ t ∈ halvedTokens, t ∈ (Lexer.lex "halved.h" "-(9 > > 1U)").tokens := by
    decide +kernel
  have hgiven : ∀ t ∈ halvedTokens, t.IsGiven :=
    fun t ht => Lexer.isGiven_of_mem_lex (hlexed t ht)
  have hvalue : (toPostfix halvedTokens).bind (evaluatePostfix .empty) = .ok (.int (-4)) := by
    rfl
  exact ⟨hgiven, hvalue, (evaluates_only_sentences hgiven).1 .empty _ hvalue⟩

/-- A group without an operand is brought into postfix order, but its form does not fit the stack. -/
example : (toPostfix [⟨.punct, "(", 1, 1⟩, ⟨.punct, ")", 1, 2⟩]).bind (evaluatePostfix .empty) =
    .error (.stackSize 0) := by
  rfl

end Constant

end SdkBindings
