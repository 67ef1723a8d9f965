import SdkBindings.Proofs.Expression.Tree

/-!
# Reading an expression with a stack of waiting operators

The pass from infix to postfix order reads the tokens of a tree as one step (`Spells.read`): it
writes what is settled, leaves what waits on top of the stack and expects an operator next.  Two
facts carry the induction over the tree.

* **No false pair** (`not_pairs_of_opens`, `not_pairs_close`): a token of punctuation is taken
  together with the token behind it only if the two write one operator, which never happens in front
  of an operand, a unary operator or a parenthesis.
* **A shielded stack** (`Shields`): below the operators of an expression waits nothing that these
  operators could release.  Above a waiting operator this is what the levels of a right operand say.
-/

namespace SdkBindings.Constant

open Postfix

/-- A character read as a unary operator is the one that writes it. -/
theorem UnaryOp.eq_char_of_ofChar? {c : Char} {op : UnaryOp} (h : UnaryOp.ofChar? c = some op) :
    c = op.char := by
  unfold UnaryOp.ofChar? at h
  split at h <;> cases h <;> rfl

/-! ## First characters -/

/-- A text that starts with none of the characters that end an operator of two tokens. -/
def OpensOperand (text : String) : Prop :=
  ∃ c rest, text.toList = c :: rest ∧ c ∉ ['<', '>', '|', '&', '=']

/-- The two characters of every operator of two tokens. -/
theorem exists_of_mem_twoTokenOperators {text : String} (h : text ∈ twoTokenOperators) :
    ∃ c d, text.toList = [c, d] ∧ c ≠ ')' ∧ d ∈ ['<', '>', '|', '&', '='] := by
  simp only [twoTokenOperators, List.mem_cons, List.not_mem_nil, or_false] at h
  rcases h with rfl | rfl | rfl | rfl | rfl | rfl | rfl | rfl
  · exact ⟨'<', '<', by decide⟩
  · exact ⟨'>', '>', by decide⟩
  · exact ⟨'|', '|', by decide⟩
  · exact ⟨'&', '&', by decide⟩
  · exact ⟨'=', '=', by decide⟩
  · exact ⟨'!', '=', by decide⟩
  · exact ⟨'<', '=', by decide⟩
  · exact ⟨'>', '=', by decide⟩

/-- One character of punctuation makes no operator with a text that opens an operand. -/
theorem not_pairs_of_opens (c : Char) {text : String} (h : OpensOperand text) :
    twoTokenOperators.contains (c.toString ++ text) = false := by
  obtain ⟨d, rest, hd, hnot⟩ := h
  rw [Bool.eq_false_iff, ne_eq, List.contains_iff_mem]
  intro hmem
  obtain ⟨a, b, hab, -, hb⟩ := exists_of_mem_twoTokenOperators hmem
  simp only [String.toList_append, hd] at hab
  have hc : c.toString.toList = [c] := by simp [Char.toString]
  rw [hc, List.singleton_append, List.cons.injEq, List.cons.injEq] at hab
  exact hnot (hab.2.1 ▸ hb)

/-- A closing parenthesis makes no operator with any text. -/
theorem not_pairs_close (text : String) : twoTokenOperators.contains (")" ++ text) = false := by
  rw [Bool.eq_false_iff, ne_eq, List.contains_iff_mem]
  intro hmem
  obtain ⟨a, b, hab, ha, -⟩ := exists_of_mem_twoTokenOperators hmem
  rw [String.toList_append] at hab
  exact ha (List.cons.inj hab).1.symm

/-- No operator starts with a character that an operand can start with. -/
theorem not_mem_operatorCharacters {c : Char}
    (h : Text.isDecimalDigit c = true ∨ c = '.' ∨ Lexer.isIdentStart c = true ∨ c = '\'') :
    c ∉ ['<', '>', '|', '&', '=', '-', '+', '~', '!'] := by
  have hall : ['<', '>', '|', '&', '=', '-', '+', '~', '!'].all (fun c =>
      !(Text.isDecimalDigit c || c == '.' || Lexer.isIdentStart c || c == '\'')) = true := by
    decide +kernel
  intro hc
  have hother := List.all_eq_true.mp hall c hc
  simp only [Bool.not_eq_true', Bool.or_eq_false_iff, beq_eq_false_iff_ne] at hother
  obtain ⟨⟨⟨hdigit, hpoint⟩, hstart⟩, hquote⟩ := hother
  rcases h with h | h | h | h
  · cases hdigit.symm.trans h
  · exact hpoint h
  · cases hstart.symm.trans h
  · exact hquote h

/-- The first character of an operand is that of no operator. -/
theorem exists_of_isOperand {t : Token} (h : t.IsOperand) :
    ∃ c rest, t.text.toList = c :: rest ∧
      c ∉ ['<', '>', '|', '&', '=', '-', '+', '~', '!'] := by
  obtain ⟨c, rest, hc, ⟨-, hd⟩ | ⟨-, hi⟩ | ⟨-, hq⟩⟩ := h
  · exact ⟨c, rest, hc, not_mem_operatorCharacters (hd.elim .inl (.inr ∘ .inl))⟩
  · exact ⟨c, rest, hc, not_mem_operatorCharacters (.inr (.inr (.inl hi)))⟩
  · exact ⟨c, rest, hc, not_mem_operatorCharacters (.inr (.inr (.inr hq)))⟩

/-- An operand opens an operand. -/
theorem opensOperand_of_isOperand {t : Token} (h : t.IsOperand) : OpensOperand t.text := by
  obtain ⟨c, rest, hc, hnot⟩ := exists_of_isOperand h
  exact ⟨c, rest, hc, fun hmem => hnot (List.mem_append_left ['-', '+', '~', '!'] hmem)⟩

/-- A unary operator opens an operand. -/
theorem opensOperand_sign (op : UnaryOp) : OpensOperand op.char.toString :=
  ⟨op.char, [], by simp [Char.toString], by cases op <;> decide⟩

/-! ## One token -/

/-- Punctuation that makes no pair with what follows is read on its own. -/
theorem read_punct {t : Token} (ht : t.kind = .punct) {rest : List Token}
    (hpair : ∀ u ∈ rest.head?, twoTokenOperators.contains (t.text ++ u.text) = false)
    (s : State) (previous : Option Token) :
    Postfix.read s previous (t :: rest) =
      (s.punctuation t.text).bind fun s => Postfix.read s (some t) rest := by
  have hsuffix : isSuffix t previous = false := by simp [isSuffix, ht]
  rw [Postfix.read.eq_def]
  simp only [hsuffix, ht, Bool.false_eq_true, if_false, reduceCtorEq, or_self, ne_eq,
    not_true_eq_false]
  cases rest with
  | nil =>
    cases s.punctuation t.text with
    | error e => rfl
    | ok s => simp [Except.bind, Postfix.read]
  | cons u rest =>
    have hu : twoTokenOperators.contains (t.text ++ u.text) = false := hpair u rfl
    simp only [hu, Bool.false_eq_true, if_false]
    rfl

/-- Punctuation that makes a pair with what follows is read together with it. -/
theorem read_pair {t u : Token} (ht : t.kind = .punct)
    (hpair : twoTokenOperators.contains (t.text ++ u.text) = true)
    (s : State) (previous : Option Token) (rest : List Token) :
    Postfix.read s previous (t :: u :: rest) =
      (s.punctuation (t.text ++ u.text)).bind fun s => Postfix.read s (some u) rest := by
  have hsuffix : isSuffix t previous = false := by simp [isSuffix, ht]
  rw [Postfix.read.eq_def]
  simp only [hsuffix, ht, hpair, Bool.false_eq_true, if_false, if_true, reduceCtorEq, or_self,
    ne_eq, not_true_eq_false]
  rfl

/-- An operand behind anything but a number is read with the unary operators before it. -/
theorem read_isOperand {t : Token} (ht : t.IsOperand) {s : State} (hs : s.expectsOperand = true)
    {previous : Option Token} (hprev : ∀ p ∈ previous, p.kind ≠ .number) (rest : List Token) :
    Postfix.read s previous (t :: rest) =
      Postfix.read
        ⟨s.output ++ [.operand (Expression.signedText s.pending t.text)], s.stack, false, []⟩
        (some t) rest := by
  have hsuffix : isSuffix t previous = false := by
    cases previous with
    | none => simp [isSuffix]
    | some p => simp [isSuffix, hprev p rfl]
  have hkind : t.kind = .number ∨ t.kind = .ident ∨ t.kind = .char := by
    obtain ⟨-, -, -, ⟨h, -⟩ | ⟨h, -⟩ | ⟨h, -⟩⟩ := ht <;> simp [h]
  rw [Postfix.read.eq_def]
  simp only [hsuffix, hkind, Bool.false_eq_true, if_false, if_true, State.operand, hs]
  rfl

/-- The suffix of a number is passed over. -/
theorem read_suffix {t u : Token} (ht : t.kind = .number) (hu : u.kind = .ident)
    (hmem : u.text ∈ literalSuffixes) (hadj : u.isAdjacentTo t = true) (s : State)
    (rest : List Token) :
    Postfix.read s (some t) (u :: rest) = Postfix.read s (some u) rest := by
  have hsuffix : isSuffix u (some t) = true := by simp [isSuffix, ht, hu, hmem, hadj]
  rw [Postfix.read.eq_def]
  simp only [hsuffix, if_true]

/-! ## Chains, operands and operators -/

/-- Where an operand is expected, a unary operator joins those before it. -/
theorem punctuation_sign {s : State} (hs : s.expectsOperand = true) (op : UnaryOp) :
    s.punctuation op.char.toString = .ok { s with pending := s.pending ++ [op] } := by
  have hne : op.char.toString ≠ "(" ∧ op.char.toString ≠ ")" := by cases op <;> decide
  have hlist : op.char.toString.toList = [op.char] := by simp [Char.toString]
  simp only [State.punctuation, hne.1, hne.2, if_false, State.operator, hs, if_true, hlist,
    UnaryOp.ofChar?_char]

/-- A chain of unary operators in front of what opens an operand opens one. -/
theorem SpellsSigns.opensOperand {ops : List UnaryOp} {us : List Token} (h : SpellsSigns ops us)
    {rest : List Token} (hrest : ∀ u ∈ rest.head?, OpensOperand u.text) :
    ∀ u ∈ (us ++ rest).head?, OpensOperand u.text := by
  cases h with
  | nil => exact hrest
  | @cons op _ _ _ hop _ =>
    rintro u ⟨⟩
    exact hop.2 ▸ opensOperand_sign op

/-- A chain of unary operators in front of an operand or a group waits for it. -/
theorem SpellsSigns.read {ops : List UnaryOp} {us : List Token} (h : SpellsSigns ops us)
    {s : State} (hs : s.expectsOperand = true) {previous : Option Token}
    (hprev : ∀ p ∈ previous, p.kind ≠ .number) (rest : List Token)
    (hrest : ∀ u ∈ rest.head?, OpensOperand u.text) :
    ∃ previous', (∀ p ∈ previous', p.kind ≠ .number) ∧
      Postfix.read s previous (us ++ rest) =
        Postfix.read { s with pending := s.pending ++ ops } previous' rest := by
  induction h generalizing s previous with
  | nil => exact ⟨previous, hprev, by simp⟩
  | @cons op ops t ts ht hts ih =>
    -- what stands behind the operator opens an operand, so the two make no pair
    have hpair : ∀ u ∈ (ts ++ rest).head?, twoTokenOperators.contains (t.text ++ u.text) = false :=
      fun u hu => ht.2 ▸ not_pairs_of_opens op.char (hts.opensOperand hrest u hu)
    have ht' : ∀ p ∈ some t, p.kind ≠ .number := by
      rintro p ⟨⟩
      simp [ht.1]
    obtain ⟨previous', hprev', hread⟩ :=
      ih (s := { s with pending := s.pending ++ [op] }) hs ht'
    refine ⟨previous', hprev', ?_⟩
    rw [List.cons_append, read_punct ht.1 hpair, ht.2, punctuation_sign hs, Except.bind, hread]
    simp

/-- An operand is read with the unary operators before it, and its suffix is passed over. -/
theorem SpellsOperand.read {text : String} {ts : List Token} (h : SpellsOperand text ts)
    {s : State} (hs : s.expectsOperand = true) {previous : Option Token}
    (hprev : ∀ p ∈ previous, p.kind ≠ .number) (rest : List Token) :
    ∃ last, Postfix.read s previous (ts ++ rest) =
      Postfix.read
        ⟨s.output ++ [.operand (Expression.signedText s.pending text)], s.stack, false, []⟩
        last rest := by
  cases h with
  | @bare t ht => exact ⟨some t, by rw [List.singleton_append, read_isOperand ht hs hprev]⟩
  | @suffixed t u ht hkind hu hmem hadj =>
    refine ⟨some u, ?_⟩
    rw [List.cons_append, List.singleton_append, read_isOperand ht hs hprev,
      read_suffix hkind hu hmem hadj]

/-- Where no operand is expected, a binary operator releases what binds at least as tightly and then
waits itself. -/
theorem punctuation_binary {s : State} (hs : s.expectsOperand = false) (op : BinaryOp) :
    s.punctuation op.text =
      .ok { s.release (Waiting.isReleasedBy op.precedence) with
        stack := .binary op :: (s.release (Waiting.isReleasedBy op.precedence)).stack
        expectsOperand := true } := by
  have hne : op.text ≠ "(" ∧ op.text ≠ ")" := by cases op <;> decide
  simp only [State.punctuation, hne.1, hne.2, if_false, State.operator, hs, Bool.false_eq_true,
    BinaryOp.ofText?_text]

/-- An operator of two characters is one that two tokens may write. -/
theorem twoTokenOperators_contains {op : BinaryOp} {c d : Char}
    (h : op.text = c.toString ++ d.toString) : twoTokenOperators.contains op.text = true := by
  have hlength : op.text.length = 2 := by rw [h]; simp [Char.toString]
  cases op <;> revert hlength <;> decide

/-- A binary operator in front of an operand is read as one, in whichever way it is written. -/
theorem SpellsOperator.read {op : BinaryOp} {os : List Token} (h : SpellsOperator op os)
    {s : State} (hs : s.expectsOperand = false) (previous : Option Token) (rest : List Token)
    (hrest : ∀ u ∈ rest.head?, OpensOperand u.text) :
    ∃ last : Option Token, (∀ p ∈ last, p.kind ≠ .number) ∧
      Postfix.read s previous (os ++ rest) =
        Postfix.read { s.release (Waiting.isReleasedBy op.precedence) with
          stack := .binary op :: (s.release (Waiting.isReleasedBy op.precedence)).stack
          expectsOperand := true } last rest := by
  cases h with
  | @one t c htext ht =>
    have hpair : ∀ u ∈ rest.head?, twoTokenOperators.contains (t.text ++ u.text) = false :=
      fun u hu => ht.2 ▸ not_pairs_of_opens c (hrest u hu)
    refine ⟨some t, by rintro p ⟨⟩; simp [ht.1], ?_⟩
    rw [List.singleton_append, read_punct ht.1 hpair, ht.2, ← htext, punctuation_binary hs,
      Except.bind]
  | @two t u c d htext ht hu =>
    have hpair : twoTokenOperators.contains (t.text ++ u.text) = true := by
      rw [ht.2, hu.2, ← htext]
      exact twoTokenOperators_contains htext
    refine ⟨some u, by rintro p ⟨⟩; simp [hu.1], ?_⟩
    rw [List.cons_append, List.singleton_append, read_pair ht.1 hpair, ht.2, hu.2, ← htext,
      punctuation_binary hs, Except.bind]

/-! ## What may wait below an expression -/

/-- Nothing on top of the stack is released by an operator of the level or of a tighter one. -/
def Shields (level : Nat) (stack : List Waiting) : Prop :=
  ∀ w ∈ stack.head?, w = .group ∨ ∃ op : BinaryOp, w = .binary op ∧ level < op.precedence

theorem shields_nil (level : Nat) : Shields level [] := by
  rintro w ⟨⟩

theorem shields_group (level : Nat) (stack : List Waiting) : Shields level (.group :: stack) := by
  rintro w ⟨⟩
  exact .inl rfl

theorem shields_binary {level : Nat} {op : BinaryOp} (h : level < op.precedence)
    (stack : List Waiting) : Shields level (.binary op :: stack) := by
  rintro w ⟨⟩
  exact .inr ⟨op, rfl, h⟩

/-- What shields from a level shields from tighter ones. -/
theorem Shields.mono {m n : Nat} {stack : List Waiting} (h : Shields n stack) (hmn : m ≤ n) :
    Shields m stack := fun w hw =>
  (h w hw).imp_right fun ⟨op, he, hlt⟩ => ⟨op, he, by omega⟩

/-- An operator of the level releases nothing of a stack that shields from it. -/
theorem Shields.takeWhile_eq_nil {level : Nat} {stack : List Waiting} (h : Shields level stack) :
    stack.takeWhile (Waiting.isReleasedBy level) = [] := by
  cases stack with
  | nil => rfl
  | cons w rest =>
    have hw : Waiting.isReleasedBy level w = false := by
      rcases h w rfl with rfl | ⟨op, rfl, hlt⟩
      · rfl
      · simp only [Waiting.isReleasedBy, decide_eq_false_iff_not]
        omega
    rw [List.takeWhile_cons_of_neg (by simp [hw])]

namespace Expression

/-- The state once the tokens of an expression are read. -/
def after (e : Expression) (s : State) : State :=
  ⟨s.output ++ e.settled, e.waiting ++ s.stack, false, []⟩

/-- Releasing exactly what waits after an expression completes its postfix form. -/
theorem release_after {e : Expression} {s : State} {p : Waiting → Bool}
    (hwait : ∀ w ∈ e.waiting, p w = true) (hstack : s.stack.takeWhile p = []) :
    (e.after s).release p = ⟨s.output ++ e.postfixItems, s.stack, false, []⟩ := by
  have htake : (e.waiting ++ s.stack).takeWhile p = e.waiting := by
    rw [List.takeWhile_append_of_pos hwait, hstack, List.append_nil]
  have hdrop : (e.waiting ++ s.stack).dropWhile p = s.stack := by
    rw [List.dropWhile_append_of_pos hwait]
    have := List.takeWhile_append_dropWhile (p := p) (l := s.stack)
    rwa [hstack, List.nil_append] at this
  simp only [State.release, after, htake, hdrop, List.append_assoc, settled_append_waiting]

/-- An operator of at least the level of an expression completes its postfix form and leaves what
shields from the operator. -/
theorem release_isReleasedBy {e : Expression} (he : e.IsLayered) {n : Nat} (hn : e.level ≤ n)
    {s : State} (hs : Shields n s.stack) :
    (e.after s).release (Waiting.isReleasedBy n) =
      ⟨s.output ++ e.postfixItems, s.stack, false, []⟩ := by
  refine release_after ?_ hs.takeWhile_eq_nil
  intro w hw
  obtain ⟨op, rfl, hle⟩ := exists_binary_of_mem_waiting he hw
  simp only [Waiting.isReleasedBy, decide_eq_true_eq]
  omega

/-- The tokens of an expression start with an operand, a unary operator or a parenthesis. -/
theorem Spells.opensOperand {e : Expression} {tokens : List Token} (h : e.Spells tokens)
    (rest : List Token) : ∀ u ∈ (tokens ++ rest).head?, OpensOperand u.text := by
  induction h generalizing rest with
  | operand hs ht =>
    rw [List.append_assoc]
    refine hs.opensOperand ?_
    cases ht with
    | bare ht =>
      rintro u ⟨⟩
      exact opensOperand_of_isOperand ht
    | suffixed ht _ _ _ _ =>
      rintro u ⟨⟩
      exact opensOperand_of_isOperand ht
  | group hs ho _ _ _ =>
    rw [List.append_assoc]
    refine hs.opensOperand ?_
    rintro u ⟨⟩
    exact ho.2 ▸ ⟨'(', [], by decide⟩
  | binary _ _ _ ihl _ =>
    rw [List.append_assoc]
    exact ihl _

/-! ## Groups -/

/-- Where an operand is expected, an opening parenthesis puts the unary operators before it on the
stack. -/
theorem punctuation_open {s : State} (hs : s.expectsOperand = true) :
    s.punctuation "(" = .ok { s with
      stack := .group :: (s.pending.map Waiting.unary ++ s.stack)
      pending := [] } := by
  simp [State.punctuation, State.openGroup, hs]

/-- A closing parenthesis completes the expression inside and releases the unary operators in front
of its group. -/
theorem punctuation_close {e : Expression} (he : e.IsLayered) {output : List Item}
    {ops : List UnaryOp} {stack : List Waiting} (hstack : Shields 0 stack) :
    (e.after ⟨output, .group :: (ops.map Waiting.unary ++ stack), true, []⟩).punctuation ")" =
      .ok ⟨output ++ (e.postfixItems ++ (ops.map Waiting.unary).filterMap Waiting.item?), stack,
        false, []⟩ := by
  have hinside : ∀ w ∈ e.waiting, decide (w ≠ Waiting.group) = true := by
    intro w hw
    obtain ⟨op, rfl, -⟩ := exists_binary_of_mem_waiting he hw
    rfl
  have hunary : ∀ w ∈ ops.map Waiting.unary, Waiting.isUnary w = true := by
    intro w hw
    obtain ⟨op, -, rfl⟩ := List.mem_map.mp hw
    rfl
  have hbelow : stack.takeWhile Waiting.isUnary = [] := by
    cases stack with
    | nil => rfl
    | cons w rest =>
      obtain rfl | ⟨op, rfl, -⟩ := hstack w rfl <;> rfl
  have hdrop : stack.dropWhile Waiting.isUnary = stack := by
    have := List.takeWhile_append_dropWhile (p := Waiting.isUnary) (l := stack)
    rwa [hbelow, List.nil_append] at this
  have hclose : (")" = "(") = False := by simp
  simp only [State.punctuation, hclose, if_false, if_true, State.closeGroup]
  rw [release_after hinside (by rfl)]
  simp only [State.release, List.takeWhile_append_of_pos hunary,
    List.dropWhile_append_of_pos hunary, hbelow, hdrop, List.append_nil, List.append_assoc]

/-- **Reading a group.**  Once its body is read as one step, a group is: its postfix form is that of
the body, followed by the unary operators in front of it, the first of them first. -/
theorem read_group {signs : List UnaryOp} {us ts : List Token} {o c : Token} {body : Expression}
    (hs : SpellsSigns signs us) (ho : o.IsPunctuation "(") (hbody : body.Spells ts)
    (hc : c.IsPunctuation ")") (hlayered : body.IsLayered) {output : List Item}
    {stack : List Waiting} (hstack : Shields 0 stack) {previous : Option Token}
    (hprev : ∀ p ∈ previous, p.kind ≠ .number) (rest : List Token)
    (hinside : ∃ last, Postfix.read
        ⟨output, .group :: (signs.map Waiting.unary ++ stack), true, []⟩ (some o) (ts ++ c :: rest) =
      Postfix.read (body.after ⟨output, .group :: (signs.map Waiting.unary ++ stack), true, []⟩)
        last (c :: rest)) :
    ∃ last, Postfix.read ⟨output, stack, true, []⟩ previous (us ++ o :: (ts ++ [c]) ++ rest) =
      Postfix.read ⟨output ++ (body.postfixItems ++ (signs.map Waiting.unary).filterMap Waiting.item?),
        stack, false, []⟩ last rest := by
  obtain ⟨previous', hprev', hsigns⟩ :=
    hs.read (s := ⟨output, stack, true, []⟩) rfl hprev
      (o :: (ts ++ [c] ++ rest)) (by rintro u ⟨⟩; exact ho.2 ▸ ⟨'(', [], by decide⟩)
  have hopair : ∀ u ∈ (ts ++ [c] ++ rest).head?,
      twoTokenOperators.contains (o.text ++ u.text) = false := by
    rw [List.append_assoc]
    exact fun u hu => ho.2 ▸ not_pairs_of_opens '(' (hbody.opensOperand _ u hu)
  have hcpair : ∀ u ∈ rest.head?, twoTokenOperators.contains (c.text ++ u.text) = false :=
    fun u _ => hc.2 ▸ not_pairs_close u.text
  obtain ⟨last, hinside⟩ := hinside
  have hsplit : us ++ o :: (ts ++ [c]) ++ rest = us ++ o :: (ts ++ [c] ++ rest) := by simp
  refine ⟨some c, ?_⟩
  rw [hsplit, hsigns, read_punct ho.1 hopair, ho.2, List.nil_append, punctuation_open rfl,
    Except.bind, List.append_assoc, List.singleton_append, hinside, read_punct hc.1 hcpair, hc.2,
    punctuation_close hlayered hstack, Except.bind]

/-! ## Whole expressions -/

/-- **Reading an expression.**  Where an operand is expected and the stack shields from the level of
the expression, its tokens are read as one step. -/
theorem Spells.read {e : Expression} {tokens : List Token} (h : e.Spells tokens)
    (he : e.IsLayered) (output : List Item) {stack : List Waiting}
    (hstack : Shields e.level stack) {previous : Option Token}
    (hprev : ∀ p ∈ previous, p.kind ≠ .number) (rest : List Token) :
    ∃ last, Postfix.read ⟨output, stack, true, []⟩ previous (tokens ++ rest) =
      Postfix.read (e.after ⟨output, stack, true, []⟩) last rest := by
  induction h generalizing output stack previous rest with
  | @operand signs text us ts hs ht =>
    have hopen : ∀ u ∈ (ts ++ rest).head?, OpensOperand u.text :=
      (Spells.operand .nil ht).opensOperand rest
    obtain ⟨previous', hprev', hsigns⟩ :=
      hs.read (s := ⟨output, stack, true, []⟩) rfl hprev (ts ++ rest) hopen
    obtain ⟨last, hoperand⟩ :=
      ht.read (s := ⟨output, stack, true, signs⟩) rfl hprev' rest
    exact ⟨last, by rw [List.append_assoc, hsigns, List.nil_append, hoperand]; rfl⟩
  | @group sign body us ts o c hs ho hbody hc ih =>
    have hlayered : body.IsLayered := he
    have ho' : ∀ p ∈ some o, p.kind ≠ .number := by
      rintro p ⟨⟩
      simp [ho.1]
    -- the group starts afresh: its parenthesis shields from every level
    have hinside := ih hlayered output
      (shields_group body.level (sign.toList.map Waiting.unary ++ stack)) ho' (c :: rest)
    exact read_group hs ho hbody hc hlayered (hstack.mono (Nat.zero_le _)) hprev rest hinside
  | @binary op left right ls os rs hl ho hr ihl ihr =>
    obtain ⟨hleft, hright, hle, hlt⟩ := he
    obtain ⟨last, hreadl⟩ := ihl hleft output (hstack.mono hle) hprev
      (os ++ (rs ++ rest))
    obtain ⟨last', hlast', hreado⟩ := ho.read (s := left.after ⟨output, stack, true, []⟩) rfl last
      (rs ++ rest) (hr.opensOperand rest)
    -- the operator releases what waits after the left operand and shields the right one
    obtain ⟨last'', hreadr⟩ := ihr hright (output ++ left.postfixItems)
      (shields_binary hlt stack) hlast' rest
    refine ⟨last'', ?_⟩
    have hrelease : (left.after ⟨output, stack, true, []⟩).release
        (Waiting.isReleasedBy op.precedence) = ⟨output ++ left.postfixItems, stack, false, []⟩ :=
      release_isReleasedBy hleft hle hstack
    rw [List.append_assoc, List.append_assoc, hreadl, hreado, hrelease, hreadr]
    simp only [after, settled, waiting, List.append_assoc, List.cons_append, List.nil_append]

end Expression

/-- **The postfix form of an expression.**  Every spelling of a layered tree is brought into the
tree's own postfix order. -/
theorem toPostfix_spells {e : Expression} {tokens : List Token} (h : e.Spells tokens)
    (he : e.IsLayered) : toPostfix tokens = .ok e.postfixItems := by
  have hfirst : ∀ p ∈ (none : Option Token), p.kind ≠ .number := by
    rintro p ⟨⟩
  obtain ⟨last, hread⟩ := h.read he [] (shields_nil e.level) hfirst []
  have hrelease : (e.after ⟨[], [], true, []⟩).release (fun _ => true) =
      ⟨[] ++ e.postfixItems, [], false, []⟩ :=
    Expression.release_after (s := ⟨[], [], true, []⟩) (fun _ _ => rfl) rfl
  have hgroup : (e.waiting ++ []).contains Waiting.group = false := by
    rw [List.append_nil, Bool.eq_false_iff, ne_eq, List.contains_iff_mem]
    intro hmem
    obtain ⟨op, h, -⟩ := Expression.exists_binary_of_mem_waiting he hmem
    cases h
  rw [List.append_nil] at hread
  simp only [toPostfix, State.start, hread, Postfix.read]
  show State.finish (e.after ⟨[], [], true, []⟩) = _
  rw [State.finish, hrelease]
  simp only [Expression.after, hgroup, Bool.false_eq_true, if_false, List.nil_append]

end SdkBindings.Constant
