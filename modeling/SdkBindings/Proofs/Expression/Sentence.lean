import SdkBindings.Proofs.Expression.Reading

/-!
# Sentences of the infix grammar

The grammar of constant expressions, with no regard to levels, and a machine that accepts it.

* **Sentences** (`Sentence`): operands and groups, each under any chain of unary operators, joined
  by binary operators.  A group is never empty.
* **The machine** (`Accepts`): it only knows how many groups are open and whether an operand has to
  come next.  This is what a pass over the tokens can keep track of.
* **The lenient machine** (`AcceptsWithout`): it also passes a closing parenthesis in the place of an
  operand, and counts how often.

The machine accepts sentences only (`Accepts.sentence`).  The proof splits what is accepted from
inside some groups into the end of the innermost one and, for each group around it, a closing
parenthesis and a way to continue behind it.
-/

namespace SdkBindings.Constant

/-- The tokens are a sentence of the infix grammar. -/
inductive Sentence : List Token → Prop where
  | operand {signs : List UnaryOp} {text : String} {us ts : List Token} :
      SpellsSigns signs us → SpellsOperand text ts → Sentence (us ++ ts)
  | group {signs : List UnaryOp} {us body : List Token} {o c : Token} :
      SpellsSigns signs us → o.IsPunctuation "(" → Sentence body → c.IsPunctuation ")" →
      Sentence (us ++ o :: (body ++ [c]))
  | binary {op : BinaryOp} {ls os rs : List Token} :
      Sentence ls → SpellsOperator op os → Sentence rs → Sentence (ls ++ (os ++ rs))

/-- From a place with a number of open groups, where an operand may have to come next, the tokens
lead to the end of an expression. -/
inductive Accepts : Nat → Bool → List Token → Prop where
  | done : Accepts 0 false []
  | sign {depth : Nat} {op : UnaryOp} {t : Token} {rest : List Token} :
      t.IsPunctuation op.char.toString → Accepts depth true rest → Accepts depth true (t :: rest)
  | operand {depth : Nat} {text : String} {ts rest : List Token} :
      SpellsOperand text ts → Accepts depth false rest → Accepts depth true (ts ++ rest)
  | opening {depth : Nat} {t : Token} {rest : List Token} :
      t.IsPunctuation "(" → Accepts (depth + 1) true rest → Accepts depth true (t :: rest)
  | closing {depth : Nat} {t : Token} {rest : List Token} :
      t.IsPunctuation ")" → Accepts depth false rest → Accepts (depth + 1) false (t :: rest)
  | operator {depth : Nat} {op : BinaryOp} {os rest : List Token} :
      SpellsOperator op os → Accepts depth true rest → Accepts depth false (os ++ rest)

/-- From a place with a number of open groups, where an operand may have to come next, the tokens
lead to the end of an expression, except that a number of closing parentheses stand where an operand
has to come. -/
inductive AcceptsWithout : Nat → Nat → Bool → List Token → Prop where
  | done : AcceptsWithout 0 0 false []
  | sign {n depth : Nat} {op : UnaryOp} {t : Token} {rest : List Token} :
      t.IsPunctuation op.char.toString → AcceptsWithout n depth true rest →
      AcceptsWithout n depth true (t :: rest)
  | operand {n depth : Nat} {text : String} {ts rest : List Token} :
      SpellsOperand text ts → AcceptsWithout n depth false rest →
      AcceptsWithout n depth true (ts ++ rest)
  | opening {n depth : Nat} {t : Token} {rest : List Token} :
      t.IsPunctuation "(" → AcceptsWithout n (depth + 1) true rest →
      AcceptsWithout n depth true (t :: rest)
  | closing {n depth : Nat} {t : Token} {rest : List Token} :
      t.IsPunctuation ")" → AcceptsWithout n depth false rest →
      AcceptsWithout n (depth + 1) false (t :: rest)
  | missing {n depth : Nat} {t : Token} {rest : List Token} :
      t.IsPunctuation ")" → AcceptsWithout n depth false rest →
      AcceptsWithout (n + 1) (depth + 1) true (t :: rest)
  | operator {n depth : Nat} {op : BinaryOp} {os rest : List Token} :
      SpellsOperator op os → AcceptsWithout n depth true rest →
      AcceptsWithout n depth false (os ++ rest)

/-- What lacks no operand is accepted. -/
theorem AcceptsWithout.accepts {depth : Nat} {expects : Bool} {tokens : List Token}
    (h : AcceptsWithout 0 depth expects tokens) : Accepts depth expects tokens := by
  generalize hzero : 0 = n at h
  induction h with
  | done => exact .done
  | sign ht _ ih => exact .sign ht (ih hzero)
  | operand ht _ ih => exact .operand ht (ih hzero)
  | opening ht _ ih => exact .opening ht (ih hzero)
  | closing ht _ ih => exact .closing ht (ih hzero)
  | missing => cases hzero
  | operator ho _ ih => exact .operator ho (ih hzero)

/-! ## Sentences grow -/

/-- A unary operator in front of a sentence applies to its first operand or group. -/
theorem Sentence.sign {tokens : List Token} (h : Sentence tokens) {op : UnaryOp} {t : Token}
    (ht : t.IsPunctuation op.char.toString) : Sentence (t :: tokens) := by
  induction h with
  | operand hs hoperand =>
    rw [← List.cons_append]
    exact .operand (.cons ht hs) hoperand
  | group hs ho hbody hc _ =>
    rw [← List.cons_append]
    exact .group (.cons ht hs) ho hbody hc
  | binary _ ho hr ihl _ =>
    rw [← List.cons_append]
    exact .binary ihl ho hr

/-- What can stand behind a sentence so that both are a sentence. -/
def Continues (tokens : List Token) : Prop :=
  ∀ before, Sentence before → Sentence (before ++ tokens)

theorem continues_nil : Continues [] := by
  intro before hbefore
  rwa [List.append_nil]

/-- An operator and a sentence continue any sentence. -/
theorem continues_operator {op : BinaryOp} {os tokens : List Token} (ho : SpellsOperator op os)
    (h : Sentence tokens) : Continues (os ++ tokens) := by
  intro before hbefore
  exact .binary hbefore ho h

/-! ## What the machine accepts -/

/-- The end of a number of groups, the innermost first: a closing parenthesis for each of them, with
something that continues the group behind it. -/
def Closes : Nat → List Token → Prop
  | 0, tokens => tokens = []
  | depth + 1, tokens => ∃ c more after, tokens = c :: (more ++ after) ∧ c.IsPunctuation ")" ∧
      Continues more ∧ Closes depth after

/-- What the machine accepts is a sentence, or the rest of one, followed by the end of the groups
that are open. -/
theorem Accepts.split {depth : Nat} {expects : Bool} {tokens : List Token}
    (h : Accepts depth expects tokens) :
    ∃ front after, tokens = front ++ after ∧ Closes depth after ∧
      if expects then Sentence front else Continues front := by
  induction h with
  | done => exact ⟨[], [], rfl, rfl, continues_nil⟩
  | @sign depth op t rest ht _ ih =>
    obtain ⟨front, after, rfl, hafter, hfront⟩ := ih
    exact ⟨t :: front, after, rfl, hafter, Sentence.sign hfront ht⟩
  | @operand depth text ts rest hoperand _ ih =>
    obtain ⟨front, after, rfl, hafter, hfront⟩ := ih
    have hsingle : Sentence ([] ++ ts) := .operand .nil hoperand
    exact ⟨ts ++ front, after, (List.append_assoc ..).symm, hafter, hfront ts hsingle⟩
  | @opening depth t rest ht _ ih =>
    -- the group ends at the first of the parentheses that are still to come
    obtain ⟨body, _, rfl, ⟨c, more, after, rfl, hc, hmore, hafter⟩, hbody⟩ := ih
    have hgroup : Sentence ([] ++ t :: (body ++ [c])) := .group .nil ht hbody hc
    refine ⟨t :: (body ++ [c]) ++ more, after, ?_, hafter, hmore _ hgroup⟩
    simp
  | @closing depth t rest ht _ ih =>
    obtain ⟨front, after, rfl, hafter, hfront⟩ := ih
    exact ⟨[], t :: (front ++ after), rfl, ⟨t, front, after, rfl, ht, hfront, hafter⟩,
      continues_nil⟩
  | @operator depth op os rest ho _ ih =>
    obtain ⟨front, after, rfl, hafter, hfront⟩ := ih
    exact ⟨os ++ front, after, (List.append_assoc ..).symm, hafter, continues_operator ho hfront⟩

/-- **The machine accepts sentences only.** -/
theorem Accepts.sentence {tokens : List Token} (h : Accepts 0 true tokens) : Sentence tokens := by
  obtain ⟨front, after, rfl, hafter, hfront⟩ := h.split
  obtain rfl : after = [] := hafter
  rwa [List.append_nil]

/-- A sentence starts with an operand, a unary operator or a parenthesis. -/
theorem Sentence.opensOperand {tokens : List Token} (h : Sentence tokens) (rest : List Token) :
    ∀ u ∈ (tokens ++ rest).head?, OpensOperand u.text := by
  induction h generalizing rest with
  | operand hs hoperand =>
    exact (Expression.Spells.operand hs hoperand).opensOperand rest
  | group hs ho _ _ _ =>
    rw [List.append_assoc]
    refine hs.opensOperand ?_
    rintro u ⟨⟩
    exact ho.2 ▸ ⟨'(', [], by decide⟩
  | binary _ _ _ ihl _ =>
    rw [List.append_assoc]
    exact ihl _

end SdkBindings.Constant
