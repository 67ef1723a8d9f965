import SdkBindings.Constant.Evaluation
import SdkBindings.Token.Lexer

/-!
# Expression trees

A constant expression as a tree, apart from how it is written and how it is run.

* **The tree** (`Expression`): operands with unary operators in front of them, parenthesised groups
  with at most one, and binary nodes.
* **Its value** (`Expression.value`): the left operand, the right operand, then the operator; unary
  operators apply to the operand or group behind them, the nearest first.
* **Its spellings** (`Expression.Spells`): every run of tokens that writes the tree, whatever space
  stands between the tokens.  Only the suffix of a number has to adjoin it.
* **Its levels** (`Expression.IsLayered`): a node takes operators of its own level on the left and
  only tighter ones on the right, unless a group encloses them.  A lower level binds tighter.
-/

namespace SdkBindings

/-! ## Tokens of operands and operators -/

/-- The token is an operand as the lexer cuts it: a number, a name or a character literal, each
starting with a character of its own kind. -/
def Token.IsOperand (t : Token) : Prop :=
  ∃ c rest, t.text.toList = c :: rest ∧
    ((t.kind = .number ∧ (Text.isDecimalDigit c = true ∨ c = '.')) ∨
      (t.kind = .ident ∧ Lexer.isIdentStart c = true) ∨ (t.kind = .char ∧ c = '\''))

/-- The token is the punctuation with a text. -/
def Token.IsPunctuation (t : Token) (text : String) : Prop :=
  t.kind = .punct ∧ t.text = text

namespace Constant

/-- The tokens write a chain of unary operators, one token each. -/
inductive SpellsSigns : List UnaryOp → List Token → Prop where
  | nil : SpellsSigns [] []
  | cons {op : UnaryOp} {ops : List UnaryOp} {t : Token} {ts : List Token} :
      t.IsPunctuation op.char.toString → SpellsSigns ops ts → SpellsSigns (op :: ops) (t :: ts)

/-- The tokens write a binary operator.  One of two characters is written as two tokens, which may
stand apart. -/
inductive SpellsOperator : BinaryOp → List Token → Prop where
  | one {op : BinaryOp} {t : Token} (c : Char) :
      op.text = c.toString → t.IsPunctuation c.toString → SpellsOperator op [t]
  | two {op : BinaryOp} {t u : Token} (c d : Char) :
      op.text = c.toString ++ d.toString → t.IsPunctuation c.toString →
      u.IsPunctuation d.toString → SpellsOperator op [t, u]

/-- The tokens write an operand with a text; a number may carry a suffix right behind it. -/
inductive SpellsOperand : String → List Token → Prop where
  | bare {t : Token} : t.IsOperand → SpellsOperand t.text [t]
  | suffixed {t u : Token} : t.IsOperand → t.kind = .number → u.kind = .ident →
      u.text ∈ literalSuffixes → u.isAdjacentTo t = true → SpellsOperand t.text [t, u]

/-! ## Trees -/

/-- A constant expression. -/
inductive Expression where
  /-- An operand under a chain of unary operators, the outermost first. -/
  | operand (signs : List UnaryOp) (text : String)
  /-- A group between parentheses, with at most one unary operator in front. -/
  | group (sign : Option UnaryOp) (body : Expression)
  /-- A binary operator between two expressions. -/
  | binary (op : BinaryOp) (left right : Expression)
  deriving DecidableEq, Repr

namespace Expression

/-- The level of the outermost operator that no group encloses; zero if there is none. -/
def level : Expression → Nat
  | operand _ _ => 0
  | group _ _ => 0
  | binary op _ _ => op.precedence

/-- Every node has operators of at most its own level on its left and of a tighter one on its
right. -/
def IsLayered : Expression → Prop
  | operand _ _ => True
  | group _ body => body.IsLayered
  | binary op left right =>
    left.IsLayered ∧ right.IsLayered ∧ left.level ≤ op.precedence ∧ right.level < op.precedence

/-- Whether the levels fit can be computed. -/
instance decidableIsLayered : (e : Expression) → Decidable e.IsLayered
  | operand _ _ => inferInstanceAs (Decidable True)
  | group _ body => decidableIsLayered body
  | binary op left right =>
    have := decidableIsLayered left
    have := decidableIsLayered right
    inferInstanceAs (Decidable (left.IsLayered ∧ right.IsLayered ∧ left.level ≤ op.precedence ∧
      right.level < op.precedence))

/-- The number of an expression, evaluated as a tree. -/
def value (symbols : SymbolTable) : Expression → Except Error Number
  | operand signs text => do
    let x ← bareOperand symbols text.toList
    applyUnary signs x
  | group sign body => do
    let x ← body.value symbols
    applyUnary sign.toList x
  | binary op left right => do
    let x ← left.value symbols
    let y ← right.value symbols
    op.apply x y

/-- The tokens write the expression. -/
inductive Spells : Expression → List Token → Prop where
  | operand {signs : List UnaryOp} {text : String} {us ts : List Token} :
      SpellsSigns signs us → SpellsOperand text ts → Spells (.operand signs text) (us ++ ts)
  | group {sign : Option UnaryOp} {body : Expression} {us ts : List Token} {o c : Token} :
      SpellsSigns sign.toList us → o.IsPunctuation "(" → Spells body ts → c.IsPunctuation ")" →
      Spells (.group sign body) (us ++ o :: (ts ++ [c]))
  | binary {op : BinaryOp} {left right : Expression} {ls os rs : List Token} :
      Spells left ls → SpellsOperator op os → Spells right rs →
      Spells (.binary op left right) (ls ++ (os ++ rs))

/-! ## Postfix order -/

/-- The text of an operand with its unary operators. -/
def signedText (signs : List UnaryOp) (text : String) : String :=
  String.ofList (signs.map UnaryOp.char) ++ text

/-- The expression in postfix order. -/
def postfixItems : Expression → List Item
  | operand signs text => [.operand (signedText signs text)]
  | group sign body =>
    body.postfixItems ++ (sign.toList.map Postfix.Waiting.unary).filterMap Postfix.Waiting.item?
  | binary op left right => left.postfixItems ++ right.postfixItems ++ [.binary op.text]

/-- The part of the postfix form that is written once the tokens of the expression are read. -/
def settled : Expression → List Item
  | operand signs text => [.operand (signedText signs text)]
  | group sign body =>
    body.postfixItems ++ (sign.toList.map Postfix.Waiting.unary).filterMap Postfix.Waiting.item?
  | binary _ left right => left.postfixItems ++ right.settled

/-- The operators that still wait once the tokens of the expression are read, the latest first. -/
def waiting : Expression → List Postfix.Waiting
  | operand _ _ => []
  | group _ _ => []
  | binary op _ right => right.waiting ++ [.binary op]

/-- What is written and what waits make up the postfix form. -/
theorem settled_append_waiting (e : Expression) :
    e.settled ++ e.waiting.filterMap Postfix.Waiting.item? = e.postfixItems := by
  induction e with
  | operand signs text => simp [settled, waiting, postfixItems]
  | group sign body _ => simp [settled, waiting, postfixItems]
  | binary op left right _ ih =>
    rw [settled, waiting, postfixItems, List.filterMap_append, ← ih]
    simp [Postfix.Waiting.item?]

/-- What waits after a layered expression is a list of binary operators of at most its level. -/
theorem exists_binary_of_mem_waiting {e : Expression} (he : e.IsLayered) {w : Postfix.Waiting}
    (hw : w ∈ e.waiting) : ∃ op, w = .binary op ∧ op.precedence ≤ e.level := by
  induction e with
  | operand signs text => cases hw
  | group sign body _ => cases hw
  | binary op left right _ ih =>
    obtain ⟨-, hr, -, hlt⟩ := he
    rcases List.mem_append.mp hw with h | h
    · obtain ⟨op', rfl, hle⟩ := ih hr h
      exact ⟨op', rfl, by simp only [level]; omega⟩
    · rw [List.mem_singleton] at h
      exact ⟨op, h, Nat.le_refl _⟩

end Expression

end Constant

end SdkBindings
