import SdkBindings.Proofs.Expression.Tree
import SdkBindings.Proofs.Formula.Basic
import SdkBindings.Proofs.Formula.Numbers

/-!
# Formulas on words

In a header the operators of a formula work on words: on the residues of their operands modulo
`2 ^ 64`, and a complement is cut to 32 bits.  The residue of a result on integers is the result on the
residues (`word_land` and the lemmas beside it), so an operator gives the same number on words as on
integers where that number is a word itself (`WordOp.Fits`).  A formula in which every operator fits is
worth the same in a header and on integers of any size (`IsExact.value`).
-/

namespace SdkBindings

open Constant Generated

/-! ## Operators of a header -/

/-- The unary operator of a header that a sign is. -/
def Sign.unary : Sign → UnaryOp
  | .negative => .neg
  | .complement => .complement

/-- The binary operator of a header that an operator on bits is. -/
def WordOp.binary : WordOp → BinaryOp
  | .shiftLeft => .shiftLeft
  | .shiftRight => .shiftRight
  | .bitAnd => .bitAnd
  | .bitXor => .bitXor
  | .bitOr => .bitOr

/-- The binary operator of a header that a comparison is. -/
def EqOp.binary : EqOp → BinaryOp
  | .eq => .eq
  | .ne => .ne

/-- The formula as an expression of a header. -/
def Formula.expression : Formula → Expression
  | number signs n => .operand (signs.map Sign.unary) (toString n)
  | group sign body => .group (sign.map Sign.unary) body.expression
  | word op left right => .binary op.binary left.expression right.expression
  | comparison c left right => .binary c.binary left.expression right.expression

/-! ## Residues -/

/-- The residue of an integer modulo `2 ^ 64`. -/
def word (x : Int) : Nat :=
  (x % 0x10000000000000000).toNat

/-- The integer is a word. -/
def IsWord (x : Int) : Prop :=
  0 ≤ x ∧ x < 0x10000000000000000

/-- A word is its own residue. -/
theorem IsWord.word {x : Int} (h : IsWord x) : (SdkBindings.word x : Int) = x := by
  obtain ⟨hnonneg, hlt⟩ := h
  rw [SdkBindings.word, Int.emod_eq_of_lt hnonneg hlt, Int.toNat_of_nonneg hnonneg]

/-- The bits of a residue are the lowest 64 bits. -/
theorem testBit_word (x : Int) (i : Nat) :
    (word x).testBit i = (decide (i < 64) && x.testBit i) := by
  have hpow : (0x10000000000000000 : Nat) = 2 ^ 64 := by decide
  cases x with
  | ofNat n =>
    have hword : word (Int.ofNat n) = n % 2 ^ 64 := by
      rw [word, ← hpow, Int.ofNat_eq_natCast]
      omega
    rw [hword, Nat.testBit_mod_two_pow]
    rfl
  | negSucc n =>
    have hlt : n % 2 ^ 64 < 2 ^ 64 := Nat.mod_lt n (by decide)
    have hword : word (Int.negSucc n) = 2 ^ 64 - (n % 2 ^ 64 + 1) := by
      rw [word, ← hpow]
      omega
    rw [hword, Nat.testBit_two_pow_sub_succ hlt, Nat.testBit_mod_two_pow]
    by_cases hi : i < 64
    · simp [hi, Int.testBit]
    · simp [hi]

section

variable (x y : Int)

/-- The residue of a conjunction. -/
theorem word_land : word (x.land y) = word x &&& word y := by
  refine Nat.eq_of_testBit_eq fun i => ?_
  rw [Nat.testBit_and, testBit_word, testBit_word, testBit_word, Int.testBit_land]
  cases decide (i < 64) <;> simp

/-- The residue of an exclusive disjunction. -/
theorem word_xor : word (x.xor y) = word x ^^^ word y := by
  refine Nat.eq_of_testBit_eq fun i => ?_
  rw [Nat.testBit_xor, testBit_word, testBit_word, testBit_word, Int.testBit_lxor]
  cases decide (i < 64) <;> simp

/-- The residue of a disjunction. -/
theorem word_lor : word (x.lor y) = word x ||| word y := by
  refine Nat.eq_of_testBit_eq fun i => ?_
  rw [Nat.testBit_or, testBit_word, testBit_word, testBit_word, Int.testBit_lor]
  cases decide (i < 64) <;> simp

/-- The residue of a number that is shifted to the left. -/
theorem word_shiftLeft (count : Nat) :
    word (x * 2 ^ count) = Number.shiftedWord (word x) count := by
  have hcast : ((word x * 2 ^ count % 0x10000000000000000 : Nat) : Int) =
      x * 2 ^ count % 0x10000000000000000 := by
    have hnonneg : 0 ≤ x % 0x10000000000000000 := Int.emod_nonneg x (by decide)
    push_cast
    rw [word, Int.toNat_of_nonneg hnonneg, Int.mul_emod, Int.emod_emod, ← Int.mul_emod]
  rw [Number.shiftedWord_eq, Nat.shiftLeft_eq, word, ← hcast, Int.toNat_natCast]

end

/-- A word that is shifted to the right by less than 64. -/
theorem IsWord.shiftRight {x : Int} (hx : IsWord x) {count : Nat} (h : count < 64) :
    (Number.shiftRight (SdkBindings.word x) count : Int) = x / 2 ^ count := by
  rw [Number.shiftRight, if_pos h, Nat.shiftRight_eq_div_pow]
  push_cast
  rw [hx.word]

/-! ## Operators that fit -/

/-- A sign gives the same number in a header as on integers. -/
def Sign.Fits : Sign → Int → Prop
  | .negative, _ => True
  | .complement, x => -0x100000000 ≤ x ∧ x < 0

/-- An operator gives the same number in a header as on integers: what is shifted to the right is a
word, and otherwise the result is one. -/
def WordOp.Fits : WordOp → Int → Int → Prop
  | .shiftLeft, x, y => 0 ≤ y ∧ y < 64 ∧ IsWord (x * 2 ^ y.toNat)
  | .shiftRight, x, y => 0 ≤ y ∧ y < 64 ∧ IsWord x
  | .bitAnd, x, y => IsWord (x.land y)
  | .bitXor, x, y => IsWord (x.xor y)
  | .bitOr, x, y => IsWord (x.lor y)

/-- A number below 64 counts as it is. -/
theorem word_count {y : Int} (hy : 0 ≤ y ∧ y < 64) : word y = y.toNat ∧ y.toNat < 64 := by
  rw [word]
  omega

/-- A sign that fits gives the number that it gives on integers. -/
theorem Sign.Fits.apply {s : Sign} {x : Int} (h : s.Fits x) :
    s.unary.apply (.int x) = .ok (.int (Generated.sign s x)) := by
  cases s with
  | negative => rfl
  | complement =>
    obtain ⟨hlow, hneg⟩ := h
    have hvalue : (-(word x : Int) - 1) % 0x100000000 = -x - 1 := by
      rw [word]
      omega
    show Except.ok (Number.int ((-(word x : Int) - 1) % 0x100000000)) = _
    rw [hvalue]
    rfl

/-- An operator that fits gives the number that it gives on integers. -/
theorem WordOp.Fits.apply {op : WordOp} {x y : Int} (h : op.Fits x y) :
    ∃ z, effect? op x y = some z ∧ op.binary.apply (.int x) (.int y) = .ok (.int z) := by
  have hwords (f : Nat → Nat → Nat) :
      (Number.onWords f (.int x) (.int y)).mapError Constant.Error.conversion =
        .ok (.int (f (word x) (word y))) := rfl
  cases op with
  | shiftLeft =>
    obtain ⟨hnonneg, hlt, hword⟩ := h
    obtain ⟨hcount, -⟩ := word_count ⟨hnonneg, hlt⟩
    refine ⟨x * 2 ^ y.toNat, if_pos hnonneg, ?_⟩
    show ((Number.int x).shiftLeft (.int y)).mapError _ = _
    rw [Number.shiftLeft_unlimited, hwords, hcount, ← word_shiftLeft x, hword.word]
  | shiftRight =>
    obtain ⟨hnonneg, hlt, hword⟩ := h
    obtain ⟨hcount, hsmall⟩ := word_count ⟨hnonneg, hlt⟩
    refine ⟨x / 2 ^ y.toNat, if_pos hnonneg, (hwords Number.shiftRight).trans ?_⟩
    rw [hcount, hword.shiftRight hsmall]
  | bitAnd =>
    refine ⟨x.land y, rfl, (hwords (· &&& ·)).trans ?_⟩
    rw [← word_land, IsWord.word h]
  | bitXor =>
    refine ⟨x.xor y, rfl, (hwords (· ^^^ ·)).trans ?_⟩
    rw [← word_xor, IsWord.word h]
  | bitOr =>
    refine ⟨x.lor y, rfl, (hwords (· ||| ·)).trans ?_⟩
    rw [← word_lor, IsWord.word h]

/-- Comparisons are the same on integers. -/
theorem EqOp.apply (c : EqOp) (x y : Int) :
    c.binary.apply (.int x) (.int y) = .ok (.int (truth (holds c x y))) := by
  have horder : Number.compare? (.int x) (.int y) = some .eq ↔ x = y := by
    show some (compare (x * (Nat.pow 2 0 : Nat)) (y * (Nat.pow 2 0 : Nat))) = some .eq ↔ _
    simp
  cases c with
  | eq =>
    show Except.ok (Number.ofBool (decide _)) = _
    simp only [horder]
    rfl
  | ne =>
    show Except.ok (Number.ofBool (decide _)) = _
    simp only [ne_eq, horder]
    rfl

/-! ## Formulas that fit -/

namespace Formula

/-- Every sign of a chain fits the number it applies to. -/
def SignsFit : List Sign → Int → Prop
  | [], _ => True
  | s :: signs, x => SignsFit signs x ∧ s.Fits (signed signs x)

/-- Every operator of the formula fits the numbers of its operands. -/
def IsExact : Formula → Prop
  | number signs n => SignsFit signs n
  | group sign body => body.IsExact ∧ ∀ x ∈ body.integer?, SignsFit sign.toList x
  | word op left right =>
    left.IsExact ∧ right.IsExact ∧ ∀ x ∈ left.integer?, ∀ y ∈ right.integer?, op.Fits x y
  | comparison _ left right => left.IsExact ∧ right.IsExact

/-- Signs that fit give the number that they give on integers. -/
theorem SignsFit.apply {signs : List Sign} {x : Int} (h : SignsFit signs x) :
    applyUnary (signs.map Sign.unary) (.int x) = .ok (.int (signed signs x)) := by
  induction signs with
  | nil => rfl
  | cons s signs ih =>
    obtain ⟨hrest, hfits⟩ := h
    rw [List.map_cons, applyUnary, ih hrest]
    exact hfits.apply

/-- **Exactness.**  A formula in which every operator fits is worth in a header what it is worth on
integers of any size. -/
theorem IsExact.value {f : Formula} (h : f.IsExact) (symbols : SymbolTable) :
    ∃ x, f.integer? = some x ∧ f.expression.value symbols = .ok (.int x) := by
  induction f with
  | number signs n =>
    refine ⟨_, rfl, ?_⟩
    rw [expression, Expression.value, bareOperand_toString]
    exact SignsFit.apply h
  | group sign body ih =>
    obtain ⟨hbody, hsign⟩ := h
    obtain ⟨x, hx, hvalue⟩ := ih hbody
    refine ⟨signed sign.toList x, by rw [integer?, hx, Option.map_some], ?_⟩
    rw [expression, Expression.value, hvalue, Option.toList_map]
    exact (hsign x hx).apply
  | word op left right ihl ihr =>
    obtain ⟨hleft, hright, hfits⟩ := h
    obtain ⟨x, hx, hxvalue⟩ := ihl hleft
    obtain ⟨y, hy, hyvalue⟩ := ihr hright
    obtain ⟨z, hz, happly⟩ := (hfits x hx y hy).apply
    refine ⟨z, by rw [integer?, hx, hy]; exact hz, ?_⟩
    rw [expression, Expression.value, hxvalue, hyvalue]
    exact happly
  | comparison c left right ihl ihr =>
    obtain ⟨hleft, hright⟩ := h
    obtain ⟨x, hx, hxvalue⟩ := ihl hleft
    obtain ⟨y, hy, hyvalue⟩ := ihr hright
    refine ⟨truth (holds c x y), by rw [integer?, hx, hy]; rfl, ?_⟩
    rw [expression, Expression.value, hxvalue, hyvalue]
    exact EqOp.apply c x y

end Formula

end SdkBindings
