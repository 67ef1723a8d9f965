import Mathlib.Data.Int.Bitwise

/-!
# Expressions of the generated language

What an expression in a generated module is worth is up to the language of that module.  This is the
part of its rules that constants need: decimal numbers, two signs, operators on bits, comparisons and
parentheses, on integers of any size.  Signs bind tightest; then come shifts, conjunctions, exclusive
disjunctions and disjunctions, each level to the left; comparisons are loosest, and a chain of them
holds if each of its neighbours do (`valueOf?`).
-/

namespace SdkBindings

/-! ## Operators -/

/-- What may stand in front of an operand. -/
inductive Sign where
  | negative
  | complement
  deriving DecidableEq, Repr

/-- An operator on the bits of two integers. -/
inductive WordOp where
  | shiftLeft
  | shiftRight
  | bitAnd
  | bitXor
  | bitOr
  deriving DecidableEq, Repr

/-- An operator that compares two integers. -/
inductive EqOp where
  | eq
  | ne
  deriving DecidableEq, Repr

namespace Generated

/-- The effect of a sign. -/
def sign : Sign → Int → Int
  | .negative, x => -x
  | .complement, x => -x - 1

/-- The level of an operator; a lower one binds tighter. -/
def level : WordOp → Nat
  | .shiftLeft | .shiftRight => 1
  | .bitAnd => 2
  | .bitXor => 3
  | .bitOr => 4

/-- The level of comparisons. -/
def comparisonLevel : Nat := 5

/-- The effect of an operator on integers of any size.  A shift by a negative count has none. -/
def effect? : WordOp → Int → Int → Option Int
  | .shiftLeft, x, y => if 0 ≤ y then some (x * 2 ^ y.toNat) else none
  | .shiftRight, x, y => if 0 ≤ y then some (x / 2 ^ y.toNat) else none
  | .bitAnd, x, y => some (x.land y)
  | .bitXor, x, y => some (x.xor y)
  | .bitOr, x, y => some (x.lor y)

/-- Whether a comparison holds. -/
def holds : EqOp → Int → Int → Bool
  | .eq, x, y => x = y
  | .ne, x, y => x ≠ y

/-- The number of a truth value. -/
def truth (b : Bool) : Int :=
  if b then 1 else 0

/-! ## Symbols -/

/-- A symbol of an expression. -/
inductive Symbol where
  /-- A number. -/
  | number (n : Nat)
  /-- A sign. -/
  | sign (s : Sign)
  /-- An operator. -/
  | operator (op : WordOp)
  /-- A comparison. -/
  | comparison (c : EqOp)
  /-- An opening parenthesis. -/
  | opening
  /-- A closing parenthesis. -/
  | closing
  deriving DecidableEq, Repr

/-- The number that digits write.  Nothing but zeros may follow a zero in front. -/
def numeral? (digits : List Char) : Option Nat :=
  if digits.head? = some '0' ∧ digits.any (· ≠ '0') then none
  else some (Nat.ofDigitChars 10 digits 0)

/-- The symbol that a single character writes. -/
def mark? : Char → Option Symbol
  | '-' => some (.sign .negative)
  | '~' => some (.sign .complement)
  | '&' => some (.operator .bitAnd)
  | '^' => some (.operator .bitXor)
  | '|' => some (.operator .bitOr)
  | '(' => some .opening
  | ')' => some .closing
  | _ => none

/-- The symbols of a text, with any spaces between them. -/
def symbols? (text : List Char) : Option (List Symbol) :=
  match text with
  | [] => some []
  | ' ' :: rest => symbols? rest
  | '<' :: '<' :: rest => (symbols? rest).map (.operator .shiftLeft :: ·)
  | '>' :: '>' :: rest => (symbols? rest).map (.operator .shiftRight :: ·)
  | '=' :: '=' :: rest => (symbols? rest).map (.comparison .eq :: ·)
  | '!' :: '=' :: rest => (symbols? rest).map (.comparison .ne :: ·)
  | c :: rest =>
    if c.isDigit then
      (numeral? (c :: rest.takeWhile Char.isDigit)).bind fun n =>
        (symbols? (rest.dropWhile Char.isDigit)).map (.number n :: ·)
    else (mark? c).bind fun symbol => (symbols? rest).map (symbol :: ·)
termination_by text.length
decreasing_by
  all_goals simp only [List.length_cons]
  all_goals have := (List.dropWhile_sublist (l := rest) Char.isDigit).length_le
  all_goals omega

/-! ## Values -/

/-- What waits for the number that is being read. -/
inductive Waiting where
  /-- An opening parenthesis. -/
  | group
  /-- A sign. -/
  | sign (s : Sign)
  /-- An operator with its left operand. -/
  | left (x : Int) (op : WordOp)
  /-- A chain of comparisons, whether it holds so far, with the operand that is compared next. -/
  | chain (soFar : Bool) (x : Int) (c : EqOp)
  deriving DecidableEq, Repr

/-- Applies what waits and binds at least as tightly as a level: all signs, and operators down to the
first that is looser. -/
def settle (bound : Nat) : Int → List Waiting → Option (Int × List Waiting)
  | x, .sign s :: below => settle bound (sign s x) below
  | x, .left w op :: below =>
    if level op ≤ bound then (effect? op w x).bind fun y => settle bound y below
    else some (x, .left w op :: below)
  | x, stack => some (x, stack)

/-- Applies what waits inside a group, a chain of comparisons last. -/
def settleAll (x : Int) (stack : List Waiting) : Option (Int × List Waiting) :=
  (settle (level .bitOr) x stack).map fun
    | (y, .chain soFar w c :: below) => (truth (soFar && holds c w y), below)
    | settled => settled

/-- A comparison continues the chain that waits, or starts one. -/
def compareNext (x : Int) (c : EqOp) : List Waiting → List Waiting
  | .chain soFar w d :: below => .chain (soFar && holds d w x) x c :: below
  | stack => .chain true x c :: stack

/-- The value of the symbols that are left, given the number read last, unless an operand has to come
next, and what waits. -/
def valueFrom : Option Int → List Waiting → List Symbol → Option Int
  | none, stack, .number n :: rest => valueFrom (some n) stack rest
  | none, stack, .sign s :: rest => valueFrom none (.sign s :: stack) rest
  | none, stack, .opening :: rest => valueFrom none (.group :: stack) rest
  | some x, stack, .operator op :: rest =>
    (settle (level op) x stack).bind fun (y, below) => valueFrom none (.left y op :: below) rest
  | some x, stack, .comparison c :: rest =>
    (settle (level .bitOr) x stack).bind fun (y, below) => valueFrom none (compareNext y c below) rest
  | some x, stack, .closing :: rest =>
    (settleAll x stack).bind fun
      | (y, .group :: below) => valueFrom (some y) below rest
      | _ => none
  | some x, stack, [] =>
    (settleAll x stack).bind fun (y, below) => if below = [] then some y else none
  | _, _, _ => none

/-- The value of an expression, if it is one and has a value. -/
def valueOf? (text : String) : Option Int :=
  (symbols? text.toList).bind (valueFrom none [])

example : valueOf? "-(1 | 2 == 2)" = some 0 ∧ valueOf? "~(6 & 3 << 1)" = some (-7) ∧
    valueOf? "3 == 3 != 4" = some 1 ∧ valueOf? "1 << -1" = none ∧ valueOf? "007" = none := by
  decide +kernel

end Generated

end SdkBindings
