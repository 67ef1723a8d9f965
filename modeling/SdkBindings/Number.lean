import SdkBindings.Host
import SdkBindings.Numeral.Binary64

/-!
# Numbers of constant expressions

A constant expression works on integers of any size and on doubles.  The four arithmetic operators
go through doubles, the bitwise ones through the residue modulo `2 ^ 64` of the integer part, and
comparisons are exact on both.  A shift to the left makes the whole integer before its residue is
taken, so it needs a host with room for it.
-/

namespace SdkBindings

open Numeral

/-- A value on the stack of the evaluator. -/
inductive Number where
  /-- An integer of any size. -/
  | int (value : Int)
  /-- A double. -/
  | real (value : Float)
  deriving Repr

namespace Number

/-- Why a number could not be converted. -/
inductive Failure where
  /-- An integer past the largest finite double. -/
  | tooLarge
  /-- An infinity has no integer part. -/
  | infinite
  /-- No number, hence no integer part. -/
  | notANumber
  /-- An integer that the host has no room for. -/
  | noRoom
  deriving DecidableEq, Repr

/-- The exact value of a number. -/
def exact : Number → Real64
  | .int n => Real64.ofInt n
  | .real x => Real64.ofFloat x

/-- The nearest double. -/
def toFloat : Number → Except Failure Float
  | .int n =>
    match Binary64.ofInt? n with
    | some x => .ok x
    | none => .error .tooLarge
  | .real x => .ok x

/-- The integer part, towards zero. -/
def trunc : Number → Except Failure Int
  | .int n => .ok n
  | .real x =>
    match Real64.ofFloat x with
    | .nan => .error .notANumber
    | .infinite _ => .error .infinite
    | .finite n scale => .ok (n.tdiv (Nat.pow 2 scale))

/-- The integer part modulo `2 ^ 64`. -/
def toWord (x : Number) : Except Failure Nat := do
  let n ← x.trunc
  pure (n % 0x10000000000000000).toNat

/-- Every number but zero counts as true. -/
def isTrue (x : Number) : Bool :=
  !x.exact.isZero

/-- One for true and zero for false. -/
def ofBool (b : Bool) : Number :=
  .int (if b then 1 else 0)

/-- The opposite number. -/
def neg : Number → Number
  | .int n => .int (-n)
  | .real x => .real (-x)

/-- The complement of a word, cut to 32 bits. -/
def complement (x : Number) : Except Failure Number := do
  let w ← x.toWord
  pure (.int ((-(w : Int) - 1) % 0x100000000))

/-- An operation on the nearest doubles. -/
def onFloats (f : Float → Float → Float) (x y : Number) : Except Failure Number := do
  let a ← x.toFloat
  let b ← y.toFloat
  pure (.real (f a b))

/-- An operation on words. -/
def onWords (f : Nat → Nat → Nat) (x y : Number) : Except Failure Number := do
  let a ← x.toWord
  let b ← y.toWord
  pure (.int (f a b))

/-- The residue of a word that is shifted to the left; a count of 64 or more shifts everything out. -/
def shiftedWord (word count : Nat) : Nat :=
  if count < 64 then word <<< count % 0x10000000000000000 else 0

/-- The residue is that of the whole integer. -/
theorem shiftedWord_eq (word count : Nat) :
    shiftedWord word count = word <<< count % 0x10000000000000000 := by
  unfold shiftedWord
  split
  · rfl
  · next hcount =>
    have hdvd : 2 ^ 64 ∣ word * 2 ^ count :=
      Nat.dvd_trans (Nat.pow_dvd_pow 2 (Nat.not_lt.mp hcount)) (Nat.dvd_mul_left _ _)
    rw [Nat.shiftLeft_eq]
    exact (Nat.mod_eq_zero_of_dvd hdvd).symm

/-- A shift to the left.  The whole integer is made first, for which the host needs room unless the
word is zero. -/
def shiftLeft [Host] (x y : Number) : Except Failure Number := do
  let word ← x.toWord
  let count ← y.toWord
  if word = 0 ∨ Host.hasRoom word count = true then pure (.int (shiftedWord word count))
  else throw .noRoom

/-- On a host that refuses nothing only the word matters. -/
theorem shiftLeft_unlimited (x y : Number) : x.shiftLeft y = onWords shiftedWord x y := by
  unfold shiftLeft onWords
  refine congrArg _ (funext fun word => congrArg _ (funext fun count => ?_))
  exact if_pos (.inr rfl)

/-- A shift to the right; a count of 64 or more shifts everything out. -/
def shiftRight (word count : Nat) : Nat :=
  if count < 64 then word >>> count else 0

/-- The quotient by a number that is not zero: of two integral doubles its integer part, otherwise
the double itself. -/
def quotient (x y : Number) : Except Failure Number := do
  let a ← x.toFloat
  let b ← y.toFloat
  if (Real64.ofFloat a).isInteger && (Real64.ofFloat b).isInteger then
    let n ← (Number.real (a / b)).trunc
    pure (.int n)
  else
    pure (.real (a / b))

/-- The order of two numbers, if both are numbers. -/
def compare? (x y : Number) : Option Ordering :=
  x.exact.compare? y.exact

end Number

end SdkBindings
