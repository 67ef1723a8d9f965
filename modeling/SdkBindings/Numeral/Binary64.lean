/-!
# Exact views of double-precision numbers

Doubles are added, subtracted, multiplied and divided by the machine.  Everything else that shows in
a result is done on exact integers: which double is nearest to a ratio, whether a double is an
integer and which one, and how two numbers compare.  A finite double is read as a ratio
`numerator / 2 ^ scale`, and rounding to nearest with ties to the even neighbour is the one rule by
which a ratio becomes a double.
-/

namespace SdkBindings.Numeral

/-- The quotient rounded to the nearest integer, a tie going to the even neighbour. -/
def roundHalfEven (num den : Nat) : Nat :=
  let q := num / den
  let r := num % den
  if 2 * r > den ∨ (2 * r = den ∧ q % 2 = 1) then q + 1 else q

/-- Rounding moves a quotient by at most half a unit. -/
theorem roundHalfEven_near (num den : Nat) (h : 0 < den) :
    2 * num ≤ (2 * roundHalfEven num den + 1) * den ∧
      2 * roundHalfEven num den * den ≤ 2 * num + den := by
  have hdiv := Nat.div_add_mod num den
  have hlt := Nat.mod_lt num h
  generalize hq : num / den = q at *
  generalize hr : num % den = r at *
  have e₁ : (2 * (q + 1) + 1) * den = 2 * (den * q) + 3 * den := by
    rw [Nat.mul_comm den q, Nat.add_mul, Nat.mul_add, Nat.add_mul, Nat.mul_assoc]; omega
  have e₂ : (2 * q + 1) * den = 2 * (den * q) + den := by
    rw [Nat.mul_comm den q, Nat.add_mul, Nat.mul_assoc]; omega
  have e₃ : 2 * (q + 1) * den = 2 * (den * q) + 2 * den := by
    rw [Nat.mul_comm den q, Nat.mul_add, Nat.add_mul, Nat.mul_assoc]
  have e₄ : 2 * q * den = 2 * (den * q) := by
    rw [Nat.mul_comm den q, Nat.mul_assoc]
  simp only [roundHalfEven, hq, hr]
  split <;> omega

namespace Binary64

/-- The bits of positive infinity, just past those of the largest finite double. -/
def infinityBits : Nat := 0x7FF0000000000000

/-- The exponent of the highest power of two that is at most `num / den`. -/
def floorLog2 (num den : Nat) : Int :=
  let s : Int := (num.log2 : Int) - (den.log2 : Int)
  if den <<< s.toNat ≤ num <<< (-s).toNat then s else s - 1

/-- The bits of the double nearest to `num / den`; past the largest finite double, infinity.  A
number is measured in units of its last binary place `2 ^ e`, no smaller than the least subnormal,
and because the fields of a double are adjacent, carrying into the next binade is plain addition. -/
def nearestBits (num den : Nat) : Nat :=
  if num = 0 then 0
  else
    let e : Int := max (floorLog2 num den - 52) (-1074)
    let q := roundHalfEven (num <<< (-e).toNat) (den <<< e.toNat)
    min ((e + 1074).toNat <<< 52 + q) infinityBits

/-- The double with a sign and the given bits of its magnitude. -/
def ofMagnitude (negative : Bool) (bits : Nat) : Float :=
  Float.ofBits (UInt64.ofNat (if negative then bits + 0x8000000000000000 else bits))

/-- The double nearest to an integer, unless the integer is too large for one. -/
def ofInt? (n : Int) : Option Float :=
  let bits := nearestBits n.natAbs 1
  if bits < infinityBits then some (ofMagnitude (decide (n < 0)) bits) else none

/-- The double nearest to `digits * 10 ^ exponent`.  Numbers that are certainly past the largest
finite double or below half the least subnormal are settled by counting digits. -/
def ofDecimal (digits : Nat) (exponent : Int) : Float :=
  let size : Int := (Nat.toDigits 10 digits).length + exponent
  if digits = 0 ∨ size < -330 then ofMagnitude false 0
  else if 330 < size then ofMagnitude false infinityBits
  else ofMagnitude false (nearestBits (digits * Nat.pow 10 exponent.toNat) (Nat.pow 10 (-exponent).toNat))

end Binary64

/-- What a double stands for. -/
inductive Real64 where
  /-- No number. -/
  | nan
  /-- An infinity with its sign. -/
  | infinite (negative : Bool)
  /-- The finite number `numerator / 2 ^ scale`. -/
  | finite (numerator : Int) (scale : Nat)
  deriving DecidableEq, Repr

namespace Real64

/-- Reads the three fields of a double. -/
def ofBits (bits : Nat) : Real64 :=
  let negative := decide (0x8000000000000000 ≤ bits)
  let exponent := bits >>> 52 % 0x800
  let fraction := bits % 0x10000000000000
  let signed : Nat → Int := fun n => if negative then -(n : Int) else n
  if exponent = 0x7FF then
    if fraction = 0 then .infinite negative else .nan
  else if exponent = 0 then .finite (signed fraction) 1074
  else if exponent < 1075 then .finite (signed (0x10000000000000 + fraction)) (1075 - exponent)
  else .finite (signed ((0x10000000000000 + fraction) <<< (exponent - 1075))) 0

/-- The exact value of a double. -/
def ofFloat (x : Float) : Real64 :=
  ofBits x.toBits.toNat

/-- An integer as an exact value. -/
def ofInt (n : Int) : Real64 :=
  .finite n 0

/-- Whether the value is an integer. -/
def isInteger : Real64 → Bool
  | .finite n scale => n % Nat.pow 2 scale = 0
  | _ => false

/-- Zero of either sign. -/
def isZero : Real64 → Bool
  | .finite n _ => n = 0
  | _ => false

/-- The order of two values; a value that is no number has none. -/
def compare? : Real64 → Real64 → Option Ordering
  | .nan, _ => none
  | _, .nan => none
  | .infinite s, .infinite t => some (if s = t then .eq else if s then .lt else .gt)
  | .infinite s, .finite _ _ => some (if s then .lt else .gt)
  | .finite _ _, .infinite t => some (if t then .gt else .lt)
  | .finite n k, .finite m l => some (compare (n * Nat.pow 2 l) (m * Nat.pow 2 k))

end Real64

end SdkBindings.Numeral
