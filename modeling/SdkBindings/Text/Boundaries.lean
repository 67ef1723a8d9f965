/-!
# Sets of code points given by their boundaries

A set of code points that comes in runs is stored as the increasing list of the points where
membership changes: the first entry starts the first run, the second is the first point after it,
and so on.  A point belongs to the set exactly when the number of entries at or below it is odd,
which is what `inside` computes without counting.
-/

namespace SdkBindings.Text

/-- Whether `n` lies in the set whose membership changes at the listed points. -/
def inside : List Nat → Nat → Bool
  | [], _ => false
  | b :: bs, n => if n < b then false else !inside bs n

/-- Below the first boundary nothing belongs to the set. -/
theorem inside_of_lt {b n : Nat} (bs : List Nat) (h : n < b) : inside (b :: bs) n = false := by
  simp [inside, h]

/-- Between the first two boundaries everything belongs to the set. -/
theorem inside_of_mem_first {a b n : Nat} (bs : List Nat) (ha : a ≤ n) (hb : n < b) :
    inside (a :: b :: bs) n = true := by
  simp [inside, hb, Nat.not_lt.mpr ha]

end SdkBindings.Text
