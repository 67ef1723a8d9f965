import SdkBindings.Grammar.Enumerations

/-!
# The values of the constants of an enumeration

A constant with an expression has the value of the expression, given the constants before it, or keeps
its text if the expression is of a kind that is left alone.  A constant without an expression follows
the one before it.  `valued` gives all constants of a body their values, one after the other.

What this means for each constant of its own is `isValuation_valued`.  What it means for constants
that follow each other without expressions is `countsUp_valued`: they count up to the largest number
of 32 bits, and behind it, or behind a constant without a number, the text grows by one addition with
each of them.
-/

namespace SdkBindings.Grammar

/-- A constant as it stands in the body of an enumeration: its name and its expression, if it has
one. -/
structure BodyConstant where
  /-- The name. -/
  ident : String
  /-- The tokens of the expression. -/
  expression : Option (List Token)

/-! ## One constant -/

/-- The largest number of 32 bits. -/
def largest : Int := 0xFFFFFFFF

/-- The value of an expression, or its text if it has none. -/
def spelledValue (table : SymbolTable) (tokens : List Token) : Value :=
  match Constant.evaluate table tokens with
  | .ok value => value
  | .error _ => .ofRaw (Token.join tokens)

/-- The value that follows a value: the next number, or the addition of one as a text. -/
def successor (v : Value) : Value :=
  match v.uint32 with
  | some n => if n < largest then .ofNumber (n + 1) "" else .ofRaw ("(" ++ v.raw ++ ") + 1")
  | none => .ofRaw ("(" ++ v.raw ++ ") + 1")

/-- The value of a constant, given the table of the constants known before it and the value of the
constant before it, if there is one. -/
def constantValue (table : SymbolTable) (previous : Option Value) (k : BodyConstant) : Value :=
  match k.expression, previous with
  | some tokens, _ => spelledValue table tokens
  | none, none => .ofNumber 0 ""
  | none, some v => successor v

/-- The table after a constant, which holds it if its value is known. -/
def knownWith (table : SymbolTable) (e : Enumerator) : SymbolTable :=
  if e.value.isResolved then table.insert e.ident e.value else table

/-! ## All constants -/

/-- The constants of a body with their values; `previous` is the value of the one before them. -/
def valued (table : SymbolTable) (previous : Option Value) : List BodyConstant → List Enumerator
  | [] => []
  | k :: rest =>
    let e : Enumerator := ⟨k.ident, constantValue table previous k⟩
    e :: valued (knownWith table e) (some e.value) rest

/-- The constants of a list have the names of those of a body, in order, and each has its value, given
those that come before it. -/
structure IsValuation (table : SymbolTable) (previous : Option Value) (constants : List BodyConstant)
    (list : List Enumerator) : Prop where
  /-- The names are those of the body. -/
  idents : list.map Enumerator.ident = constants.map BodyConstant.ident
  /-- Each value is determined by what comes before it. -/
  value : ∀ i k, constants[i]? = some k →
    (list[i]?).map Enumerator.value =
      some (constantValue ((list.take i).foldl knownWith table)
        (((list.take i).getLast?.map Enumerator.value).or previous) k)

/-- **Values.**  The constants of a body have their values. -/
theorem isValuation_valued (table : SymbolTable) (previous : Option Value)
    (constants : List BodyConstant) :
    IsValuation table previous constants (valued table previous constants) := by
  induction constants generalizing table previous with
  | nil => exact ⟨rfl, fun i k h => nomatch h⟩
  | cons first rest ih =>
    obtain ⟨hidents, hvalue⟩ := ih (knownWith table ⟨first.ident, constantValue table previous first⟩)
      (some (constantValue table previous first))
    refine ⟨?_, fun i k hk => ?_⟩
    · rw [valued, List.map_cons, List.map_cons, hidents]
    · cases i with
      | zero =>
        obtain rfl := Option.some.inj hk
        rfl
      | succ i =>
        rw [valued, List.getElem?_cons_succ, hvalue i k hk, List.take_succ_cons, List.foldl_cons,
          List.getLast?_cons]
        cases (List.take i (valued _ _ rest)).getLast? <;> rfl

/-! ## Constants without expressions -/

/-- The value that comes some places after a value. -/
def successors (v : Value) : Nat → Value
  | 0 => v
  | k + 1 => successor (successors v k)

/-- The text with the addition of one around it some times. -/
def nested (raw : String) : Nat → String
  | 0 => raw
  | k + 1 => "(" ++ nested raw k ++ ") + 1"

/-- Below the largest number, values count up. -/
theorem successors_of_le {v : Value} {n : Int} (h : v.uint32 = some n) {k : Nat} (hpos : 0 < k)
    (hle : n + k ≤ largest) : successors v k = .ofNumber (n + k) "" := by
  induction k with
  | zero => exact absurd hpos (Nat.lt_irrefl 0)
  | succ k ih =>
    have hlt : n + k < largest := by omega
    have hnumber : (successors v k).uint32 = some (n + k) := by
      cases k with
      | zero => simpa [successors] using h
      | succ k => rw [ih (Nat.succ_pos k) (Int.le_of_lt hlt)]; rfl
    rw [successors, successor, hnumber]
    dsimp only
    rw [if_pos hlt, Int.add_assoc]
    rfl

/-- Behind a value without a number that can be counted up, the text grows. -/
theorem successors_of_stuck {v : Value} (h : ∀ n, v.uint32 = some n → largest ≤ n) {k : Nat}
    (hpos : 0 < k) : successors v k = .ofRaw (nested v.raw k) := by
  have hstuck {w : Value} (hw : ∀ n, w.uint32 = some n → largest ≤ n) :
      successor w = .ofRaw ("(" ++ w.raw ++ ") + 1") := by
    unfold successor
    cases hnumber : w.uint32 with
    | none => rfl
    | some n => exact if_neg (Int.not_lt.mpr (hw n hnumber))
  induction k with
  | zero => exact absurd hpos (Nat.lt_irrefl 0)
  | succ k ih =>
    cases k with
    | zero => exact hstuck h
    | succ k =>
      have hnone : ∀ n, (Value.ofRaw (nested v.raw (k + 1))).uint32 = some n → largest ≤ n := by
        rintro n ⟨⟩
      rw [successors, ih (Nat.succ_pos k), hstuck hnone]
      rfl

/-- Values that come after values. -/
theorem successors_add (v : Value) (k m : Nat) :
    successors v (k + m) = successors (successors v k) m := by
  induction m with
  | zero => rfl
  | succ m ih => rw [← Nat.add_assoc, successors, ih, successors]

/-- The `k` constants after place `i` have no expressions. -/
def IsRun (constants : List BodyConstant) (i k : Nat) : Prop :=
  ∀ j, i < j → j ≤ i + k → ∃ ident, constants[j]? = some ⟨ident, none⟩

/-- How constants without expressions are valued that follow each other: the list counts up after a
number, and adds up as a text after the largest number and after what has no number. -/
structure CountsUp (constants : List BodyConstant) (list : List Enumerator) : Prop where
  /-- Up to the largest number, the number grows. -/
  below : ∀ i k e n, list[i]? = some e → IsRun constants i k → e.value.uint32 = some n → 0 < k →
    n + k ≤ largest → (list[i + k]?).map Enumerator.value = some (.ofNumber (n + k) "")
  /-- Behind the largest number, once it has been reached, the text grows. -/
  beyond : ∀ i k m e n, list[i]? = some e → IsRun constants i (k + m) → e.value.uint32 = some n →
    0 < k → 0 < m → n + k = largest →
    (list[i + (k + m)]?).map Enumerator.value = some (.ofRaw (nested (toString largest) m))
  /-- Behind a constant without a number, or with the largest one, the text grows. -/
  stuck : ∀ i k e, list[i]? = some e → IsRun constants i k → 0 < k →
    (∀ n, e.value.uint32 = some n → largest ≤ n) →
    (list[i + k]?).map Enumerator.value = some (.ofRaw (nested e.value.raw k))

/-- In a run each value is the successor of the one before it. -/
theorem IsValuation.value_run {table : SymbolTable} {previous : Option Value}
    {constants : List BodyConstant} {list : List Enumerator}
    (h : IsValuation table previous constants list) {i k : Nat} {e : Enumerator}
    (he : list[i]? = some e) (hrun : IsRun constants i k) :
    (list[i + k]?).map Enumerator.value = some (successors e.value k) := by
  induction k with
  | zero =>
    rw [Nat.add_zero, he]
    rfl
  | succ k ih =>
    have hbefore := ih fun j hj hle => hrun j hj (Nat.le_succ_of_le hle)
    obtain ⟨ident, hident⟩ := hrun (i + (k + 1)) (by omega) (Nat.le_refl _)
    obtain ⟨f, hf, hvalue⟩ := Option.map_eq_some_iff.mp hbefore
    have hlast : (list.take (i + (k + 1))).getLast? = some f := by
      rw [← Nat.add_assoc, List.take_add_one, hf]
      exact List.getLast?_concat
    rw [h.value _ _ hident, hlast, successors, ← hvalue]
    rfl

/-- **Counting.**  The constants of a body without expressions count up. -/
theorem countsUp_valued (table : SymbolTable) (previous : Option Value)
    (constants : List BodyConstant) :
    CountsUp constants (valued table previous constants) := by
  have hvaluation := isValuation_valued table previous constants
  constructor
  · intro i k e n he hrun hn hpos hle
    rw [hvaluation.value_run he hrun, successors_of_le hn hpos hle]
  · intro i k m e n he hrun hn hk hm hlargest
    have hreached : successors e.value k = .ofNumber largest "" := by
      rw [← hlargest]
      exact successors_of_le hn hk (Int.le_of_eq hlargest)
    have hstuck : ∀ n, (Value.ofNumber largest "").uint32 = some n → largest ≤ n := by
      rintro n ⟨⟩
      exact Int.le_refl _
    rw [hvaluation.value_run he hrun, successors_add, hreached, successors_of_stuck hstuck hm]
    rfl
  · intro i k e he hrun hpos hstuck
    rw [hvaluation.value_run he hrun, successors_of_stuck hstuck hpos]

end SdkBindings.Grammar
