import SdkBindings.Proofs.Formula.Reading

/-!
# Formulas

A formula is a constant expression of numbers, signs, operators on bits, comparisons and groups, which
are written alike in a header and in the generated language.  As an expression of the generated
language it has a value on integers of any size (`Formula.integer?`).  Where the levels of that
language give back the formula, its symbols are read to this value (`Formula.valueFrom_symbols`): one
case of the induction for each kind of node, with any symbols behind it that leave it alone.
-/

namespace SdkBindings

open Generated

/-- A constant expression that both languages have. -/
inductive Formula where
  /-- A number under a chain of signs, the outermost first. -/
  | number (signs : List Sign) (n : Nat)
  /-- A group between parentheses, with at most one sign in front. -/
  | group (sign : Option Sign) (body : Formula)
  /-- An operator between two formulas. -/
  | word (op : WordOp) (left right : Formula)
  /-- A comparison between two formulas. -/
  | comparison (c : EqOp) (left right : Formula)
  deriving DecidableEq, Repr

namespace Formula

/-- The effect of a chain of signs, the last of which applies first. -/
def signed (signs : List Sign) (x : Int) : Int :=
  signs.foldr sign x

/-- The value on integers of any size. -/
def integer? : Formula → Option Int
  | number signs n => some (signed signs n)
  | group sign body => body.integer?.map (signed sign.toList)
  | word op left right =>
    left.integer?.bind fun x => right.integer?.bind fun y => effect? op x y
  | comparison c left right =>
    left.integer?.bind fun x => right.integer?.map fun y => truth (holds c x y)

/-- The symbols of a formula. -/
def symbols : Formula → List Symbol
  | number signs n => signs.map .sign ++ [.number n]
  | group sign body => sign.toList.map .sign ++ .opening :: (body.symbols ++ [.closing])
  | word op left right => left.symbols ++ .operator op :: right.symbols
  | comparison c left right => left.symbols ++ .comparison c :: right.symbols

/-- The level of the outermost operator that no group encloses; zero if there is none. -/
def level : Formula → Nat
  | number _ _ => 0
  | group _ _ => 0
  | word op _ _ => Generated.level op
  | comparison _ _ _ => comparisonLevel

/-- The levels of the generated language give back the formula: an operator has operators of at most
its own level on its left and tighter ones on its right, and no comparison has another one beside
it. -/
def IsLayered : Formula → Prop
  | number _ _ => True
  | group _ body => body.IsLayered
  | word op left right =>
    left.IsLayered ∧ right.IsLayered ∧ left.level ≤ Generated.level op ∧
      right.level < Generated.level op
  | comparison _ left right =>
    left.IsLayered ∧ right.IsLayered ∧ left.level < comparisonLevel ∧ right.level < comparisonLevel

/-- Whether the levels fit can be computed. -/
instance decidableIsLayered : (f : Formula) → Decidable f.IsLayered
  | number _ _ => inferInstanceAs (Decidable True)
  | group _ body => decidableIsLayered body
  | word op left right =>
    have := decidableIsLayered left
    have := decidableIsLayered right
    inferInstanceAs (Decidable (left.IsLayered ∧ right.IsLayered ∧
      left.level ≤ Generated.level op ∧ right.level < Generated.level op))
  | comparison _ left right =>
    have := decidableIsLayered left
    have := decidableIsLayered right
    inferInstanceAs (Decidable (left.IsLayered ∧ right.IsLayered ∧
      left.level < comparisonLevel ∧ right.level < comparisonLevel))

/-! ## Reading symbols -/

/-- What waits is not applied by the operators of a formula of a level. -/
def Shields (bound : Nat) : List Waiting → Prop
  | [] => True
  | .group :: _ => True
  | .sign _ :: _ => False
  | .left _ op :: _ => bound < Generated.level op
  | .chain _ _ _ :: _ => bound < comparisonLevel

/-- The symbols leave a formula of a level in front of them alone. -/
def Ends (bound : Nat) : List Symbol → Prop
  | [] => True
  | .closing :: _ => True
  | .operator op :: _ => bound ≤ Generated.level op
  | .comparison _ :: _ => bound < comparisonLevel
  | _ => False

section

variable {bound : Nat} {stack : List Waiting} {rest : List Symbol}

/-- Where the stack shields, no operator up to the level takes anything from it. -/
theorem Shields.settle (h : Shields bound stack) {k : Nat} (hk : k ≤ bound) (x : Int) :
    Generated.settle k x stack = some (x, stack) := by
  match stack, h with
  | [], _ => rfl
  | .group :: _, _ => rfl
  | .left w op :: below, h =>
    have hlevel : ¬ Generated.level op ≤ k := by
      have : bound < Generated.level op := h
      omega
    rw [Generated.settle, if_neg hlevel]
  | .chain _ _ _ :: _, _ => rfl

/-- What shields from a level shields from lower ones. -/
theorem Shields.mono (h : Shields bound stack) {k : Nat} (hk : k ≤ bound) : Shields k stack := by
  match stack, h with
  | [], _ => trivial
  | .group :: _, _ => trivial
  | .left _ _ :: _, h => exact Nat.lt_of_le_of_lt hk h
  | .chain _ _ _ :: _, h => exact Nat.lt_of_le_of_lt hk h

/-- What leaves a formula of a level alone leaves one of a lower level alone. -/
theorem Ends.mono (h : Ends bound rest) {k : Nat} (hk : k < bound) : Ends k rest := by
  match rest, h with
  | [], _ => trivial
  | .closing :: _, _ => trivial
  | .operator _ :: _, h => exact Nat.le_trans (Nat.le_of_lt hk) h
  | .comparison _ :: _, h => exact Nat.lt_trans hk h

/-- A sign that waits applies to the number that is read next. -/
theorem valueFrom_sign (s : Sign) (x : Int) (stack : List Waiting) (rest : List Symbol) :
    valueFrom (some x) (.sign s :: stack) rest = valueFrom (some (sign s x)) stack rest := by
  match rest with
  | [] => rfl
  | .number _ :: _ => rfl
  | .sign _ :: _ => rfl
  | .operator _ :: _ => rfl
  | .comparison _ :: _ => rfl
  | .opening :: _ => rfl
  | .closing :: _ => rfl

/-- Signs that wait apply, the latest first. -/
theorem valueFrom_signs (signs : List Sign) (x : Int) (stack : List Waiting) (rest : List Symbol) :
    valueFrom (some x) (signs.reverse.map .sign ++ stack) rest =
      valueFrom (some (signed signs x)) stack rest := by
  induction signs generalizing stack with
  | nil => rfl
  | cons s signs ih =>
    rw [List.reverse_cons, List.map_append, List.append_assoc, ih]
    exact valueFrom_sign s _ stack rest

/-- Signs in front of an operand wait for it. -/
theorem valueFrom_map_sign (signs : List Sign) (stack : List Waiting) (rest : List Symbol) :
    valueFrom none stack (signs.map .sign ++ rest) =
      valueFrom none (signs.reverse.map .sign ++ stack) rest := by
  induction signs generalizing stack with
  | nil => rfl
  | cons s signs ih =>
    rw [List.reverse_cons, List.map_append, List.append_assoc]
    exact ih (.sign s :: stack)

/-- Disjunctions are the loosest of the operators on bits. -/
theorem level_le (op : WordOp) : Generated.level op ≤ Generated.level .bitOr := by
  cases op <;> decide

/-- Comparisons are looser than every operator on bits. -/
theorem level_lt (op : WordOp) : Generated.level op < comparisonLevel :=
  Nat.lt_succ_of_le (level_le op)

/-- An operator that waits applies to the number that is read next, if what follows leaves it alone. -/
theorem valueFrom_left {op : WordOp} (hrest : Ends (Generated.level op) rest) (w x : Int)
    (stack : List Waiting) :
    valueFrom (some x) (.left w op :: stack) rest =
      (effect? op w x).bind fun y => valueFrom (some y) stack rest := by
  have hsettle {k : Nat} (hk : Generated.level op ≤ k) :
      settle k x (.left w op :: stack) = (effect? op w x).bind fun y => settle k y stack := by
    rw [settle, if_pos hk]
  have hall := hsettle (level_le op)
  match rest, hrest with
  | [], _ =>
    rw [valueFrom, settleAll, hall]
    cases effect? op w x <;> rfl
  | .closing :: _, _ =>
    rw [valueFrom, settleAll, hall]
    cases effect? op w x <;> rfl
  | .operator next :: _, hnext =>
    rw [valueFrom, hsettle hnext]
    cases effect? op w x <;> rfl
  | .comparison _ :: _, _ =>
    rw [valueFrom, hall]
    cases effect? op w x <;> rfl

/-- Where no chain of comparisons waits, a comparison starts one. -/
theorem compareNext_eq (h : Shields comparisonLevel stack) (c : EqOp) (x : Int) :
    compareNext x c stack = .chain true x c :: stack := by
  match stack, h with
  | [], _ => rfl
  | .group :: _, _ => rfl
  | .left _ _ :: _, _ => rfl
  | .chain _ _ _ :: _, h => exact absurd h (Nat.lt_irrefl _)

/-- A comparison that waits applies at the end of the group. -/
theorem valueFrom_chain (hstack : Shields comparisonLevel stack) (hrest : Ends comparisonLevel rest)
    (c : EqOp) (w x : Int) :
    valueFrom (some x) (.chain true w c :: stack) rest =
      valueFrom (some (truth (holds c w x))) stack rest := by
  have hplain (y : Int) : settleAll y stack = some (y, stack) := by
    rw [settleAll, hstack.settle (by decide)]
    match stack, hstack with
    | [], _ => rfl
    | .group :: _, _ => rfl
    | .left _ op :: _, h => exact absurd (level_lt op) (Nat.lt_asymm h)
    | .chain _ _ _ :: _, h => exact absurd h (Nat.lt_irrefl _)
  have hchain : settleAll x (.chain true w c :: stack) = some (truth (holds c w x), stack) := rfl
  match rest, hrest with
  | [], _ => rw [valueFrom, valueFrom, hplain, hchain]
  | .closing :: _, _ => rw [valueFrom, valueFrom, hplain, hchain]
  | .operator op :: _, h => exact absurd (level_lt op) (Nat.not_lt.mpr h)
  | .comparison _ :: _, h => exact absurd h (Nat.lt_irrefl _)

end

/-- **Reading a formula.**  Where an operand is expected and the levels of the generated language give
back the formula, its symbols are read to its value, as one step. -/
theorem valueFrom_symbols {f : Formula} (hf : f.IsLayered) {stack : List Waiting}
    (hstack : Shields f.level stack) {rest : List Symbol} (hrest : Ends f.level rest) :
    valueFrom none stack (f.symbols ++ rest) =
      f.integer?.bind fun x => valueFrom (some x) stack rest := by
  induction f generalizing stack rest with
  | number signs n =>
    rw [symbols, List.append_assoc, valueFrom_map_sign]
    exact valueFrom_signs signs n stack rest
  | group sign body ih =>
    have hsymbols : (group sign body).symbols ++ rest =
        sign.toList.map .sign ++ .opening :: (body.symbols ++ .closing :: rest) := by
      simp [symbols]
    have hshields : Shields body.level (.group :: (sign.toList.reverse.map .sign ++ stack)) := trivial
    have hends : Ends body.level (.closing :: rest) := trivial
    have hbody := ih hf hshields hends
    rw [hsymbols, valueFrom_map_sign, valueFrom, hbody, integer?]
    cases body.integer? with
    | none => rfl
    | some x => exact valueFrom_signs sign.toList x stack rest
  | word op left right ihl ihr =>
    obtain ⟨hleft, hright, hle, hlt⟩ := hf
    change Shields (Generated.level op) stack at hstack
    change Ends (Generated.level op) rest at hrest
    have hsymbols : (word op left right).symbols ++ rest =
        left.symbols ++ .operator op :: (right.symbols ++ rest) := by
      simp [symbols]
    have hends : Ends left.level (.operator op :: (right.symbols ++ rest)) := hle
    rw [hsymbols, ihl hleft (hstack.mono hle) hends, integer?]
    cases left.integer? with
    | none => rfl
    | some x =>
      have hwait : valueFrom (some x) stack (.operator op :: (right.symbols ++ rest)) =
          valueFrom none (.left x op :: stack) (right.symbols ++ rest) := by
        rw [valueFrom, hstack.settle (Nat.le_refl _)]
        rfl
      show valueFrom (some x) stack _ = _
      have hshields : Shields right.level (.left x op :: stack) := hlt
      rw [hwait, ihr hright hshields (hrest.mono hlt)]
      cases right.integer? with
      | none => rfl
      | some y => exact valueFrom_left hrest x y stack
  | comparison c left right ihl ihr =>
    obtain ⟨hleft, hright, hle, hlt⟩ := hf
    change Shields comparisonLevel stack at hstack
    change Ends comparisonLevel rest at hrest
    have hsymbols : (comparison c left right).symbols ++ rest =
        left.symbols ++ .comparison c :: (right.symbols ++ rest) := by
      simp [symbols]
    have hends : Ends left.level (.comparison c :: (right.symbols ++ rest)) := hle
    rw [hsymbols, ihl hleft (hstack.mono (Nat.le_of_lt hle)) hends, integer?]
    cases left.integer? with
    | none => rfl
    | some x =>
      have hwait : valueFrom (some x) stack (.comparison c :: (right.symbols ++ rest)) =
          valueFrom none (.chain true x c :: stack) (right.symbols ++ rest) := by
        rw [valueFrom, hstack.settle (by decide), ← compareNext_eq hstack]
        rfl
      show valueFrom (some x) stack _ = _
      have hshields : Shields right.level (.chain true x c :: stack) := hlt
      rw [hwait, ihr hright hshields (hrest.mono hlt)]
      cases right.integer? with
      | none => rfl
      | some y => exact valueFrom_chain hstack hrest c x y

end Formula

end SdkBindings
