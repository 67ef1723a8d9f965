import SdkBindings.Constant.Evaluation
import SdkBindings.Proofs.Outcome

/-!
# Heights of the value stack

How many numbers lie on the stack while a postfix form runs, without the numbers themselves.

* **Heights** (`heightAfter`): the height of the stack after some entries, if every entry finds the
  operands it needs.  A form that leaves exactly one number fails only in an operand or an operator
  (`arises_of_heightAfter`), never because it does not fit the stack.  Any other form fails, and if
  no operand and no operator does so first, then always with the same misfit (`exists_misfit`).
* **Balances** (`balance`): what the entries add to the height.  It is defined for every form, so it
  can be kept in step with a pass that does not know yet whether its output will run.
-/

namespace SdkBindings.Constant

/-! ## Heights -/

/-- The height of the stack after an entry, if it finds the operands it needs. -/
def Item.heightAfter : Item → Nat → Option Nat
  | .operand _, n => some (n + 1)
  | .unary _, n + 1 => some (n + 1)
  | .binary text, n + 2 => if (BinaryOp.ofText? text).isSome then some (n + 1) else none
  | _, _ => none

/-- The height of the stack after some entries, if each finds the operands it needs. -/
def heightAfter : List Item → Nat → Option Nat
  | [], n => some n
  | item :: items, n => (item.heightAfter n).bind (heightAfter items)

@[simp] theorem heightAfter_append (xs ys : List Item) (n : Nat) :
    heightAfter (xs ++ ys) n = (heightAfter xs n).bind (heightAfter ys) := by
  induction xs generalizing n with
  | nil => rfl
  | cons item xs ih =>
    simp only [List.cons_append, heightAfter, Option.bind_assoc]
    congr 1
    funext m
    exact ih m

/-- An entry that runs has the height of the stack it leaves. -/
theorem Item.heightAfter_of_step {symbols : SymbolTable} {item : Item} {stack stack' : List Number}
    (h : item.step symbols stack = .ok stack') : item.heightAfter stack.length = some stack'.length := by
  unfold Item.step at h
  split at h
  · obtain ⟨x, -, hx⟩ := bind_eq_ok h
    cases hx
    rfl
  · obtain ⟨y, -, hy⟩ := bind_eq_ok h
    cases hy
    rfl
  · cases h
  · split at h
    · rename_i op hop
      obtain ⟨z, -, hz⟩ := bind_eq_ok h
      cases hz
      simp [Item.heightAfter, hop]
    · cases h
  · cases h

/-- A postfix form that runs has the height of the stack it leaves. -/
theorem heightAfter_of_run {symbols : SymbolTable} {items : List Item} {stack stack' : List Number}
    (h : run symbols items stack = .ok stack') : heightAfter items stack.length = some stack'.length := by
  induction items generalizing stack with
  | nil =>
    cases h
    rfl
  | cons item items ih =>
    obtain ⟨between, hstep, hrun⟩ := bind_eq_ok h
    rw [heightAfter, Item.heightAfter_of_step hstep]
    exact ih hrun

/-! ## Errors -/

/-- The error says that a postfix form does not fit the stack. -/
def Error.IsMisfit : Error → Prop
  | .unaryWithoutOperand _ | .binaryWithoutOperands _ | .unhandledOperator _ | .stackSize _ => True
  | _ => False

/-- A computation that fails does so for another reason than a misfit. -/
def Fits {α : Type} (m : Except Error α) : Prop :=
  ∀ e, m = .error e → ¬ e.IsMisfit

theorem fits_ok {α : Type} (a : α) : Fits (.ok a : Except Error α) := by
  intro e h
  cases h

theorem fits_error {α : Type} {e : Error} (he : ¬ e.IsMisfit) : Fits (.error e : Except Error α) := by
  intro e' h
  cases h
  exact he

theorem Fits.bind {α β : Type} {m : Except Error α} {k : α → Except Error β} (hm : Fits m)
    (hk : ∀ a, Fits (k a)) : Fits (m >>= k) := by
  intro e h
  obtain h | ⟨a, -, h⟩ := bind_eq_error h
  · exact hm e h
  · exact hk a e h

theorem Fits.map {α β : Type} {m : Except Error α} (hm : Fits m) (f : α → β) : Fits (m.map f) := by
  intro e h
  cases m with
  | error e' =>
    cases h
    exact hm e rfl
  | ok a => cases h

theorem fits_conversion {α : Type} (m : Except Number.Failure α) :
    Fits (m.mapError Error.conversion) := by
  intro e h
  cases m with
  | error cause =>
    cases h
    exact id
  | ok a => cases h

theorem fits_escape (c : Char) (rest : List Char) : Fits (escape c rest) := by
  have hcodePoint (n : Nat) : Fits (codePoint n) := by
    unfold codePoint
    split
    · exact fits_ok _
    · split <;> exact fits_error id
  unfold escape
  dsimp only
  split
  · split
    · exact fits_error id
    · exact (hcodePoint _).map _
  split
  · exact (hcodePoint _).map _
  split
  · exact fits_ok _
  · exact fits_error id

theorem fits_decodeEscapes (body : List Char) : Fits (decodeEscapes body) := by
  fun_induction decodeEscapes body with
  | case1 => exact fits_ok _
  | case2 => exact fits_ok _
  | case3 d rest ih => exact (fits_escape d rest).bind fun r => (ih r.2).bind fun _ => fits_ok _
  | case4 c rest _ ih => exact ih.bind fun _ => fits_ok _

theorem not_isMisfit_ofDecimalInteger (text : String) : ¬ (Error.ofDecimalInteger text).IsMisfit := by
  unfold Error.ofDecimalInteger
  dsimp only
  split <;> exact id

theorem fits_bareOperand (symbols : SymbolTable) (body : List Char) :
    Fits (bareOperand symbols body) := by
  unfold bareOperand
  dsimp only
  split
  · refine Fits.map ?_ _
    unfold hexLiteral
    dsimp only
    split
    · split
      · exact fits_error id
      · split
        · exact fits_ok _
        · exact fits_error id
    · exact fits_error id
  split
  · split
    · exact fits_ok _
    · exact fits_error (not_isMisfit_ofDecimalInteger _)
  split
  · split
    · exact fits_ok _
    · exact fits_error id
  split
  · refine Fits.map ((fits_decodeEscapes _).bind fun inner => ?_) _
    split
    · exact fits_ok _
    · exact fits_error id
  · refine Fits.map ?_ _
    unfold lookup
    split
    · exact fits_ok _
    · exact fits_error id

theorem fits_unary (op : UnaryOp) (x : Number) : Fits (op.apply x) := by
  cases op with
  | complement => exact fits_conversion _
  | _ => exact fits_ok _

theorem fits_binary (op : BinaryOp) (x y : Number) : Fits (op.apply x y) := by
  cases op with
  | div =>
    unfold BinaryOp.apply
    dsimp only
    split
    · exact fits_conversion _
    · exact fits_error id
  | add | sub | mul | shiftLeft | shiftRight | bitOr | bitAnd | bitXor => exact fits_conversion _
  | _ => exact fits_ok _

theorem fits_operandValue (symbols : SymbolTable) (text : String) :
    Fits (operandValue symbols text) := by
  have hsigns (signs : List UnaryOp) (x : Number) : Fits (applyUnary signs x) := by
    induction signs with
    | nil => exact fits_ok x
    | cons op signs ih => exact ih.bind (fits_unary op)
  exact (fits_bareOperand symbols _).bind (hsigns _)

/-- The error is that of an operand among the entries or of an operator. -/
def Arises (symbols : SymbolTable) (items : List Item) (e : Error) : Prop :=
  (∃ text, Item.operand text ∈ items ∧ operandValue symbols text = .error e) ∨
    (∃ (op : UnaryOp) (x : Number), op.apply x = .error e) ∨
    ∃ (op : BinaryOp) (x y : Number), op.apply x y = .error e

/-- No operand and no operator misfits the stack. -/
theorem Arises.not_isMisfit {symbols : SymbolTable} {items : List Item} {e : Error}
    (h : Arises symbols items e) : ¬ e.IsMisfit := by
  rcases h with ⟨text, -, h⟩ | ⟨op, x, h⟩ | ⟨op, x, y, h⟩
  · exact fits_operandValue symbols text e h
  · exact fits_unary op x e h
  · exact fits_binary op x y e h

/-- An entry that finds its operands fails only in its operand or operator. -/
theorem Item.arises_of_step {symbols : SymbolTable} {item : Item} {stack : List Number} {m : Nat}
    (hheight : item.heightAfter stack.length = some m) {e : Error}
    (h : item.step symbols stack = .error e) : Arises symbols [item] e := by
  cases item with
  | operand text =>
    exact .inl ⟨text, List.mem_singleton_self _, eq_error_of_bind_pure h⟩
  | unary text =>
    obtain ⟨x, rest, rfl⟩ : ∃ x rest, stack = x :: rest := by
      cases stack with
      | nil => cases hheight
      | cons x rest => exact ⟨x, rest, rfl⟩
    exact .inr (.inl ⟨.ofText text, x, eq_error_of_bind_pure h⟩)
  | binary text =>
    obtain ⟨y, x, rest, rfl⟩ : ∃ y x rest, stack = y :: x :: rest := by
      match stack, hheight with
      | y :: x :: rest, _ => exact ⟨y, x, rest, rfl⟩
    cases hop : BinaryOp.ofText? text with
    | none => simp [Item.heightAfter, hop] at hheight
    | some op =>
      simp only [Item.step, hop] at h
      exact .inr (.inr ⟨op, x, y, eq_error_of_bind_pure h⟩)

/-- Errors that arise from some of the entries arise from all of them. -/
theorem Arises.mono {symbols : SymbolTable} {items more : List Item} {e : Error}
    (h : Arises symbols items e) (hsub : items ⊆ more) : Arises symbols more e := by
  rcases h with ⟨text, hmem, hvalue⟩ | h
  · exact .inl ⟨text, hsub hmem, hvalue⟩
  · exact .inr h

/-- Entries that find their operands fail only in an operand or an operator. -/
theorem arises_of_run {symbols : SymbolTable} {items : List Item} {stack : List Number} {m : Nat}
    (hheight : heightAfter items stack.length = some m) {e : Error}
    (h : run symbols items stack = .error e) : Arises symbols items e := by
  induction items generalizing stack with
  | nil => cases h
  | cons item items ih =>
    rw [heightAfter, Option.bind_eq_some_iff] at hheight
    obtain ⟨n, hitem, hitems⟩ := hheight
    obtain hstep | ⟨between, hstep, hrun⟩ := bind_eq_error h
    · exact (Item.arises_of_step hitem hstep).mono (by simp)
    · have hn : between.length = n :=
        Option.some.inj ((Item.heightAfter_of_step hstep).symm.trans hitem)
      rw [← hn] at hitems
      exact (ih hitems hrun).mono (List.subset_cons_self item items)

/-- **Forms that leave one number.**  Their evaluation fails only in an operand or an operator. -/
theorem arises_of_heightAfter {symbols : SymbolTable} {items : List Item}
    (hheight : heightAfter items 0 = some 1) {e : Error}
    (h : evaluatePostfix symbols items = .error e) : Arises symbols items e := by
  obtain hrun | ⟨stack, hrun, hstack⟩ := bind_eq_error h
  · exact arises_of_run hheight hrun
  · have hone : stack.length = 1 :=
      Option.some.inj ((heightAfter_of_run hrun).symm.trans hheight)
    obtain ⟨x, rfl⟩ := List.length_eq_one_iff.mp hone
    cases hstack

/-- A postfix form with a value leaves one number. -/
theorem heightAfter_of_evaluatePostfix {symbols : SymbolTable} {items : List Item} {x : Number}
    (h : evaluatePostfix symbols items = .ok x) : heightAfter items 0 = some 1 := by
  obtain ⟨stack, hrun, hstack⟩ := bind_eq_ok h
  have hlength : stack.length = 1 := by
    split at hstack
    · rfl
    · cases hstack
  rw [← hlength]
  exact heightAfter_of_run hrun

/-! ## Misfits -/

/-- A misfit stops the run. -/
theorem Error.IsMisfit.class_eq {e : Error} (h : e.IsMisfit) : e.class = .malformed := by
  cases e <;> first | rfl | exact h.elim

/-- An entry that does not find its operands fails alike on every stack of that height. -/
theorem Item.exists_misfit {item : Item} {n : Nat} (h : item.heightAfter n = none) :
    ∃ e : Error, e.IsMisfit ∧ ∀ (symbols : SymbolTable) (stack : List Number), stack.length = n →
      item.step symbols stack = .error e := by
  cases item with
  | operand text => cases h
  | unary text =>
    obtain rfl : n = 0 := by
      cases n with
      | zero => rfl
      | succ n => cases h
    refine ⟨.unaryWithoutOperand text, trivial, fun symbols stack hstack => ?_⟩
    rw [List.length_eq_zero_iff.mp hstack]
    rfl
  | binary text =>
    by_cases hn : n < 2
    · refine ⟨.binaryWithoutOperands text, trivial, fun symbols stack hstack => ?_⟩
      match stack, hstack with
      | [], _ => rfl
      | [_], _ => rfl
      | _ :: _ :: _, hlength =>
        simp only [List.length_cons] at hlength
        omega
    · obtain ⟨m, rfl⟩ : ∃ m, n = m + 2 := ⟨n - 2, by omega⟩
      have hop : BinaryOp.ofText? text = none := by
        cases hop : BinaryOp.ofText? text with
        | none => rfl
        | some op => simp [Item.heightAfter, hop] at h
      refine ⟨.unhandledOperator text, trivial, fun symbols stack hstack => ?_⟩
      match stack, hstack with
      | _ :: _ :: _, _ => simp only [Item.step, hop]

/-- Entries one of which does not find its operands fail alike on every stack of that height, unless
an operand or an operator fails first. -/
theorem exists_misfit_of_run {items : List Item} {n : Nat} (h : heightAfter items n = none) :
    ∃ e : Error, e.IsMisfit ∧ ∀ (symbols : SymbolTable) (stack : List Number), stack.length = n →
      ∃ e', run symbols items stack = .error e' ∧ (e' = e ∨ Arises symbols items e') := by
  induction items generalizing n with
  | nil => cases h
  | cons item items ih =>
    cases hitem : item.heightAfter n with
    | none =>
      obtain ⟨e, hmisfit, hstep⟩ := Item.exists_misfit hitem
      refine ⟨e, hmisfit, fun symbols stack hstack => ⟨e, ?_, .inl rfl⟩⟩
      rw [run, hstep symbols stack hstack]
      rfl
    | some m =>
      rw [heightAfter, hitem] at h
      obtain ⟨e, hmisfit, hrun⟩ := ih h
      refine ⟨e, hmisfit, fun symbols stack hstack => ?_⟩
      rw [← hstack] at hitem
      cases hstep : item.step symbols stack with
      | error e' =>
        have harises : Arises symbols (item :: items) e' :=
          (Item.arises_of_step hitem hstep).mono (by simp)
        refine ⟨e', ?_, .inr harises⟩
        rw [run, hstep]
        rfl
      | ok between =>
        have hbetween : between.length = m :=
          Option.some.inj ((Item.heightAfter_of_step hstep).symm.trans hitem)
        obtain ⟨e', herror, hcause⟩ := hrun symbols between hbetween
        refine ⟨e', ?_, hcause.imp_right fun harises => ?_⟩
        · rw [run, hstep]
          exact herror
        · exact harises.mono (List.subset_cons_self item items)

/-- **Forms that do not leave one number.**  Their evaluation fails with one misfit, whatever the
constants are, unless an operand or an operator fails first. -/
theorem exists_misfit {items : List Item} (h : heightAfter items 0 ≠ some 1) :
    ∃ e : Error, e.IsMisfit ∧ ∀ symbols, ∃ e', evaluatePostfix symbols items = .error e' ∧
      (e' = e ∨ Arises symbols items e') := by
  cases hheight : heightAfter items 0 with
  | none =>
    obtain ⟨e, hmisfit, hrun⟩ := exists_misfit_of_run hheight
    refine ⟨e, hmisfit, fun symbols => ?_⟩
    obtain ⟨e', herror, hcause⟩ := hrun symbols [] rfl
    refine ⟨e', ?_, hcause⟩
    rw [evaluatePostfix, herror]
    rfl
  | some m =>
    refine ⟨.stackSize m, trivial, fun symbols => ?_⟩
    cases hrun : run symbols items [] with
    | error e' =>
      have hstart : heightAfter items ([] : List Number).length = some m := hheight
      refine ⟨e', ?_, .inr (arises_of_run hstart hrun)⟩
      rw [evaluatePostfix, hrun]
      rfl
    | ok stack =>
      have hlength : stack.length = m :=
        Option.some.inj ((heightAfter_of_run hrun).symm.trans hheight)
      refine ⟨.stackSize m, ?_, .inl rfl⟩
      rw [evaluatePostfix, hrun]
      match stack, hlength with
      | [], hzero =>
        rw [← hzero]
        rfl
      | [_], hone => exact absurd (hheight.trans (congrArg some hone.symm)) h
      | _ :: _ :: _, hmany =>
        rw [← hmany]
        rfl

/-! ## Balances -/

/-- What an entry adds to the height of the stack. -/
def Item.balance : Item → Int
  | .operand _ => 1
  | .unary _ => 0
  | .binary _ => -1

/-- What some entries add to the height of the stack. -/
def balance : List Item → Int
  | [] => 0
  | item :: items => item.balance + balance items

@[simp] theorem balance_nil : balance [] = 0 := rfl

@[simp] theorem balance_cons (item : Item) (items : List Item) :
    balance (item :: items) = item.balance + balance items := rfl

@[simp] theorem balance_append (xs ys : List Item) : balance (xs ++ ys) = balance xs + balance ys := by
  induction xs with
  | nil => simp
  | cons x xs ih => simp [ih, Int.add_assoc]

/-- A height is what there was before and the balance. -/
theorem balance_of_heightAfter {items : List Item} {n m : Nat} (h : heightAfter items n = some m) :
    (m : Int) = n + balance items := by
  induction items generalizing n with
  | nil =>
    cases h
    simp
  | cons item items ih =>
    rw [heightAfter, Option.bind_eq_some_iff] at h
    obtain ⟨k, hitem, hitems⟩ := h
    have hk : (k : Int) = n + item.balance := by
      unfold Item.heightAfter at hitem
      split at hitem
      · cases hitem
        simp [Item.balance]
      · cases hitem
        simp [Item.balance]
      · split at hitem
        · cases hitem
          simp only [Item.balance]
          omega
        · cases hitem
      · cases hitem
    have := ih hitems
    rw [balance_cons]
    omega

end SdkBindings.Constant
