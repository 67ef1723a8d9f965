import SdkBindings.Constant.Evaluation

/-!
# The operands of an expression

Every operand of a postfix form is a token of the expression with unary operators in front of it, and
nothing else in the form depends on what the tokens say.  So a property of entries that operators
have anyway holds of the whole form if it holds of the signed tokens (`toPostfix_entries`).  Where
there is no form, the expression is of a kind that is left alone.

What running the form may ask the known constants for is the name that each operand asks for, if it
is no literal (`askedName?`).  Two tables that agree on these names give the same number
(`evaluatePostfix_congr`).
-/

namespace SdkBindings

/-- The token may stand for an operand. -/
def Token.IsOperandKind (t : Token) : Prop :=
  t.kind = .number ∨ t.kind = .ident ∨ t.kind = .char

namespace Constant

open Postfix Text

/-- An operand with unary operators in front of it, the outermost first. -/
def signed (signs : List UnaryOp) (text : String) : String :=
  String.ofList (signs.map UnaryOp.char) ++ text

/-! ## Where the entries of a postfix form come from -/

/-- The property holds of every entry that the operands of the tokens and the operators give. -/
structure HoldsOfEntries (p : Item → Prop) (tokens : List Token) : Prop where
  /-- It holds of the tokens that are operands, with any signs. -/
  operand : ∀ t ∈ tokens, t.IsOperandKind → ∀ signs, p (.operand (signed signs t.text))
  /-- It holds of every unary operator. -/
  unary : ∀ text, p (.unary text)
  /-- It holds of every binary operator. -/
  binary : ∀ text, p (.binary text)

/-- Of fewer tokens the property holds as well. -/
theorem HoldsOfEntries.mono {p : Item → Prop} {ts us : List Token} (h : HoldsOfEntries p ts)
    (hsub : us ⊆ ts) : HoldsOfEntries p us :=
  ⟨fun t ht => h.operand t (hsub ht), h.unary, h.binary⟩

/-- The property holds of the entries written so far, or the expression is left alone. -/
def Writes (p : Item → Prop) (m : Except Error State) : Prop :=
  match m with
  | .ok s => ∀ item ∈ s.output, p item
  | .error e => e.class = .unsupported

section

variable {p : Item → Prop} {ts : List Token} {s : State}

/-- Of two steps in a row each keeps the property. -/
theorem Writes.bind {m : Except Error State} {k : State → Except Error State} (hm : Writes p m)
    (hk : ∀ s, (∀ item ∈ s.output, p item) → Writes p (k s)) : Writes p (m >>= k) := by
  cases m with
  | error e => exact hm
  | ok s => exact hk s hm

/-- Releasing what waits adds operators only. -/
theorem output_release (h : HoldsOfEntries p ts) (hs : ∀ item ∈ s.output, p item)
    (q : Waiting → Bool) : ∀ item ∈ (s.release q).output, p item := by
  intro item hitem
  rcases List.mem_append.mp hitem with hitem | hitem
  · exact hs item hitem
  · obtain ⟨w, -, hw⟩ := List.mem_filterMap.mp hitem
    cases w with
    | group => cases hw
    | unary op =>
      cases hw
      exact h.unary _
    | binary op =>
      cases hw
      exact h.binary _

/-- An operand adds itself with the signs that wait for it. -/
theorem writes_operand (h : HoldsOfEntries p ts) (hs : ∀ item ∈ s.output, p item) {t : Token}
    (ht : t ∈ ts) (hkind : t.IsOperandKind) : Writes p (s.operand t.text) := by
  unfold State.operand
  split
  · intro item hitem
    rcases List.mem_append.mp hitem with hitem | hitem
    · exact hs item hitem
    · rw [List.mem_singleton.mp hitem]
      exact h.operand t ht hkind s.pending
  · rfl

/-- Punctuation adds operators only. -/
theorem writes_punctuation (h : HoldsOfEntries p ts) (hs : ∀ item ∈ s.output, p item)
    (text : String) : Writes p (s.punctuation text) := by
  unfold State.punctuation
  split
  · unfold State.openGroup
    split
    · exact hs
    · rfl
  split
  · unfold State.closeGroup
    dsimp only
    split
    · rfl
    · rename_i w below hstack
      have hbelow : ∀ item ∈ { s.release (· ≠ Waiting.group) with stack := below }.output, p item :=
        output_release h hs _
      exact output_release h hbelow _
  · unfold State.operator
    split
    · split
      · split
        · exact hs
        · rfl
      · rfl
    · split
      · rfl
      · exact output_release h hs _

/-- Reading tokens adds their operands and operators. -/
theorem writes_read (h : HoldsOfEntries p ts) (hs : ∀ item ∈ s.output, p item)
    (previous : Option Token) : Writes p (Postfix.read s previous ts) := by
  fun_induction Postfix.read s previous ts with
  | case1 s previous => exact hs
  | case2 s previous token rest hsuffix ih => exact ih (h.mono (List.subset_cons_self _ _)) hs
  | case3 s previous token rest hsuffix hkind ih =>
    refine (writes_operand h hs List.mem_cons_self hkind).bind fun s' hs' => ?_
    exact ih s' (h.mono (List.subset_cons_self _ _)) hs'
  | case4 => rfl
  | case5 s previous token hsuffix hkind hpunct => exact writes_punctuation h hs token.text
  | case6 s previous token hsuffix hkind hpunct next rest hpair ih =>
    refine (writes_punctuation h hs (token.text ++ next.text)).bind fun s' hs' => ?_
    exact ih s' (h.mono (List.subset_cons_of_subset _ (List.subset_cons_self _ _))) hs'
  | case7 s previous token hsuffix hkind hpunct next rest hpair ih =>
    refine (writes_punctuation h hs token.text).bind fun s' hs' => ?_
    exact ih s' (h.mono (List.subset_cons_self _ _)) hs'

/-- **Entries.**  A property of the signed operands and of the operators is one of the postfix form;
without a form the expression is left alone. -/
theorem toPostfix_entries (h : HoldsOfEntries p ts) :
    match toPostfix ts with
    | .ok items => ∀ item ∈ items, p item
    | .error e => e.class = .unsupported := by
  have hread := writes_read h (s := .start) (fun item hitem => nomatch hitem) none
  rw [toPostfix]
  cases hs : Postfix.read .start none ts with
  | error e =>
    rw [hs] at hread
    exact hread
  | ok s =>
    rw [hs] at hread
    show match s.finish with
      | .ok items => ∀ item ∈ items, p item
      | .error e => e.class = .unsupported
    unfold State.finish
    by_cases hoperand : s.expectsOperand = true
    · rw [if_pos hoperand]
      rfl
    · rw [if_neg hoperand]
      by_cases hgroup : s.stack.contains .group = true
      · rw [if_pos hgroup]
        rfl
      · rw [if_neg hgroup]
        exact output_release h hread _

end

/-! ## The names that operands ask for -/

/-- The name whose number an operand stands for, unless it is a literal. -/
def askedName? (text : String) : Option String :=
  let body := (splitUnary text.toList).2
  if isHexLiteral body then none
  else if isDigits body then none
  else if (body.take 1).any fun c => isDigitLike c || c = '.' then none
  else if body.take 1 = ['\''] then none
  else some (String.ofList body)

/-- Unary operators in front of a text are split off together with those it starts with. -/
theorem splitUnary_append (signs : List UnaryOp) (text : List Char) :
    splitUnary (signs.map UnaryOp.char ++ text) =
      (signs ++ (splitUnary text).1, (splitUnary text).2) := by
  induction signs with
  | nil => rfl
  | cons op signs ih => simp [splitUnary, UnaryOp.ofChar?_char, ih]

/-- Signs do not change the name that is asked for. -/
theorem askedName?_signed (signs : List UnaryOp) (text : String) :
    askedName? (signed signs text) = askedName? text := by
  unfold askedName? signed
  rw [String.toList_append, String.toList_ofList, splitUnary_append]

variable {symbols symbols' : SymbolTable}

/-- Tables that agree on the name that an operand asks for give it the same number. -/
theorem operandValue_congr {text : String}
    (h : ∀ name, askedName? text = some name → symbols.number? name = symbols'.number? name) :
    operandValue symbols text = operandValue symbols' text := by
  have hbare : bareOperand symbols (splitUnary text.toList).2 =
      bareOperand symbols' (splitUnary text.toList).2 := by
    unfold askedName? at h
    unfold bareOperand
    dsimp only at h ⊢
    split
    · rfl
    split
    · rfl
    split
    · rfl
    split
    · rfl
    · rename_i hhex hdigits hnumber hmark
      rw [if_neg hhex, if_neg hdigits, if_neg hnumber, if_neg hmark] at h
      unfold lookup
      rw [h _ rfl]
  unfold operandValue
  dsimp only
  rw [hbare]

/-- The tables agree on the name that an entry asks for. -/
def Item.AgreesIn (symbols symbols' : SymbolTable) : Item → Prop
  | .operand text =>
    ∀ name, askedName? text = some name → symbols.number? name = symbols'.number? name
  | .unary _ => True
  | .binary _ => True

/-- An entry has the same effect under tables that agree on the name it asks for. -/
theorem Item.step_congr {item : Item} (h : item.AgreesIn symbols symbols') (stack : List Number) :
    item.step symbols stack = item.step symbols' stack := by
  cases item with
  | operand text => simp only [step, operandValue_congr h]
  | unary text => cases stack <;> rfl
  | binary text => rcases stack with _ | ⟨y, _ | ⟨x, stack⟩⟩ <;> rfl

/-- A postfix form runs alike under tables that agree on the names its entries ask for. -/
theorem run_congr {items : List Item} (h : ∀ item ∈ items, item.AgreesIn symbols symbols')
    (stack : List Number) : run symbols items stack = run symbols' items stack := by
  induction items generalizing stack with
  | nil => rfl
  | cons item items ih =>
    unfold run
    rw [Item.step_congr (h item List.mem_cons_self)]
    congr 1
    funext stack
    exact ih (fun i hi => h i (List.mem_cons_of_mem _ hi)) stack

/-- **Agreement.**  A postfix form has the same number under tables that agree on the names its
entries ask for. -/
theorem evaluatePostfix_congr {items : List Item}
    (h : ∀ item ∈ items, item.AgreesIn symbols symbols') :
    evaluatePostfix symbols items = evaluatePostfix symbols' items := by
  unfold evaluatePostfix
  rw [run_congr h]

end Constant

end SdkBindings
