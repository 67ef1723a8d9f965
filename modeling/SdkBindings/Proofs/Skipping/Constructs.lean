import SdkBindings.Proofs.Skipping.Fronts

/-!
# Constructs see no further than they are read

Lists of members and parameters and the constants of an enumeration are read the same whatever stands
behind them (`takes_fields`, `takes_writtenEnumerator`).

Every loop takes a token in each round, so the induction is on the number of tokens of code in common;
on both sides the bound is no smaller.
-/

namespace SdkBindings.Exchange

open Grammar Grammar.Reader

variable {E : Exchange} {n b b' : Nat}

/-! ## Parts of a field -/

/-- The length of arguments depends on nothing behind them. -/
theorem argumentsLength?_take {depth m : Nat} {ts : List Token} (h : argumentsLength? depth ts = some m)
    (rest : List Token) : m ≤ ts.length ∧ argumentsLength? depth (ts.take m ++ rest) = some m := by
  induction ts generalizing depth m with
  | nil => cases h
  | cons t ts ih =>
    have hmore {depth' : Nat} (h : (argumentsLength? depth' ts).map (· + 1) = some m) :
        ∃ l, m = l + 1 ∧ l ≤ ts.length ∧
          (argumentsLength? depth' (ts.take l ++ rest)).map (· + 1) = some (l + 1) := by
      obtain ⟨l, hl, rfl⟩ := Option.map_eq_some_iff.mp h
      obtain ⟨hlength, htake⟩ := ih hl
      exact ⟨l, rfl, hlength, by rw [htake]; rfl⟩
    rw [argumentsLength?] at h
    by_cases hopen : t.text = "("
    · rw [if_pos hopen] at h
      obtain ⟨l, rfl, hlength, htake⟩ := hmore h
      refine ⟨Nat.succ_le_succ hlength, ?_⟩
      rw [List.take_succ_cons, List.cons_append, argumentsLength?, if_pos hopen, htake]
    · rw [if_neg hopen] at h
      by_cases hclose : t.text = ")"
      · rw [if_pos hclose] at h
        by_cases hlast : depth ≤ 1
        · rw [if_pos hlast] at h
          cases h
          refine ⟨Nat.succ_le_succ (Nat.zero_le _), ?_⟩
          rw [List.take_succ_cons, List.cons_append, argumentsLength?, if_neg hopen, if_pos hclose,
            if_pos hlast]
        · rw [if_neg hlast] at h
          obtain ⟨l, rfl, hlength, htake⟩ := hmore h
          refine ⟨Nat.succ_le_succ hlength, ?_⟩
          rw [List.take_succ_cons, List.cons_append, argumentsLength?, if_neg hopen, if_pos hclose,
            if_neg hlast, htake]
      · rw [if_neg hclose] at h
        obtain ⟨l, rfl, hlength, htake⟩ := hmore h
        refine ⟨Nat.succ_le_succ hlength, ?_⟩
        rw [List.take_succ_cons, List.cons_append, argumentsLength?, if_neg hopen, if_neg hclose, htake]

/-- Passes over arguments up to the parenthesis that closes them. -/
def balancedArguments : Reader Unit := do
  let c ← get
  match argumentsLength? 0 c.ahead with
  | some m => set { c with passed := (c.ahead.take m).reverse ++ c.passed, ahead := c.ahead.drop m }
  | none => fail c.eof ")" "annotation arguments"

/-- The arguments of an annotation start with a parenthesis. -/
theorem skipArguments_eq :
    skipArguments = peek >>= fun t => if t.text = "(" then balancedArguments else pure () :=
  rfl

/-- Arguments that are closed within the common tokens. -/
theorem follows_balancedArguments : E.Follows n balancedArguments balancedArguments := by
  constructor
  · intro c u c' h
    rw [balancedArguments, get_bind] at h
    cases hm : argumentsLength? 0 c.ahead <;> rw [hm] at h <;> cases h
    exact c.isBefore_take _
  · intro front front' c d u c' _ hc hd h hend
    rw [balancedArguments, get_bind] at h ⊢
    cases hm : argumentsLength? 0 c.ahead with
    | none =>
      rw [hm] at h
      cases h
    | some m =>
      rw [hm] at h
      cases h
      -- the arguments end in front of what is exchanged
      rw [hc] at hm hend
      obtain ⟨hle, hm'⟩ := argumentsLength?_take hm (front.drop m ++ E.new)
      have hwithin : m ≤ front.length := by
        have hleft := congrArg List.length hend
        rw [List.length_drop, List.length_append, List.length_append] at hleft
        rw [List.length_append] at hle
        omega
      rw [List.take_append_of_le_length hwithin, ← List.append_assoc, List.take_append_drop] at hm'
      rw [List.drop_append_of_le_length hwithin] at hend
      rw [hd, hm']
      refine ⟨_, rfl, ?_⟩
      show (front ++ E.new).drop m = _
      rw [List.drop_append_of_le_length hwithin, List.append_cancel_right hend]

/-- Where a token is taken behind them, arguments are passed over alike. -/
theorem Takes.skipArguments_bind {β : Type} {k k' : Unit → Reader β}
    (hk : ∀ u, E.Takes n (k u) (k' u)) : E.Takes n (skipArguments >>= k) (skipArguments >>= k') := by
  rw [skipArguments_eq, bind_assoc, bind_assoc]
  refine .peek_bind fun t => ?_
  by_cases hopen : t.text = "("
  · rw [if_pos hopen]
    exact .of_bind follows_balancedArguments hk
  · rw [if_neg hopen]
    exact hk ()

/-- Type names. -/
theorem follows_typeName (hb : n ≤ b) (hb' : n ≤ b') (parts : List String) (t : Token) :
    E.Follows n (typeName b parts t) (typeName b' parts t) := by
  induction n generalizing b b' parts t with
  | zero => exact .zero (forward_typeName b parts t)
  | succ n ih =>
    obtain ⟨b, rfl⟩ := Nat.exists_eq_add_of_lt hb
    obtain ⟨b', rfl⟩ := Nat.exists_eq_add_of_lt hb'
    rw [typeName, typeName]
    refine .ite (fun _ => .next_bind fun following => ?_) fun _ => .ite (fun _ => .fail) fun _ => ?_
    · exact ih (Nat.le_add_right n b) (Nat.le_add_right n b') parts following
    · refine .next_bind fun following => .ite (fun _ => ?_) fun _ => .pure _
      exact ih (Nat.le_add_right n b) (Nat.le_add_right n b') _ following

/-- Asterisks. -/
theorem follows_pointerDepth (hb : n ≤ b) (hb' : n ≤ b') (t : Token) :
    E.Follows n (pointerDepth b t) (pointerDepth b' t) := by
  induction n generalizing b b' t with
  | zero => exact .zero (forward_pointerDepth b t)
  | succ n ih =>
    obtain ⟨b, rfl⟩ := Nat.exists_eq_add_of_lt hb
    obtain ⟨b', rfl⟩ := Nat.exists_eq_add_of_lt hb'
    rw [pointerDepth, pointerDepth]
    refine .ite (fun _ => .next_bind fun following => ?_) fun _ => .pure _
    exact (ih (Nat.le_add_right n b) (Nat.le_add_right n b') following).bind fun _ => .pure _

variable (symbols : SymbolTable) (brackets : Brackets) (usage : Usage) (type : String)

/-- The length of an array. -/
theorem follows_dimension (t : Token) :
    E.Follows n (dimension symbols type t) (dimension symbols type t) := by
  unfold dimension
  refine .ite (fun _ => ?_) fun _ => .ite (fun _ => ?_) fun _ => .fail
  · cases Numeral.decimalInteger? t.text.toList with
    | none => exact .throw
    | some length => exact .pure length
  · cases symbols.number? t.text with
    | none => exact .fail
    | some length => exact .pure length

/-- Dimensions. -/
theorem follows_dimensions (hb : n ≤ b) (hb' : n ≤ b') (t : Token) :
    E.Follows n (dimensions symbols type b t) (dimensions symbols type b' t) := by
  induction n generalizing b b' t with
  | zero => exact .zero (forward_dimensions symbols type b t)
  | succ n ih =>
    obtain ⟨b, rfl⟩ := Nat.exists_eq_add_of_lt hb
    obtain ⟨b', rfl⟩ := Nat.exists_eq_add_of_lt hb'
    rw [dimensions, dimensions]
    refine .ite (fun _ => .next_bind fun size => ?_) fun _ => .pure _
    refine (follows_dimension symbols type size).bind fun length => (Follows.expect "]" _).bind fun _ => ?_
    refine Follows.next.bind fun following => ?_
    exact (ih (Nat.le_add_right n b) (Nat.le_add_right n b') following).bind fun _ => .pure _

/-- The end of a plain field. -/
theorem follows_terminatedField (name : String) (depth : Nat) (target : CType) (t : Token) :
    E.Follows n (terminatedField brackets usage type name depth target t)
      (terminatedField brackets usage type name depth target t) := by
  unfold terminatedField
  dsimp only
  exact .ite (fun _ => (Follows.fail).bind fun _ => .pure _) fun _ => .pure _

/-- A plain field from its name on. -/
theorem follows_namedField (hb : n ≤ b) (hb' : n ≤ b') (depth : Nat) (t : Token) :
    E.Follows n (namedField symbols brackets usage type b depth t)
      (namedField symbols brackets usage type b' depth t) := by
  unfold namedField
  dsimp only
  refine .ite (fun _ => .fail_bind) fun _ => Follows.next.bind fun following => ?_
  refine .ite (fun _ => ?_) fun _ => ?_
  · refine (follows_dimensions symbols type hb hb' following).bind fun p => ?_
    exact follows_terminatedField brackets usage type _ _ _ p.2
  · exact follows_terminatedField brackets usage type _ _ _ following

/-- Plain fields. -/
theorem follows_plainField (t : Token) :
    E.Follows n (plainField symbols brackets usage type t) (plainField symbols brackets usage type t) := by
  rw [plainField_eq]
  refine .ahead_bind fun l _ b b' hb hb' => ?_
  refine (follows_pointerDepth hb hb' t).bind fun p => .ite (fun _ => ?_) fun _ => ?_
  · refine Follows.next.bind fun following => (follows_pointerDepth hb hb' following).bind fun q => ?_
    exact follows_namedField symbols brackets usage type hb hb' _ q.2
  · exact follows_namedField symbols brackets usage type hb hb' _ p.2

/-- The head of a function pointer. -/
theorem takes_methodHead : E.Takes n (methodHead type) (methodHead type) := by
  refine .next_bind fun _ => .ahead_bind fun l _ b b' hb hb' => Follows.next.bind fun t => ?_
  refine (follows_pointerDepth hb hb' t).bind fun p => .ite (fun _ => .fail_bind) fun _ => ?_
  exact (Follows.expect ")" _).bind fun _ => (Follows.expect "(" _).bind fun _ => .pure _

/-- The check of a receiver. -/
theorem follows_checkReceiver (name : String) (first : Token) (parameters : List Field) :
    E.Follows n (checkReceiver name first parameters) (checkReceiver name first parameters) :=
  .ite (fun _ => .fail) fun _ => .pure ()

/-! ## Lists of fields -/

/-- Function pointers, if lists of parameters are read alike. -/
theorem follows_methodField
    (hlist : E.Follows (n - 1) (fieldList symbols b .parameters) (fieldList symbols b' .parameters)) :
    E.Follows n (methodField symbols b brackets usage type)
      (methodField symbols b' brackets usage type) := by
  refine (takes_methodHead type).toFollows.advancing_bind (takes_methodHead (E := E) (n := n) type).advances
    fun name => Takes.toFollows (.peek_bind fun first => .of_bind hlist fun parameters => ?_)
  refine .of_bind (follows_checkReceiver name first parameters) fun _ => .next_bind fun t => ?_
  exact .ite (fun _ => .fail_bind) fun _ => .pure _

/-- Fields, if lists of parameters are read alike. -/
theorem follows_field
    (hlist : ∀ {b b' : Nat}, n - 1 ≤ b → n - 1 ≤ b' →
      E.Follows (n - 1) (fieldList symbols b .parameters) (fieldList symbols b' .parameters))
    (hb : n ≤ b) (hb' : n ≤ b') (t : Token) :
    E.Follows n (field symbols b brackets t) (field symbols b' brackets t) := by
  cases n with
  | zero => exact .zero (forward_field symbols b brackets t)
  | succ n =>
    obtain ⟨b, rfl⟩ := Nat.exists_eq_add_of_lt hb
    obtain ⟨b', rfl⟩ := Nat.exists_eq_add_of_lt hb'
    have hparameters := hlist (Nat.le_add_right n b) (Nat.le_add_right n b')
    have hafter (usage : Usage) (t : Token) :
        E.Follows (n + 1) (fieldAfterUsage symbols (n + b) brackets usage t)
          (fieldAfterUsage symbols (n + b') brackets usage t) := by
      refine .ahead_bind fun l hl m m' hm hm' => ?_
      have htype := follows_typeName (E := E) (Nat.le_succ_of_le hm) (Nat.le_succ_of_le hm') [] t
      refine htype.bind fun p => .ite (fun _ => ?_) fun _ => ?_
      · have hfewer := hparameters.mono (Nat.sub_le_sub_right hl 1)
        exact follows_methodField symbols brackets usage p.1 hfewer
      · exact follows_plainField symbols brackets usage p.1 p.2
    rw [field_succ, field_succ]
    refine .ite (fun _ => ?_) fun _ => hafter .none t
    refine Takes.toFollows (.skipArguments_bind fun _ => .next_bind fun following => ?_)
    exact (hafter _ following).mono (Nat.le_succ n)

/-- A list whose entries are read alike. -/
theorem takes_fieldList_succ
    (hlist : ∀ {l b b' : Nat} (brackets : Brackets), l ≤ n → l ≤ b → l ≤ b' →
      E.Follows l (fieldList symbols b brackets) (fieldList symbols b' brackets))
    (hb : n ≤ b) (hb' : n ≤ b') :
    E.Takes (n + 1) (fieldList symbols (b + 1) brackets) (fieldList symbols (b' + 1) brackets) := by
  have hrest (brackets : Brackets) := hlist brackets (Nat.le_refl n) hb hb'
  rw [fieldList, fieldList]
  refine .next_bind fun token => .ite (fun _ => .pure _) fun _ => .ite (fun _ => .fail) fun _ => ?_
  refine .ite (fun _ => (hrest brackets).bind fun _ => .pure _) fun _ => ?_
  refine .ite (fun _ => hrest brackets) fun _ => .ite (fun _ => ?_) fun _ => ?_
  · refine (Follows.expect "\x7b" _).bind fun _ => (hrest .members).bind fun _ => ?_
    exact (Follows.expect ";" _).bind fun _ => (hrest brackets).bind fun _ => .pure _
  · refine (follows_field symbols brackets (hlist .parameters (Nat.sub_le n 1)) hb hb' token).bind
      fun p => .ite (fun _ => .pure _) fun _ => ?_
    exact (hrest brackets).bind fun _ => .pure _

/-- Lists of fields. -/
theorem follows_fieldList (hb : n ≤ b) (hb' : n ≤ b') :
    E.Follows n (fieldList symbols b brackets) (fieldList symbols b' brackets) := by
  induction n using Nat.strongRecOn generalizing b b' brackets with
  | ind n ih =>
  cases n with
  | zero => exact .zero (forward_fieldList symbols b brackets)
  | succ n =>
    obtain ⟨b, rfl⟩ := Nat.exists_eq_add_of_lt hb
    obtain ⟨b', rfl⟩ := Nat.exists_eq_add_of_lt hb'
    refine (takes_fieldList_succ symbols brackets (fun {l} _ _ brackets hl hb hb' => ?_)
      (Nat.le_add_right n b) (Nat.le_add_right n b')).toFollows
    exact ih l (Nat.lt_succ_of_le hl) brackets hb hb'

/-- Lists that have just been opened; the token that closes them is taken. -/
theorem takes_fields : E.Takes n (fields symbols brackets) (fields symbols brackets) := by
  refine ⟨.ahead_bind fun l _ b b' hb hb' => follows_fieldList symbols brackets hb hb',
    .forward_bind .ahead fun bound => ?_⟩
  have hlist := takes_fieldList_succ (E := E) (n := bound) symbols brackets
    (fun brackets _ hb hb' => follows_fieldList symbols brackets hb hb') (Nat.le_refl _) (Nat.le_refl _)
  exact hlist.advances

/-! ## Enumerations -/

/-- The end of an expression. -/
theorem takes_expressionEnd (ident : String) (expression : List Token) :
    E.Takes n (expressionEnd ident expression) (expressionEnd ident expression) := by
  refine .next_bind fun t => .ite (fun _ => .fail_bind) fun _ => ?_
  exact .ite (fun _ => .fail_bind) fun _ => .pure _

/-- Where a class of tokens ends within some tokens, what follows them does not matter. -/
theorem takeWhile_front (p : Token → Bool) (front : List Token) :
    (∀ t ∈ front, p t = true) ∨ ∃ covered t left, front = covered ++ t :: left ∧ ∀ rest,
      (front ++ rest).takeWhile p = covered ∧ (front ++ rest).dropWhile p = t :: (left ++ rest) := by
  have hcovered : ∀ u ∈ front.takeWhile p, p u = true := List.all_eq_true.mp List.all_takeWhile
  have hsplit : front.takeWhile p ++ front.dropWhile p = front := List.takeWhile_append_dropWhile
  cases hleft : front.dropWhile p with
  | nil =>
    rw [hleft, List.append_nil] at hsplit
    exact .inl (hsplit ▸ hcovered)
  | cons t left =>
    have ht : ¬ p t = true := by
      have hhead := List.head_dropWhile_not p (l := front) (by rw [hleft]; exact List.cons_ne_nil _ _)
      simpa [hleft] using hhead
    rw [hleft] at hsplit
    refine .inr ⟨front.takeWhile p, t, left, hsplit.symm, fun rest => ?_⟩
    generalize front.takeWhile p = covered at hsplit hcovered
    subst hsplit
    rw [List.append_assoc, List.takeWhile_append_of_pos hcovered, List.dropWhile_append_of_pos hcovered,
      List.cons_append, List.takeWhile_cons_of_neg ht, List.dropWhile_cons_of_neg ht, List.append_nil]
    exact ⟨rfl, rfl⟩

/-- Expressions. -/
theorem follows_enumExpression (ident : String) :
    E.Follows n (enumExpression ident) (enumExpression ident) := by
  refine ⟨forward_enumExpression ident, ?_⟩
  intro front front' c d p c' hlength hc hd h hend
  rw [enumExpression_apply, drop_length_takeWhile, hc] at h
  rcases takeWhile_front (fun t => !endsExpression t) front with
    hall | ⟨covered, t, left, hfront, hsame⟩
  · -- what ends the expression would have to be taken from behind the common tokens
    rw [List.dropWhile_append_of_pos hall] at h
    have hold := E.length_code_old_pos
    have htaken := (takes_expressionEnd (E := E) (n := n) ident _).advances _ _ _ h
    have hle := ((List.dropWhile_sublist (l := E.old) fun t => !endsExpression t).filter
      fun t => !t.isLineEnd).length_le
    rw [Cursor.code, Cursor.code, hend, List.filter_append, List.length_append] at htaken
    dsimp only at htaken
    omega
  · rw [(hsame E.old).1, (hsame E.old).2] at h
    rw [enumExpression_apply, drop_length_takeWhile, hd, (hsame E.new).1, (hsame E.new).2]
    have hfewer : ((t :: left).filter fun t => !t.isLineEnd).length < n := by
      rw [hfront, List.filter_append, List.length_append] at hlength
      omega
    exact (takes_expressionEnd ident _).same hfewer rfl rfl h hend

/-- Constants. -/
theorem takes_writtenEnumerator (enum : String) :
    E.Takes n (writtenEnumerator enum) (writtenEnumerator enum) := by
  refine .next_bind fun t => .ite (fun _ => .pure _) fun _ => .ite (fun _ => .fail_bind) fun _ => ?_
  refine Follows.next.bind fun separator => .ite (fun _ => ?_) fun _ => ?_
  · exact (follows_enumExpression t.text).bind fun p => .pure _
  · exact .ite (fun _ => .pure _) fun _ => .fail

end SdkBindings.Exchange
