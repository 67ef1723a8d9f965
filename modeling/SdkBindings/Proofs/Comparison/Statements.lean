import SdkBindings.Grammar.Headers
import SdkBindings.Proofs.Comparison.Fields
import SdkBindings.Proofs.Grammar.Code

/-!
# Comparing two readings: statements

An action in a session has the same outcome in two sessions with related constants, and leaves
related constants behind, whether it succeeds or fails (`Comparison.ActsAlike`).  A statement does so
on alike cursors as well (`Comparison.StatesAlike`).  What is reported is not compared.

With that the constants of an enumeration are read and valued alike (`enumeration_alike`): each
expression corresponds to one on the other side, and what its evaluation asks for is known on both
sides with the same number.
-/

namespace SdkBindings.Comparison

open Grammar Grammar.Reader

variable (K : Comparison)

/-! ## Actions -/

section

variable {α α' β β' : Type}

/-- Two actions have the same outcome in sessions with related constants, and leave related
constants. -/
def ActsAlike (R : α → α' → Prop) (m : InSession α) (m' : InSession α') : Prop :=
  ∀ s s' : Session, K.table s.symbols s'.symbols →
    SameOutcome K.SameFailure R (m.run s).1 (m'.run s').1 ∧
      K.table (m.run s).2.symbols (m'.run s').2.symbols

variable {K} {R R' : α → α' → Prop} {S : β → β' → Prop}

namespace ActsAlike

/-- Results may be related more loosely. -/
theorem imp {m : InSession α} {m' : InSession α'} (h : K.ActsAlike R m m')
    (hR : ∀ a a', R a a' → R' a a') : K.ActsAlike R' m m' :=
  fun s s' htable => ⟨(h s s' htable).1.imp hR, (h s s' htable).2⟩

/-- Results by themselves. -/
theorem pure {a : α} {a' : α'} (h : R a a') : K.ActsAlike R (Pure.pure a) (Pure.pure a') :=
  fun _ _ htable => ⟨.ok h, htable⟩

/-- Failures by themselves. -/
theorem throw {e f : Failure} (h : K.SameFailure e f) :
    K.ActsAlike R (MonadExcept.throw e : InSession α) (MonadExcept.throw f : InSession α') :=
  fun _ _ htable => ⟨.error h, htable⟩

/-- Actions in a row. -/
theorem bind {m : InSession α} {m' : InSession α'} {k : α → InSession β} {k' : α' → InSession β'}
    (hm : K.ActsAlike R m m') (hk : ∀ a a', R a a' → K.ActsAlike S (k a) (k' a')) :
    K.ActsAlike S (m >>= k) (m' >>= k') := by
  intro s s' htable
  obtain ⟨hfirst, htable'⟩ := hm s s' htable
  rw [run_bind, run_bind]
  generalize m.run s = p at hfirst htable'
  generalize m'.run s' = q at hfirst htable'
  obtain ⟨result, s₁⟩ := p
  obtain ⟨result', s₁'⟩ := q
  cases hfirst with
  | ok h => exact hk _ _ h s₁ s₁' htable'
  | error h => exact ⟨.error h, htable'⟩

/-- Actions chosen by conditions that say the same. -/
theorem ite {p p' : Prop} [Decidable p] [Decidable p'] {m k : InSession α} {m' k' : InSession α'}
    (h : p' ↔ p) (hm : p → K.ActsAlike R m m') (hk : ¬ p → K.ActsAlike R k k') :
    K.ActsAlike R (if p then m else k) (if p' then m' else k') := by
  by_cases hp : p
  · rw [if_pos hp, if_pos (h.mpr hp)]
    exact hm hp
  · rw [if_neg hp, if_neg fun hp' => hp (h.mp hp')]
    exact hk hp

/-- Asking for the known constants. -/
theorem symbols : K.ActsAlike K.table Grammar.symbols Grammar.symbols :=
  fun _ _ htable => ⟨.ok htable, htable⟩

/-- Reporting, whatever it is. -/
theorem report (entries entries' : Log) :
    K.ActsAlike Eq (Grammar.report entries) (Grammar.report entries') :=
  fun _ _ htable => ⟨.ok rfl, htable⟩

/-- Making a name known that is compared. -/
theorem define {name : String} (h : K.name name) (value : Value) :
    K.ActsAlike Eq (Grammar.define name value) (Grammar.define name value) :=
  fun _ _ htable => ⟨.ok rfl, K.insert value htable h⟩

/-- Using a value, whatever is noted. -/
theorem evaluated (notes notes' : Log) (result : Except Constant.Error Value)
    (note note' : Constant.Error → LogEntry) :
    K.ActsAlike Eq (Grammar.evaluated notes result note) (Grammar.evaluated notes' result note') := by
  refine (report notes notes').bind fun _ _ _ => ?_
  cases result with
  | ok value => exact .pure rfl
  | error e =>
    refine .ite Iff.rfl (fun _ => ?_) fun _ => .throw (.constant e)
    exact (report [note e] [note' e]).bind fun _ _ _ => .pure rfl

end ActsAlike

/-! ## Statements -/

variable (K) in
/-- Two statements have the same outcome on cursors that are alike with at most `n` tokens of code
ahead, in sessions with related constants, and leave related constants. -/
def StatesAlike (n : Nat) (R : Nat → α → α' → Prop) (m : Statement α) (m' : Statement α') : Prop :=
  ∀ c d, K.Alike n c d → K.ActsAlike (K.After n R) (m c) (m' d)

variable {n : Nat} {R : Nat → α → α' → Prop} {S : Nat → β → β' → Prop}

namespace StatesAlike

/-- Results by themselves. -/
theorem pure {a : α} {a' : α'} (h : R n a a') : K.StatesAlike n R (Pure.pure a) (Pure.pure a') :=
  fun _ _ halike => .pure ⟨n, Nat.le_refl n, h, halike⟩

/-- Statements in a row. -/
theorem bind {m : Statement α} {m' : Statement α'} {k : α → Statement β} {k' : α' → Statement β'}
    (hm : K.StatesAlike n R m m')
    (hk : ∀ l a a', l ≤ n → R l a a' → K.StatesAlike l S (k a) (k' a')) :
    K.StatesAlike n S (m >>= k) (m' >>= k') := by
  intro c d halike
  show K.ActsAlike _ (m c >>= fun p => k p.1 p.2) (m' d >>= fun p => k' p.1 p.2)
  refine (hm c d halike).bind ?_
  rintro p q ⟨l, hl, hresult, hafter⟩
  refine (hk l _ _ hl hresult _ _ hafter).imp ?_
  rintro _ _ ⟨r, hr, hresult, hafter⟩
  exact ⟨r, Nat.le_trans hr hl, hresult, hafter⟩

/-- After the same result the same goes on. -/
theorem same_bind {m m' : Statement α} {k : α → Statement β} {k' : α → Statement β'}
    (hm : K.StatesAlike n Same m m') (hk : ∀ l a, l ≤ n → K.StatesAlike l S (k a) (k' a)) :
    K.StatesAlike n S (m >>= k) (m' >>= k') := by
  refine hm.bind fun l a a' hl ha => ?_
  rw [show a' = a from ha]
  exact hk l a hl

/-- Statements chosen by conditions that say the same. -/
theorem ite {p p' : Prop} [Decidable p] [Decidable p'] {m k : Statement α} {m' k' : Statement α'}
    (h : p' ↔ p) (hm : p → K.StatesAlike n R m m') (hk : ¬ p → K.StatesAlike n R k k') :
    K.StatesAlike n R (if p then m else k) (if p' then m' else k') := by
  by_cases hp : p
  · rw [if_pos hp, if_pos (h.mpr hp)]
    exact hm hp
  · rw [if_neg hp, if_neg fun hp' => hp (h.mp hp')]
    exact hk hp

/-- Readers as statements. -/
theorem read {m : Reader α} {m' : Reader α'} (h : K.ReadsAlike n R m m') :
    K.StatesAlike n R (Grammar.read m) (Grammar.read m') := by
  intro c d halike
  have houtcome := h c d halike
  unfold Grammar.read
  generalize m c = result at houtcome
  generalize m' d = result' at houtcome
  cases houtcome with
  | ok h => exact .pure h
  | error h => exact .throw h

/-- After a token the same token goes on being used. -/
theorem read_bind {m m' : Reader Token} {k : Token → Statement β} {k' : Token → Statement β'}
    (hm : K.ReadsAlike n (K.Read n) m m')
    (hk : ∀ l t p, K.Read n l t (t.movedTo p) → K.StatesAlike l S (k t) (k' (t.movedTo p))) :
    K.StatesAlike n S (Grammar.read m >>= k) (Grammar.read m' >>= k') := by
  refine (read hm).bind fun l t u _ h => ?_
  have hu := h.matched.eq_movedTo
  rw [hu] at h ⊢
  exact hk l t _ h

/-- After tokens that stand for each other the same token goes on being used. -/
theorem matched_bind {m m' : Reader Token} {k : Token → Statement β} {k' : Token → Statement β'}
    (hm : K.ReadsAlike n (fun _ => K.Matches) m m')
    (hk : ∀ l t p, l ≤ n → K.Matches t (t.movedTo p) →
      K.StatesAlike l S (k t) (k' (t.movedTo p))) :
    K.StatesAlike n S (Grammar.read m >>= k) (Grammar.read m' >>= k') := by
  refine (read hm).bind fun l t u hl h => ?_
  have hu := h.eq_movedTo
  rw [hu] at h ⊢
  exact hk l t _ hl h

/-- Actions as statements. -/
theorem lift {m m' : InSession α} (h : K.ActsAlike Eq m m') :
    K.StatesAlike n Same (liftM m : Statement α) (liftM m' : Statement α) := by
  intro c d halike
  show K.ActsAlike _ (m >>= fun a => Pure.pure (a, c)) (m' >>= fun a => Pure.pure (a, d))
  exact h.bind fun a a' ha => .pure ⟨n, Nat.le_refl n, ha.symm, halike⟩

/-- After asking for the known constants. -/
theorem symbols_bind {k : SymbolTable → Statement β} {k' : SymbolTable → Statement β'}
    (hk : ∀ table table', K.table table table' → K.StatesAlike n S (k table) (k' table')) :
    K.StatesAlike n S ((liftM Grammar.symbols : Statement SymbolTable) >>= k)
      ((liftM Grammar.symbols : Statement SymbolTable) >>= k') :=
  fun c d halike s s' htable => hk _ _ htable c d halike s s' htable

/-- The number of tokens ahead is no common bound, but on both sides at least that of the code. -/
theorem ahead_bind {k : Nat → Statement β} {k' : Nat → Statement β'}
    (hk : ∀ l b b', l ≤ n → l ≤ b → l ≤ b' → K.StatesAlike l S (k b) (k' b')) :
    K.StatesAlike n S (Grammar.read ahead >>= k) (Grammar.read ahead >>= k') := by
  intro c d halike
  obtain ⟨l, hl, halike, hc, hd⟩ := halike.tight
  refine (hk l _ _ hl hc hd c d halike).imp ?_
  rintro _ _ ⟨r, hr, hresult, hafter⟩
  exact ⟨r, Nat.le_trans hr hl, hresult, hafter⟩

/-- Nothing comes after a failure. -/
theorem fail_bind {t u : Token} (h : K.Matches t u) {expected context : String}
    {k : α → Statement β} {k' : α' → Statement β'} :
    K.StatesAlike n S (Grammar.read (fail t expected context) >>= k)
      (Grammar.read (fail u expected context) >>= k') :=
  (read (.fail (R := fun _ _ _ => False) h expected context)).bind fun _ _ _ _ h => h.elim

end StatesAlike

end

/-! ## Enumerations -/

variable {K} {n l b b' : Nat} {t u : Token}

/-- Expressions of constants end alike. -/
theorem expressionEnd_alike {ts us : List Token} (h : K.Corresponds none ts us) (ident : String) :
    K.ReadsAlike n (fun _ p q => K.Corresponds none p.1 q.1 ∧ q.2.text = p.2.text)
      (expressionEnd ident ts) (expressionEnd ident us) := by
  have hempty : us = [] ↔ ts = [] := by
    cases h with
    | nil => exact Iff.rfl
    | cons => exact iff_of_false (List.cons_ne_nil _ _) (List.cons_ne_nil _ _)
  unfold expressionEnd
  refine ReadsAlike.next.read_bind fun l t p ht => ?_
  refine .ite Iff.rfl (fun _ => .fail_bind ht.matched) fun _ => ?_
  exact .ite hempty (fun _ => .fail_bind ht.matched) fun _ => .pure ⟨h, rfl⟩

/-- Expressions of constants are read alike. -/
theorem enumExpression_alike (ident : String) :
    K.ReadsAlike n (fun _ p q => K.Corresponds none p.1 q.1 ∧ q.2.text = p.2.text)
      (enumExpression ident) (enumExpression ident) := by
  rintro c d ⟨inLine, previous, halike⟩
  obtain ⟨hcovered, inLine', previous', hrest⟩ :=
    halike.aligned.takeWhile (fun _ => not_endsExpression_of_isBreak) fun h => by
      simp only [endsExpression, h.text]
  rw [enumExpression_apply, enumExpression_apply]
  apply expressionEnd_alike hcovered.alone ident
  refine ⟨inLine', previous', halike.moved ?_ ?_⟩
  · rwa [drop_length_takeWhile, drop_length_takeWhile]
  · rw [drop_length_takeWhile]
    exact Nat.le_trans (length_filter_dropWhile_le _ _) halike.length_le

variable (K) in
/-- Two constants are written alike. -/
structure WrittenAlike (w w' : WrittenEnumerator) : Prop where
  /-- They have one name. -/
  ident : w'.ident = w.ident
  /-- The name is compared. -/
  name : K.name w.ident
  /-- Their expressions correspond, if they have any. -/
  expression : Option.Rel (K.Corresponds none) w.expression w'.expression
  /-- The closing brace follows both or neither. -/
  isLast : w'.isLast = w.isLast

/-- Constants are read alike, and less code is left behind one. -/
theorem writtenEnumerator_alike (enum : String) :
    K.ReadsAlike n (fun l => Option.Rel fun w w' => l < n ∧ K.WrittenAlike w w')
      (writtenEnumerator enum) (writtenEnumerator enum) := by
  refine ReadsAlike.next.read_bind fun l token p htoken => ?_
  refine .ite Iff.rfl (fun _ => .pure .none) fun _ => ?_
  refine .ite Iff.rfl (fun _ => .fail_bind htoken.matched) fun hkind => ?_
  have hkind := Classical.not_not.mp hkind
  have hname : K.name token.text := htoken.matched.isName hkind
  have hlt : l < n := htoken.lt (by rw [hkind]; decide)
  refine ReadsAlike.next.read_bind fun r separator q hseparator => ?_
  have hr : r < n := Nat.lt_of_le_of_lt hseparator.le hlt
  refine .ite Iff.rfl (fun _ => ?_) fun _ => .ite Iff.rfl (fun _ => ?_) fun _ => ?_
  · refine (enumExpression_alike token.text).bind ?_
    rintro m ⟨ts, last⟩ ⟨us, last'⟩ hm ⟨hexpression, hlast⟩
    refine .pure (.some ⟨Nat.lt_of_le_of_lt hm hr, rfl, hname, .some hexpression, ?_⟩)
    show decide (last'.text = _) = decide (last.text = _)
    rw [show last'.text = last.text from hlast]
  · exact .pure (.some ⟨hr, rfl, hname, .none, rfl⟩)
  · exact .fail hseparator.matched _ _

/-- Corresponding expressions of constants have the same value. -/
theorem expressionValue_alike {ts us : List Token} (h : K.Corresponds none ts us) :
    K.ActsAlike Eq (expressionValue ts) (expressionValue us) := by
  unfold expressionValue
  refine ActsAlike.symbols.bind fun table table' htable => ?_
  rw [evaluate_eq htable h, h.join]
  exact (ActsAlike.evaluated _ _ _ _ _).bind fun value _ hvalue => .pure (by rw [hvalue])

/-- Constants that are written alike have the same value, which becomes known in both sessions. -/
theorem enumeratorValue_alike {w w' : WrittenEnumerator} (h : K.WrittenAlike w w')
    (previous : Option Value) :
    K.ActsAlike Eq (enumeratorValue previous w) (enumeratorValue previous w') := by
  obtain ⟨ident, expression, isLast⟩ := w
  obtain ⟨ident', expression', isLast'⟩ := w'
  obtain ⟨rfl, hname, hexpression, -⟩ := h
  have hafter (value : Value) : K.ActsAlike Eq
      (if value.isResolved then do define ident' value; pure value else pure value)
      (if value.isResolved then do define ident' value; pure value else pure value) := by
    refine .ite Iff.rfl (fun _ => ?_) fun _ => .pure rfl
    exact (ActsAlike.define hname value).bind fun _ _ _ => .pure rfl
  cases hexpression with
  | none => exact hafter (followingValue previous)
  | some hexpression =>
    refine (expressionValue_alike hexpression).bind ?_
    rintro value _ rfl
    exact hafter value

/-- The constants of an enumeration are read alike. -/
theorem enumerators_alike (enum : String) (previous : Option Value) (hb : n < b) (hb' : n < b') :
    K.StatesAlike n Same (enumerators enum b previous) (enumerators enum b' previous) := by
  induction b generalizing n b' previous with
  | zero => exact absurd hb (Nat.not_lt_zero n)
  | succ b ih =>
    cases b' with
    | zero => exact absurd hb' (Nat.not_lt_zero n)
    | succ b' =>
      refine (StatesAlike.read (writtenEnumerator_alike enum)).bind fun l w w' _ hwritten => ?_
      cases hwritten with
      | none => exact .pure rfl
      | some hwritten =>
        obtain ⟨hl, hwritten⟩ := hwritten
        have hlt := Nat.lt_of_lt_of_le hl (Nat.le_of_lt_succ hb)
        have hlt' := Nat.lt_of_lt_of_le hl (Nat.le_of_lt_succ hb')
        refine (StatesAlike.lift (enumeratorValue_alike hwritten previous)).same_bind
          fun r value hr => ?_
        dsimp only
        rw [hwritten.isLast, hwritten.ident]
        refine .ite Iff.rfl (fun _ => .pure rfl) fun _ => ?_
        refine (ih (some value) (Nat.lt_of_le_of_lt hr hlt) (Nat.lt_of_le_of_lt hr hlt')).same_bind ?_
        exact fun _ rest _ => .pure rfl

/-- Enumerations are read alike. -/
theorem enumeration_alike (tag : String) :
    K.StatesAlike n Same (enumeration tag) (enumeration tag) := by
  refine StatesAlike.ahead_bind fun l b b' _ hb hb' => ?_
  refine (enumerators_alike tag none (Nat.lt_succ_of_le hb) (Nat.lt_succ_of_le hb')).same_bind
    fun r list _ => ?_
  refine (StatesAlike.read .expectKind).bind ?_
  rintro r₁ name name' - ⟨hname, -⟩
  rw [hname.matched.text]
  exact (StatesAlike.read .expect).bind fun _ _ _ _ _ => .pure rfl

end SdkBindings.Comparison
