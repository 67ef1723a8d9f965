/-!
# Outcomes of computations in a row

Computations that may fail, with or without a state that outlives a failure, succeed only if each of
their parts does.  These are the rules by which a computation is taken apart into its parts.
-/

namespace SdkBindings

variable {ε σ α β γ : Type}

/-! ## Without a state -/

/-- A computation that succeeds went through its first part. -/
theorem bind_eq_ok {m : Except ε α} {k : α → Except ε β} {b : β} (h : m >>= k = .ok b) :
    ∃ a, m = .ok a ∧ k a = .ok b := by
  cases m with
  | error e => cases h
  | ok a => exact ⟨a, rfl, h⟩

/-- A computation that fails does so in its first part or after it. -/
theorem bind_eq_error {m : Except ε α} {k : α → Except ε β} {e : ε} (h : m >>= k = .error e) :
    m = .error e ∨ ∃ a, m = .ok a ∧ k a = .error e := by
  cases m with
  | error e' =>
    cases h
    exact .inl rfl
  | ok a => exact .inr ⟨a, rfl, h⟩

/-- A computation that cannot go wrong after its first part fails with the error of that part. -/
theorem eq_error_of_bind_pure {m : Except ε α} {f : α → β} {e : ε}
    (h : (m >>= fun a => pure (f a)) = .error e) : m = .error e := by
  obtain hm | ⟨a, -, hpure⟩ := bind_eq_error h
  · exact hm
  · cases hpure

/-- A computation has the result that is left of it when failures are forgotten. -/
theorem eq_ok_of_toOption {m : Except ε α} {a : α} (h : m.toOption = some a) : m = .ok a := by
  cases m with
  | error e => cases h
  | ok b => exact congrArg Except.ok (Option.some.inj h)

/-- A computation without a result fails. -/
theorem exists_error_of_toOption {m : Except ε α} (h : m.toOption.isNone = true) :
    ∃ e, m = .error e := by
  cases m with
  | error e => exact ⟨e, rfl⟩
  | ok a => cases h

/-- A result is no failure. -/
theorem not_ok_fails (a : α) : ¬ ∃ e, (.ok a : Except ε α) = .error e := by
  rintro ⟨e, h⟩
  cases h

/-- Of two computations in a row either the first one fails or the second one does. -/
theorem bind_fails {m : Except ε α} {k : α → Except ε β} :
    (∃ e, m >>= k = .error e) ↔ (∃ e, m = .error e) ∨ ∃ a, m = .ok a ∧ ∃ e, k a = .error e := by
  cases m with
  | error e => exact iff_of_true ⟨e, rfl⟩ (.inl ⟨e, rfl⟩)
  | ok a =>
    refine ⟨fun h => .inr ⟨a, rfl, h⟩, ?_⟩
    rintro (⟨e, h⟩ | ⟨a', ha, h⟩)
    · cases h
    · cases ha
      exact h

/-- A computation that cannot go wrong after its first part fails only in it. -/
theorem bind_pure_fails {m : Except ε α} {f : α → β} :
    (∃ e, (m >>= fun a => pure (f a)) = .error e) ↔ ∃ e, m = .error e := by
  rw [bind_fails]
  refine ⟨?_, .inl⟩
  rintro (h | ⟨a, -, h⟩)
  · exact h
  · exact (not_ok_fails _ h).elim

/-- Two computations, neither of which needs the other, fail if one of them does. -/
theorem bind_bind_fails {m : Except ε α} {k : Except ε β} {f : α → β → γ} :
    (∃ e, (do let a ← m; let b ← k; pure (f a b)) = .error e) ↔
      (∃ e, m = .error e) ∨ ∃ e, k = .error e := by
  rw [bind_fails]
  cases m with
  | error e => exact iff_of_true (.inl ⟨e, rfl⟩) (.inl ⟨e, rfl⟩)
  | ok a =>
    refine or_congr_right ⟨?_, fun h => ⟨a, rfl, bind_pure_fails.mpr h⟩⟩
    rintro ⟨_, -, h⟩
    exact bind_pure_fails.mp h

/-! ## With a state -/

/-- A computation after a computation: the second one starts in the state that the first one
leaves. -/
theorem run_bind (m : ExceptT ε (StateM σ) α) (k : α → ExceptT ε (StateM σ) β) (s : σ) :
    (m >>= k).run s =
      match m.run s with
      | (.ok a, s') => (k a).run s'
      | (.error e, s') => (.error e, s') := by
  rw [ExceptT.run_bind]
  show (StateT.bind m.run _) s = _
  unfold StateT.bind
  show (match m.run s with | (a, s) => _) = _
  rcases m.run s with ⟨_ | a, s'⟩ <;> rfl

/-- A computation that succeeds went through its first part. -/
theorem run_bind_ok {m : ExceptT ε (StateM σ) α} {k : α → ExceptT ε (StateM σ) β} {s s'' : σ}
    {b : β} (h : (m >>= k).run s = (.ok b, s'')) :
    ∃ a s', m.run s = (.ok a, s') ∧ (k a).run s' = (.ok b, s'') := by
  rw [run_bind] at h
  rcases hm : m.run s with ⟨e | a, s'⟩ <;> rw [hm] at h
  · cases h
  · exact ⟨a, s', rfl, h⟩

/-- A computation that asks for the state goes on with the one it starts in. -/
theorem get_bind (k : σ → StateT σ (Except ε) α) (s : σ) : (get >>= k) s = k s s := rfl

/-- A result by itself leaves the state alone. -/
theorem run_pure_ok {a b : α} {s s' : σ}
    (h : (pure a : ExceptT ε (StateM σ) α).run s = (.ok b, s')) : b = a ∧ s' = s := by
  cases h
  exact ⟨rfl, rfl⟩

end SdkBindings
