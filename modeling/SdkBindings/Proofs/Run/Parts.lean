import SdkBindings.Proofs.Files.Untouched
import SdkBindings.Run.Stages

/-!
# Parts of a run and the files

A part of a run on a tree starts with a journal and comes to a result, another journal and another tree
(`Action.on`).  Three things can be said of a part without running it: it leaves the tree as it is
(`Looks`), it leaves some locations untouched (`Keeps`), and what it comes to has a property if it
succeeds (`Yields`).  Each is kept by doing one part after the other and by the stages around a part, so
that it is shown along the text of the part.

What cannot be shown in this way is what a failure leaves behind: a part that fails does so in one of its
steps (`on_bind_error`), and at the step that writes a text something may have changed
(`on_write_error`).
-/

namespace SdkBindings

open SdkBindings.Tree

variable {α β : Type} {P : Location → Prop}

namespace Run

/-! ## Parts of a run -/

/-- What a part of a run comes to with a journal and a tree. -/
def Action.on (a : Action (StateM Tree) α) (j : Journal) (t : Tree) :
    (Except Failure α × Journal) × Tree :=
  a.run.run j t

/-- A part of a run that succeeds is followed by what comes next; one that fails is the end. -/
theorem on_bind (a : Action (StateM Tree) α) (k : α → Action (StateM Tree) β) (j : Journal)
    (t : Tree) :
    Action.on (a >>= k) j t =
      match Action.on a j t with
      | ((.ok x, j'), t') => Action.on (k x) j' t'
      | ((.error e, j'), t') => ((.error e, j'), t') := by
  show ExceptT.bindCont k (Action.on a j t).1.1 (Action.on a j t).1.2 (Action.on a j t).2 = _
  rcases Action.on a j t with ⟨⟨_ | x, j'⟩, t'⟩ <;> rfl

/-- A part of a run that succeeds is followed by what comes next. -/
theorem on_bind_of_ok {a : Action (StateM Tree) α} {k : α → Action (StateM Tree) β} {j j' : Journal}
    {t t' : Tree} {x : α} (h : Action.on a j t = ((.ok x, j'), t')) :
    Action.on (a >>= k) j t = Action.on (k x) j' t' := by
  rw [on_bind, h]

/-- A part of a run that fails is the end. -/
theorem on_bind_of_error {a : Action (StateM Tree) α} {k : α → Action (StateM Tree) β}
    {j j' : Journal} {t t' : Tree} {e : Failure} (h : Action.on a j t = ((.error e, j'), t')) :
    Action.on (a >>= k) j t = ((.error e, j'), t') := by
  rw [on_bind, h]

/-- A part of a run that fails does so in its first part or after it. -/
theorem on_bind_error {a : Action (StateM Tree) α} {k : α → Action (StateM Tree) β} {j j'' : Journal}
    {t t'' : Tree} {e : Failure} (h : Action.on (a >>= k) j t = ((.error e, j''), t'')) :
    Action.on a j t = ((.error e, j''), t'') ∨
      ∃ x j' t', Action.on a j t = ((.ok x, j'), t') ∧
        Action.on (k x) j' t' = ((.error e, j''), t'') := by
  rw [on_bind] at h
  rcases haction : Action.on a j t with ⟨⟨e' | x, j'⟩, t'⟩ <;> rw [haction] at h
  · cases h
    exact .inl rfl
  · exact .inr ⟨x, j', t', rfl, h⟩

/-- A part of a run between an opening and a closing comes to what it comes to by itself, unless the
closing breaks. -/
theorem on_around (opening : Journal → Journal)
    (closing : Option String → Journal → Option Failure × Journal) (a : Action (StateM Tree) α)
    (j : Journal) (t : Tree) :
    Action.on (around opening closing a) j t =
      match Action.on a (opening j) t with
      | ((result, j'), t') =>
        ((settled result (closing (failureText result) j').1, (closing (failureText result) j').2),
          t') :=
  rfl

/-- A part of a run that succeeds between an opening and a closing succeeds by itself. -/
theorem exists_of_on_around {opening : Journal → Journal}
    {closing : Option String → Journal → Option Failure × Journal} {a : Action (StateM Tree) α}
    {j j'' : Journal} {t t' : Tree} {x : α}
    (h : Action.on (around opening closing a) j t = ((.ok x, j''), t')) :
    ∃ j', Action.on a (opening j) t = ((.ok x, j'), t') := by
  rw [on_around] at h
  rcases haction : Action.on a (opening j) t with ⟨⟨result, j'⟩, t₁⟩
  rw [haction] at h
  obtain ⟨hresult, rfl⟩ := Prod.mk.injEq .. ▸ h
  cases hbroken : (closing (failureText result) j').1 with
  | none =>
    rw [hbroken] at hresult
    cases hresult
    exact ⟨j', rfl⟩
  | some e =>
    rw [hbroken] at hresult
    cases hresult

/-- A stage that is only timed has the result of what is inside it. -/
theorem on_timed {name : String} {a : Action (StateM Tree) α} {j j' : Journal} {t t' : Tree}
    {result : Except Failure α}
    (h : Action.on a { j with log := j.log ++ [starting name] } t = ((result, j'), t')) :
    ∃ j'', Action.on (timed name a) j t = ((result, j''), t') := by
  unfold timed
  rw [on_around, h]
  exact ⟨_, rfl⟩

/-- What is inside a stage that is only timed has the result of the stage. -/
theorem exists_of_on_timed {name : String} {a : Action (StateM Tree) α} {j j'' : Journal}
    {t t' : Tree} {result : Except Failure α}
    (h : Action.on (timed name a) j t = ((result, j''), t')) :
    ∃ j', Action.on a { j with log := j.log ++ [starting name] } t = ((result, j'), t') := by
  rcases hinside : Action.on a { j with log := j.log ++ [starting name] } t with ⟨⟨inner, j'⟩, t₁⟩
  obtain ⟨_, hsame⟩ := on_timed hinside
  rw [h] at hsame
  cases hsame
  exact ⟨j', rfl⟩

/-- A stage that is inside another one, or is the only one, succeeds with what is inside it. -/
theorem on_stage {name : String} {a : Action (StateM Tree) α} {j j' : Journal} {t t' : Tree} {x : α}
    (h : Action.on a ⟨j.log ++ (j.progress.enterStage name).2.1, (j.progress.enterStage name).2.2,
      j.symbols⟩ t = ((.ok x, j'), t')) (hstages : j'.progress.stages ≠ []) :
    ∃ j'', Action.on (stage name a) j t = ((.ok x, j''), t') := by
  have hleave : (Journal.leave (.stage name) none j').1 = none := by
    simp [Journal.leave, Progress.leave, hstages]
  have hget : Action.on (getThe Journal) j t = ((.ok j, j), t) := rfl
  refine ⟨(Journal.leave (.stage name) none j').2, ?_⟩
  unfold stage within
  rw [on_bind_of_ok hget]
  dsimp only
  rw [on_around, h]
  dsimp only [failureText, Progress.enterStage]
  rw [hleave]
  rfl

/-- An operation outside of the run. -/
theorem on_attemptWith {ε : Type} (wrap : ε → Failure) {operation : StateM Tree (Except ε α)}
    {result : Except ε α} (j : Journal) {t t' : Tree} (h : operation t = (result, t')) :
    Action.on (attemptWith wrap operation) j t = ((result.mapError wrap, j), t') := by
  show (((operation t).1.mapError wrap, j), (operation t).2) = _
  rw [h]

/-- The part of a run leaves the tree as it is. -/
def Looks (a : Action (StateM Tree) α) : Prop :=
  ∀ j t, (Action.on a j t).2 = t

theorem Looks.tree_eq {a : Action (StateM Tree) α} (ha : Looks a) {j j' : Journal} {t t' : Tree}
    {result : Except Failure α} (h : Action.on a j t = ((result, j'), t')) : t' = t := by
  have hlooks := ha j t
  rwa [h] at hlooks

theorem Looks.pure (x : α) : Looks (Pure.pure x) := fun _ _ => rfl

theorem Looks.throw (e : Failure) : Looks (MonadExcept.throw e : Action (StateM Tree) α) :=
  fun _ _ => rfl

theorem looks_report (entries : Log) : Looks (report entries) := fun _ _ => rfl

theorem looks_advance (f : Progress → Progress) : Looks (advance f) := fun _ _ => rfl

theorem looks_get : Looks (getThe Journal : Action (StateM Tree) Journal) := fun _ _ => rfl

theorem Looks.bind {a : Action (StateM Tree) α} {k : α → Action (StateM Tree) β} (ha : Looks a)
    (hk : ∀ x, Looks (k x)) : Looks (a >>= k) := by
  intro j t
  have hfirst := ha j t
  rw [on_bind]
  rcases haction : Action.on a j t with ⟨⟨e | x, j'⟩, t'⟩ <;> rw [haction] at hfirst
  · exact hfirst
  · exact (hk x j' t').trans hfirst

theorem Looks.around {opening : Journal → Journal}
    {closing : Option String → Journal → Option Failure × Journal} {a : Action (StateM Tree) α}
    (ha : Looks a) : Looks (Run.around opening closing a) :=
  fun j t => ha (opening j) t

theorem Looks.within {enter : Progress → Span × Log × Progress} {a : Action (StateM Tree) α}
    (ha : Looks a) : Looks (Run.within enter a) :=
  looks_get.bind fun _ => ha.around

theorem Looks.stage {name : String} {a : Action (StateM Tree) α} (ha : Looks a) :
    Looks (Run.stage name a) :=
  ha.within

theorem Looks.file {name : String} {a : Action (StateM Tree) α} (ha : Looks a) :
    Looks (Run.file name a) :=
  ha.within

theorem Looks.timed {name : String} {a : Action (StateM Tree) α} (ha : Looks a) :
    Looks (Run.timed name a) :=
  ha.around

theorem looks_attemptAt {path : Path} {operation : StateM Tree (Except FileFault α)}
    (h : ∀ t, (operation t).2 = t) : Looks (attemptAt path operation) :=
  fun _ t => h t

/-- The part of a run leaves the locations untouched. -/
def Keeps (P : Location → Prop) (a : Action (StateM Tree) α) : Prop :=
  ∀ j t location, P location → Untouched location t (Action.on a j t).2

theorem Looks.keeps {a : Action (StateM Tree) α} (h : Looks a) : Keeps P a := by
  intro j t location _
  rw [h]
  exact .refl location t

theorem Keeps.bind {a : Action (StateM Tree) α} {k : α → Action (StateM Tree) β} (ha : Keeps P a)
    (hk : ∀ x, Keeps P (k x)) : Keeps P (a >>= k) := by
  intro j t location hlocation
  have hfirst := ha j t location hlocation
  rw [on_bind]
  rcases haction : Action.on a j t with ⟨⟨e | x, j'⟩, t'⟩ <;> rw [haction] at hfirst
  · exact hfirst
  · exact hfirst.trans (hk x j' t' location hlocation)

theorem Keeps.around {opening : Journal → Journal}
    {closing : Option String → Journal → Option Failure × Journal} {a : Action (StateM Tree) α}
    (ha : Keeps P a) : Keeps P (Run.around opening closing a) :=
  fun j t location hlocation => ha (opening j) t location hlocation

theorem Keeps.within {enter : Progress → Span × Log × Progress} {a : Action (StateM Tree) α}
    (ha : Keeps P a) : Keeps P (Run.within enter a) :=
  looks_get.keeps.bind fun _ => ha.around

theorem Keeps.stage {name : String} {a : Action (StateM Tree) α} (ha : Keeps P a) :
    Keeps P (Run.stage name a) :=
  ha.within

theorem keeps_attemptWith {ε : Type} {wrap : ε → Failure} {operation : StateM Tree (Except ε α)}
    (h : Spares P operation) : Keeps P (attemptWith wrap operation) :=
  fun _ t location hlocation => h t location hlocation

theorem keeps_attempt {operation : StateM Tree (Except FileError α)} (h : Spares P operation) :
    Keeps P (attempt operation) :=
  keeps_attemptWith h

/-- A text that cannot be written leaves everything untouched, or a beginning of it in its file. -/
theorem on_write_error [Host] {path : Path} {text : String} {j j' : Journal} {t t' : Tree} {e : Failure}
    (h : Action.on (write access path text) j t = ((.error e, j'), t')) :
    ∃ fault, e = .unwritten path fault ∧
      ((∀ location, Untouched location t t') ∨
        (∀ f, fault ≠ .creation f) ∧
          ∃ location n, Holds path location ((Text.bytes text).take n) t t') := by
  rcases hwrite : access.writeText path text t with ⟨fault | _, t₁⟩ <;>
    rw [write, on_attemptWith _ j hwrite] at h <;> cases h
  exact ⟨fault, rfl, writeText_error hwrite⟩

/-! ## What parts of a run come to -/

variable {p : α → Prop} {q : β → Prop}

/-- The part of a run comes to something with a property if it succeeds. -/
def Yields (p : α → Prop) (a : Action (StateM Tree) α) : Prop :=
  ∀ j t x j' t', Action.on a j t = ((.ok x, j'), t') → p x

theorem Yields.pure {x : α} (h : p x) : Yields p (Pure.pure x) := by
  intro j t y j' t' hrun
  cases hrun
  exact h

theorem Yields.throw (e : Failure) : Yields p (MonadExcept.throw e : Action (StateM Tree) α) := by
  intro j t x j' t' hrun
  cases hrun

/-- Of what is not known anything about, nothing is said. -/
theorem Yields.any (a : Action (StateM Tree) α) : Yields (fun _ => True) a :=
  fun _ _ _ _ _ _ => trivial

theorem Yields.bind {a : Action (StateM Tree) α} {k : α → Action (StateM Tree) β} (ha : Yields p a)
    (hk : ∀ x, p x → Yields q (k x)) : Yields q (a >>= k) := by
  intro j t y j'' t'' hrun
  rw [on_bind] at hrun
  rcases haction : Action.on a j t with ⟨⟨e | x, j'⟩, t'⟩ <;> rw [haction] at hrun
  · cases hrun
  · exact hk x (ha j t x j' t' haction) j' t' y j'' t'' hrun

theorem Yields.around {opening : Journal → Journal}
    {closing : Option String → Journal → Option Failure × Journal} {a : Action (StateM Tree) α}
    (ha : Yields p a) : Yields p (Run.around opening closing a) := by
  intro j t x j'' t' hrun
  obtain ⟨j', haction⟩ := exists_of_on_around hrun
  exact ha _ _ _ _ _ haction

theorem Yields.within {enter : Progress → Span × Log × Progress} {a : Action (StateM Tree) α}
    (ha : Yields p a) : Yields p (Run.within enter a) :=
  (Yields.any _).bind fun _ _ => ha.around

theorem Yields.stage {name : String} {a : Action (StateM Tree) α} (ha : Yields p a) :
    Yields p (Run.stage name a) :=
  ha.within

theorem Yields.file {name : String} {a : Action (StateM Tree) α} (ha : Yields p a) :
    Yields p (Run.file name a) :=
  ha.within

theorem Yields.timed {name : String} {a : Action (StateM Tree) α} (ha : Yields p a) :
    Yields p (Run.timed name a) :=
  ha.around

end Run

end SdkBindings
