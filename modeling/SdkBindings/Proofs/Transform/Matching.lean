import Mathlib.Logic.ExistsUnique
import SdkBindings.Grammar.Headers
import SdkBindings.Proofs.Transform.Fields

/-!
# Which lengths and arrays a list of fields pairs

Whether a field is the length of a neighbour depends on how the two are declared, so the pairs of a
list can be read off before it is walked over (`Takes`).  The walk marks the two sides of each pair and
nothing else (`pairFields_marks`).  It does not look whether a field has its part in a pair already: the
array of one pair may be the length of the next, and an array may be taken from both sides.  So the
marks are those of a matching exactly when no two pairs share a field (`pairFields_matching`).

The proof follows the walk.  The step of a field settles everything about it but one thing: the field
after it may still mark it as an array.  `Becomes` says what is settled, `Marked` what may be added, and
`Outcome` puts both together for a list.
-/

namespace SdkBindings.Transform

/-! ## The pairs of a list -/

/-- Whether a field is the length of its neighbour on a side. -/
def takes (side : Rules.Side) (f : Field) (neighbour : Option Field) : Bool :=
  companionSide? f = some side && neighbour.any isPairable

/-- A field of a list is the length of another one, which stands next to it. -/
def Takes (fields : List Field) (i j : Nat) : Prop :=
  ∃ f ∈ fields[i]?, (j = i + 1 ∧ takes .next f fields[j]? = true) ∨
    (i = j + 1 ∧ takes .previous f fields[j]? = true)

instance (fields : List Field) (i j : Nat) : Decidable (Takes fields i j) :=
  inferInstanceAs (Decidable (∃ f ∈ fields[i]?, _))

/-- No two pairs of a list share a field. -/
def IsDisjoint (fields : List Field) : Prop :=
  ∀ i j i' j', Takes fields i j → Takes fields i' j' →
    i = i' ∨ i = j' ∨ j = i' ∨ j = j' → i = i' ∧ j = j'

/-- The field in front of a place, where a list stands after the field `first`. -/
def fieldBefore (first : Option Field) (fields : List Field) : Nat → Option Field
  | 0 => first
  | i + 1 => fields[i]?

/-- A field is the length of its neighbour on one side only. -/
theorem takes_unique {side side' : Rules.Side} {f : Field} {neighbour neighbour' : Option Field}
    (h : takes side f neighbour = true) (h' : takes side' f neighbour' = true) : side = side' := by
  simp only [takes, Bool.and_eq_true, decide_eq_true_eq] at h h'
  exact Option.some.inj (h.1.symm.trans h'.1)

/-- A field that takes its neighbour on one side does not take the other one. -/
theorem takes_eq_false {side side' : Rules.Side} {f : Field} {neighbour : Option Field}
    (h : takes side f neighbour = true) (hside : side ≠ side') (neighbour' : Option Field) :
    takes side' f neighbour' = false :=
  Bool.eq_false_iff.mpr fun h' => hside (takes_unique h h')

/-- A method is no length. -/
theorem takes_method {f : Field} (h : f.type.shape = .functionPointer) (side : Rules.Side)
    (neighbour : Option Field) : takes side f neighbour = false := by
  simp [takes, companionSide?, h]

/-- A method is no array. -/
theorem isPairable_method {f : Field} (h : f.type.shape = .functionPointer) : isPairable f = false := by
  simp [isPairable, CType.isPointer, h]

/-- Nothing takes a method. -/
theorem takes_eq_false_of_method {f : Field} (h : f.type.shape = .functionPointer) (side : Rules.Side)
    (count : Field) : takes side count (some f) = false := by
  simp [takes, isPairable_method h]

/-- A field is a length in a pair when it takes one of its neighbours. -/
theorem exists_takes_iff {fields : List Field} {i : Nat} {f : Field} (hf : fields[i]? = some f) :
    (∃ j, Takes fields i j) ↔
      (takes .next f fields[i + 1]? || takes .previous f (fieldBefore none fields i)) = true := by
  rw [Bool.or_eq_true]
  constructor
  · rintro ⟨j, f', hf', h⟩
    cases hf.symm.trans hf'
    obtain ⟨rfl, h⟩ | ⟨rfl, h⟩ := h
    · exact .inl h
    · exact .inr h
  · rintro (h | h)
    · exact ⟨i + 1, f, hf, .inl ⟨rfl, h⟩⟩
    · cases i with
      | zero => simp [takes, fieldBefore] at h
      | succ j => exact ⟨j, f, hf, .inr ⟨rfl, h⟩⟩

/-- A field is an array in a pair when one of its neighbours takes it. -/
theorem exists_takes_to_iff {fields : List Field} {j : Nat} {f : Field} (hf : fields[j]? = some f) :
    (∃ i, Takes fields i j) ↔
      ((fieldBefore none fields j).any (takes .next · (some f)) ||
        fields[j + 1]?.any (takes .previous · (some f))) = true := by
  rw [Bool.or_eq_true, Option.any_eq_true, Option.any_eq_true]
  constructor
  · rintro ⟨i, count, hcount, ⟨rfl, h⟩ | ⟨rfl, h⟩⟩
    · exact .inl ⟨count, hcount, hf ▸ h⟩
    · exact .inr ⟨count, hcount, hf ▸ h⟩
  · rintro (⟨count, hcount, h⟩ | ⟨count, hcount, h⟩)
    · cases j with
      | zero => cases hcount
      | succ i => exact ⟨i, count, hcount, .inl ⟨rfl, hf ▸ h⟩⟩
    · exact ⟨j + 1, count, hcount, .inr ⟨rfl, hf ▸ h⟩⟩

namespace Takes

variable {fields : List Field} {i j : Nat}

/-- A length and its array are neighbours. -/
theorem adjacent (h : Takes fields i j) : j = i + 1 ∨ i = j + 1 := by
  obtain ⟨f, -, ⟨rfl, -⟩ | ⟨rfl, -⟩⟩ := h
  · exact .inl rfl
  · exact .inr rfl

/-- No field is the length of itself. -/
theorem ne (h : Takes fields i j) : i ≠ j := by
  have := h.adjacent
  omega

/-- A length is a field of the list. -/
theorem exists_length (h : Takes fields i j) : ∃ f, fields[i]? = some f := by
  obtain ⟨f, hf, -⟩ := h
  exact ⟨f, hf⟩

/-- An array is a field of the list. -/
theorem exists_array (h : Takes fields i j) : ∃ f, fields[j]? = some f := by
  obtain ⟨f, -, h⟩ := h
  have hany : fields[j]?.any isPairable = true := by
    obtain ⟨-, h⟩ | ⟨-, h⟩ := h
    · exact (Bool.and_eq_true_iff.mp h).2
    · exact (Bool.and_eq_true_iff.mp h).2
  obtain ⟨f', hf', -⟩ := (Option.any_eq_true ..).mp hany
  exact ⟨f', hf'⟩

/-- A length belongs to one array only. -/
theorem unique {j' : Nat} (h : Takes fields i j) (h' : Takes fields i j') : j = j' := by
  obtain ⟨f, hf, h⟩ := h
  obtain ⟨f', hf', h'⟩ := h'
  cases hf.symm.trans hf'
  obtain ⟨hj, h⟩ | ⟨hj, h⟩ := h <;> obtain ⟨hj', h'⟩ | ⟨hj', h'⟩ := h'
  · omega
  · cases takes_unique h h'
  · cases takes_unique h h'
  · omega

/-- A pair lies inside of its list. -/
theorem lt (h : Takes fields i j) : i < fields.length ∧ j < fields.length := by
  obtain ⟨f, hf⟩ := h.exists_length
  obtain ⟨f', hf'⟩ := h.exists_array
  exact ⟨(List.getElem?_eq_some_iff.mp hf).1, (List.getElem?_eq_some_iff.mp hf').1⟩

end Takes

/-- Only the places of the list matter. -/
theorem isDisjoint_iff (fields : List Field) : IsDisjoint fields ↔
    ∀ i j i' j' : Fin fields.length, Takes fields i j → Takes fields i' j' →
      i = i' ∨ i = j' ∨ j = i' ∨ j = j' → i = i' ∧ j = j' := by
  simp only [Fin.ext_iff]
  exact ⟨fun h i j i' j' => h i j i' j', fun h i j i' j' htakes htakes' =>
    h ⟨i, htakes.lt.1⟩ ⟨j, htakes.lt.2⟩ ⟨i', htakes'.lt.1⟩ ⟨j', htakes'.lt.2⟩ htakes htakes'⟩

instance (fields : List Field) : Decidable (IsDisjoint fields) :=
  decidable_of_iff' _ (isDisjoint_iff fields)

/-! ## What happens to one field -/

/-- A field, marked as an array or not.  A mark may come with the type of the elements. -/
structure Marked (asArray : Bool) (f g : Field) : Prop where
  /-- The name stays. -/
  name : g.name = f.name
  /-- So does the mark of a length. -/
  isLength : g.isLength = f.isLength
  /-- What may be an array still may be one. -/
  isPairable : isPairable g = isPairable f
  /-- The type keeps its shape. -/
  shape : g.type.shape = f.type.shape
  /-- The mark is added to the one that is there. -/
  isArray : g.isArray = (f.isArray || asArray)
  /-- Without the mark nothing changes. -/
  eq_self : asArray = false → g = f

/-- A field that is not marked. -/
theorem Marked.refl (f : Field) : Marked false f f :=
  ⟨rfl, rfl, rfl, rfl, (Bool.or_false _).symm, fun _ => rfl⟩

/-- A field that may not be there and is not marked. -/
theorem Marked.rel_refl (f : Option Field) : Option.Rel (Marked false) f f := by
  cases f with
  | none => exact .none
  | some f => exact .some (.refl f)

/-- An array with the type of its elements is marked. -/
theorem marked_withElementType (f : Field) (expr : String) : Marked true f (withElementType f expr) :=
  ⟨rfl, rfl, rfl, rfl, (Bool.or_true _).symm, nofun⟩

/-- A mark does not change what a field may be the length of. -/
theorem Marked.companionSide? {b : Bool} {f g : Field} (h : Marked b f g) :
    companionSide? g = companionSide? f := by
  rw [Transform.companionSide?, Transform.companionSide?, h.shape, h.isLength, h.name]

/-- Pairing that is not stopped names the length after the array and marks the array. -/
theorem pair_spec {prefixes : List String} {owner : String} {count array : Field}
    (h : (pair prefixes owner count array).failure = none) :
    ∃ array', (pair prefixes owner count array).value = (asLength count array.name, array') ∧
      Marked true array array' := by
  unfold pair at h ⊢
  split at h
  · exact ⟨_, rfl, marked_withElementType array _⟩
  · cases h
  · cases h

variable {prefixes : List String} {owner : String}

/-- What a step that is not stopped does: it pairs inside a method, it pairs the field with one of its
neighbours, or it leaves all three as they are. -/
theorem pairStep_cases {previous next : Option Field} {current : Inside}
    (h : (pairStep prefixes owner previous current next).failure = none) :
    (current.field.type.shape = .functionPointer ∧ current.change.failure = none ∧
      (pairStep prefixes owner previous current next).value =
        (previous, current.change.value, next)) ∨
    (∃ n n', next = some n ∧ takes .next current.field next = true ∧ Marked true n n' ∧
      (pairStep prefixes owner previous current next).value =
        (previous, asLength current.field n.name, some n')) ∨
    (∃ p p', previous = some p ∧ takes .previous current.field previous = true ∧ Marked true p p' ∧
      (pairStep prefixes owner previous current next).value =
        (some p', asLength current.field p.name, next)) ∨
    (current.field.type.shape ≠ .functionPointer ∧ takes .next current.field next = false ∧
      takes .previous current.field previous = false ∧
      (pairStep prefixes owner previous current next).value = (previous, current.field, next)) := by
  unfold pairStep at h ⊢
  by_cases hmethod : current.field.type.shape = .functionPointer
  · simp only [if_pos hmethod] at h ⊢
    exact .inl ⟨hmethod, h, rfl⟩
  simp only [if_neg hmethod] at h ⊢
  cases hside : companionSide? current.field with
  | none =>
    exact .inr (.inr (.inr ⟨hmethod, by simp [takes, hside], by simp [takes, hside], rfl⟩))
  | some side =>
    cases side with
    | next =>
      have hprevious : takes .previous current.field previous = false := by simp [takes, hside]
      cases next with
      | none => exact .inr (.inr (.inr ⟨hmethod, by simp [takes], hprevious, by cases previous <;> rfl⟩))
      | some n =>
        simp only [hside] at h ⊢
        split at h
        · rename_i hn
          rw [if_pos hn]
          obtain ⟨n', hvalue, hn'⟩ := pair_spec h
          refine .inr (.inl ⟨n, n', rfl, by simp [takes, hside, hn], hn', ?_⟩)
          simp only [Change.map, hvalue]
        · rename_i hn
          rw [if_neg hn]
          exact .inr (.inr (.inr ⟨hmethod, by simp [takes, hn], hprevious, rfl⟩))
    | previous =>
      have hnext : takes .next current.field next = false := by simp [takes, hside]
      cases previous with
      | none => exact .inr (.inr (.inr ⟨hmethod, hnext, by simp [takes], by cases next <;> rfl⟩))
      | some p =>
        simp only [hside] at h ⊢
        split at h
        · rename_i hp
          rw [if_pos hp]
          obtain ⟨p', hvalue, hp'⟩ := pair_spec h
          refine .inr (.inr (.inl ⟨p, p', rfl, by simp [takes, hside, hp], hp', ?_⟩))
          simp only [Change.map, hvalue]
        · rename_i hp
          rw [if_neg hp]
          exact .inr (.inr (.inr ⟨hmethod, hnext, by simp [takes, hp], rfl⟩))

/-- The change inside a method pairs its parameters. -/
theorem insideField_method {f : Field} (h : f.type.shape = .functionPointer) :
    (insideField prefixes owner f).change =
      (pairFields prefixes (owner ++ "." ++ f.name) f.type.parameters).map fun parameters =>
        { f with type := { f.type with parameters } } := by
  obtain ⟨name, ⟨shape, _⟩, _⟩ := f
  cases h
  rfl

/-- What a field between two others has become, up to the mark of an array.  The field in front of it
has become `previous`. -/
structure Becomes (prefixes : List String) (owner : String) (before : Option Field) (f : Field)
    (after previous : Option Field) (g : Field) : Prop where
  /-- It is a length if it takes a neighbour. -/
  isLength : g.isLength = (takes .next f after || takes .previous f before)
  /-- The field after it lends its declared name, since its own step is still to come. -/
  name_next : takes .next f after = true → after.map Field.name = some g.name
  /-- The field in front of it lends the name that it ends up with. -/
  name_previous : takes .previous f before = true → previous.map Field.name = some g.name
  /-- Otherwise it keeps its name. -/
  name_self : takes .next f after = false → takes .previous f before = false → g.name = f.name
  /-- The parameters of a method are paired, and nothing else changes about it. -/
  method : f.type.shape = .functionPointer →
    (pairFields prefixes (owner ++ "." ++ f.name) f.type.parameters).failure = none ∧
      g = { f with type := { f.type with
        parameters := (pairFields prefixes (owner ++ "." ++ f.name) f.type.parameters).value } }

/-- A field stays what it has become when it is marked, and when the field in front of it is. -/
theorem Becomes.marked {before after previous previous' : Option Field} {f g g' : Field} {b b' : Bool}
    (h : Becomes prefixes owner before f after previous g)
    (hprevious : Option.Rel (Marked b) previous previous') (hg : Marked b' g g')
    (hmethod : f.type.shape = .functionPointer → b' = false) :
    Becomes prefixes owner before f after previous' g' where
  isLength := hg.isLength.trans h.isLength
  name_next hnext := (h.name_next hnext).trans (congrArg some hg.name.symm)
  name_previous hbefore := by
    have hname : previous'.map Field.name = previous.map Field.name := by
      cases hprevious with
      | none => rfl
      | some hmark => exact congrArg some hmark.name
    rw [hname, h.name_previous hbefore, hg.name]
  name_self hnext hbefore := hg.name.trans (h.name_self hnext hbefore)
  method hf := by
    rw [hg.eq_self (hmethod hf)]
    exact h.method hf

/-- A method becomes the method with its parameters paired. -/
theorem becomes_method {f : Field} (hf : f.type.shape = .functionPointer) (hlength : f.isLength = false)
    (h : (insideField prefixes owner f).change.failure = none) (before after previous : Option Field) :
    Becomes prefixes owner before f after previous (insideField prefixes owner f).change.value := by
  rw [insideField_method hf] at h ⊢
  refine ⟨?_, ?_, ?_, fun _ _ => rfl, fun _ => ⟨h, rfl⟩⟩
  · rw [takes_method hf, takes_method hf]
    exact hlength
  · intro hnext
    cases (takes_method hf .next after).symm.trans hnext
  · intro hprevious
    cases (takes_method hf .previous before).symm.trans hprevious

/-- A field that takes the one after it becomes a length with its name. -/
theorem becomes_next {f c n : Field} (h : takes .next f (some n) = true) (before previous : Option Field) :
    Becomes prefixes owner before f (some n) previous (asLength c n.name) where
  isLength := by simp [asLength, h]
  name_next _ := rfl
  name_previous hprevious := by cases takes_unique h hprevious
  name_self hnext := by cases h.symm.trans hnext
  method hf := by cases h.symm.trans (takes_method hf .next _)

/-- A field that takes the one in front of it becomes a length with its name. -/
theorem becomes_previous {before : Option Field} {f c p : Field} (h : takes .previous f before = true)
    (after : Option Field) :
    Becomes prefixes owner before f after (some p) (asLength c p.name) where
  isLength := by simp [asLength, h]
  name_next hnext := by cases takes_unique h hnext
  name_previous _ := rfl
  name_self _ hprevious := by cases h.symm.trans hprevious
  method hf := by cases h.symm.trans (takes_method hf .previous _)

/-- A field that takes neither of its neighbours stays as it is, but for a mark. -/
theorem becomes_self {before after : Option Field} {f c : Field} {b : Bool}
    (hf : f.type.shape ≠ .functionPointer) (hlength : f.isLength = false) (hc : Marked b f c)
    (hnext : takes .next f after = false) (hbefore : takes .previous f before = false)
    (previous : Option Field) : Becomes prefixes owner before f after previous c where
  isLength := by rw [hc.isLength, hlength, hnext, hbefore, Bool.or_false]
  name_next h := by cases hnext.symm.trans h
  name_previous h := by cases hbefore.symm.trans h
  name_self _ _ := hc.name
  method h := absurd h hf

/-- What a field that is not marked becomes in its own step, once the field in front of it had
its. -/
theorem pairStep_becomes {before previous : Option Field} (after : Option Field) {f c : Field}
    (hunmarked : f.isArray = false ∧ f.isLength = false)
    (hprevious : previous.any isPairable = before.any isPairable)
    (hc : Marked (before.any (takes .next · (some f))) f c)
    (h : (pairStep prefixes owner previous ⟨c, (insideField prefixes owner f).change⟩ after).failure =
      none) :
    ∃ p g n, (pairStep prefixes owner previous ⟨c, (insideField prefixes owner f).change⟩
        after).value = (p, g, n) ∧
      Option.Rel (Marked (takes .previous f before)) previous p ∧
      Option.Rel (Marked (takes .next f after)) after n ∧
      Becomes prefixes owner before f after previous g ∧ isPairable g = isPairable f ∧
      g.isArray = before.any (takes .next · (some f)) := by
  have htakes (side : Rules.Side) (neighbour : Option Field) :
      takes side c neighbour = takes side f neighbour := by
    rw [takes, takes, hc.companionSide?]
  have hbefore : takes .previous f previous = takes .previous f before := by
    rw [takes, takes, hprevious]
  have hisArray : c.isArray = before.any (takes .next · (some f)) := by
    rw [hc.isArray, hunmarked.1, Bool.false_or]
  obtain ⟨hmethod, hinside, hvalue⟩ | ⟨n, n', rfl, htake, hn, hvalue⟩ | ⟨p, p', rfl, htake, hp, hvalue⟩ |
    ⟨hmethod, hnext, hnone, hvalue⟩ := pairStep_cases h
  · have hf : f.type.shape = .functionPointer := hc.shape ▸ hmethod
    have hmark : before.any (takes .next · (some f)) = false := by
      simp [takes_eq_false_of_method hf]
    have hself : c = f := hc.eq_self hmark
    refine ⟨_, _, _, hvalue, ?_, ?_, becomes_method hf hunmarked.2 hinside .., ?_, ?_⟩
    · exact takes_method hf .previous before ▸ Marked.rel_refl previous
    · exact takes_method hf .next after ▸ Marked.rel_refl after
    · rw [insideField_method hf]
      rfl
    · rw [insideField_method hf, ← hisArray, hself]
      rfl
  · rw [htakes] at htake
    have hnone : takes .previous f before = false := takes_eq_false htake (by decide) before
    exact ⟨_, _, _, hvalue, hnone ▸ Marked.rel_refl previous, htake ▸ .some hn,
      becomes_next htake before previous, hc.isPairable, hisArray⟩
  · rw [htakes, hbefore] at htake
    have hnone : takes .next f after = false := takes_eq_false htake (by decide) after
    exact ⟨_, _, _, hvalue, htake ▸ .some hp, hnone ▸ Marked.rel_refl after,
      becomes_previous htake after, hc.isPairable, hisArray⟩
  · rw [htakes] at hnext hnone
    rw [hbefore] at hnone
    rw [hc.shape] at hmethod
    exact ⟨_, _, _, hvalue, hnone ▸ Marked.rel_refl previous, hnext ▸ Marked.rel_refl after,
      becomes_self hmethod hunmarked.2 hc hnext hnone previous, hc.isPairable, hisArray⟩

/-! ## What happens to a list -/

/-- What the fields of a list have become.  The list stands after a field that was `before` and has
become `previous`. -/
inductive Outcome (prefixes : List String) (owner : String) :
    Option Field → Option Field → List Field → List Field → Prop
  | nil (before previous : Option Field) : Outcome prefixes owner before previous [] []
  | cons {before previous : Option Field} {f g : Field} {fields paired : List Field}
      (hg : Becomes prefixes owner before f fields.head? previous g)
      (harray : g.isArray = (before.any (takes .next · (some f)) ||
        fields.head?.any (takes .previous · (some f))))
      (hrest : Outcome prefixes owner (some f) (some g) fields paired) :
      Outcome prefixes owner before previous (f :: fields) (g :: paired)

/-- No field gets lost. -/
theorem Outcome.length_eq {before previous : Option Field} {fields paired : List Field}
    (h : Outcome prefixes owner before previous fields paired) : paired.length = fields.length := by
  induction h with
  | nil => rfl
  | cons _ _ _ ih => rw [List.length_cons, List.length_cons, ih]

/-- What a single field has become depends on its neighbours. -/
theorem Outcome.get {before previous : Option Field} {fields paired : List Field}
    (h : Outcome prefixes owner before previous fields paired) {i : Nat} {f g : Field}
    (hf : fields[i]? = some f) (hg : paired[i]? = some g) :
    Becomes prefixes owner (fieldBefore before fields i) f fields[i + 1]?
        (fieldBefore previous paired i) g ∧
      g.isArray = ((fieldBefore before fields i).any (takes .next · (some f)) ||
        fields[i + 1]?.any (takes .previous · (some f))) := by
  induction h generalizing i with
  | nil => cases hf
  | @cons before previous f' g' fields paired hstep harray hrest ih =>
    cases i with
    | zero =>
      cases hf
      cases hg
      rw [List.head?_eq_getElem?] at hstep harray
      exact ⟨hstep, harray⟩
    | succ i =>
      have hrest := ih hf hg
      cases i with
      | zero => exact hrest
      | succ i => exact hrest

/-- The field of an inside. -/
theorem field_insideField (f : Field) : (insideField prefixes owner f).field = f := by
  cases f
  rfl

/-- A change that goes on and is not stopped was not stopped before. -/
theorem andThen_failure_eq_none {ε ν α β : Type} {c : Change ε ν α} {further : α → Change ε ν β}
    {stop : α → β} (h : (c.andThen further stop).failure = none) :
    c.failure = none ∧ (further c.value).failure = none ∧
      (c.andThen further stop).value = (further c.value).value := by
  unfold Change.andThen at h ⊢
  split at h
  · cases h
  · rename_i hc
    exact ⟨hc, h, rfl⟩

/-- **A walk that is not stopped** marks the two sides of each pair.  The field in front of the walk is
marked too, if the first one takes it. -/
theorem pairWalk_outcome (before previous : Option Field) {f c : Field} {fields : List Field}
    (hunmarked : ∀ x ∈ f :: fields, x.isArray = false ∧ x.isLength = false)
    (hprevious : previous.any isPairable = before.any isPairable)
    (hc : Marked (before.any (takes .next · (some f))) f c)
    (h : (pairWalk prefixes owner previous ⟨c, (insideField prefixes owner f).change⟩
      (insideFields prefixes owner fields)).failure = none) :
    ∃ p paired, (pairWalk prefixes owner previous ⟨c, (insideField prefixes owner f).change⟩
        (insideFields prefixes owner fields)).value = p.toList ++ paired ∧
      Option.Rel (Marked (takes .previous f before)) previous p ∧
      Outcome prefixes owner before p (f :: fields) paired := by
  induction fields generalizing before previous f c with
  | nil =>
    obtain ⟨p, g, n, hvalue, hp, -, hg, -, harray⟩ :=
      pairStep_becomes none (hunmarked f List.mem_cons_self) hprevious hc h
    refine ⟨p, [g], ?_, hp, .cons (hg.marked hp (.refl g) fun _ => rfl) ?_ (.nil _ _)⟩
    · rw [insideFields, pairWalk, Change.map, hvalue]
    · rw [harray]
      exact (Bool.or_false _).symm
  | cons f' fields ih =>
    rw [insideFields, pairWalk, field_insideField] at h ⊢
    obtain ⟨hstep, hfurther, hvalue⟩ := andThen_failure_eq_none h
    obtain ⟨p, g, n, hstepValue, hp, hn, hg, hpairable, harray⟩ :=
      pairStep_becomes _ (hunmarked f List.mem_cons_self) hprevious hc hstep
    rw [hstepValue] at hfurther hvalue
    obtain @⟨_, c', hc'⟩ := hn
    have hrest : ∀ x ∈ f' :: fields, x.isArray = false ∧ x.isLength = false :=
      fun x hx => hunmarked x (List.mem_cons_of_mem f hx)
    obtain ⟨g', paired, hwalk, hg', houtcome⟩ :=
      ih (some f) (some g) hrest (by simp [hpairable]) hc' hfurther
    obtain @⟨_, g', hmark⟩ := hg'
    have hmethod : f.type.shape = .functionPointer → takes .previous f' (some f) = false :=
      fun hf => takes_eq_false_of_method hf .previous f'
    refine ⟨p, g' :: paired, ?_, hp, .cons (hg.marked hp hmark hmethod) ?_ houtcome⟩
    · rw [hvalue]
      exact congrArg (p.toList ++ ·) hwalk
    · rw [hmark.isArray, harray]
      rfl

/-- Pairing a list that is not stopped marks the two sides of each pair. -/
theorem pairFields_outcome {fields : List Field}
    (hunmarked : ∀ f ∈ fields, f.isArray = false ∧ f.isLength = false)
    (h : (pairFields prefixes owner fields).failure = none) :
    Outcome prefixes owner none none fields (pairFields prefixes owner fields).value := by
  cases fields with
  | nil => exact .nil none none
  | cons f fields =>
    have hfirst : insideField prefixes owner f = ⟨f, (insideField prefixes owner f).change⟩ := by
      cases f
      rfl
    rw [pairFields, insideFields, pairList, hfirst] at h ⊢
    obtain ⟨p, paired, hvalue, hp, houtcome⟩ :=
      pairWalk_outcome none none hunmarked rfl (.refl f) h
    cases hp
    rw [hvalue]
    exact houtcome

/-! ## Matchings -/

/-- The marks of a list are those of a matching of lengths and arrays. -/
structure IsMatching (fields paired : List Field) : Prop where
  /-- No field is both an array and a length. -/
  apart : ∀ g ∈ paired, ¬(g.isArray = true ∧ g.isLength = true)
  /-- Next to a length stands an array that is no length and has the same name. -/
  length : ∀ (i : Nat) (g : Field), paired[i]? = some g → g.isLength = true →
    ∃ j a, (j = i + 1 ∨ i = j + 1) ∧ paired[j]? = some a ∧ a.isArray = true ∧ a.isLength = false ∧
      a.name = g.name
  /-- An array belongs to exactly one length. -/
  array : ∀ (j : Nat) (a : Field), paired[j]? = some a → a.isArray = true → ∃! i, Takes fields i j

section

variable {fields : List Field} (hunmarked : ∀ f ∈ fields, f.isArray = false ∧ f.isLength = false)
  (h : (pairFields prefixes owner fields).failure = none)

include hunmarked h

/-- The lengths are the fields that take a neighbour, the arrays those that are taken by one. -/
theorem pairFields_marks {i : Nat} {f g : Field} (hf : fields[i]? = some f)
    (hg : (pairFields prefixes owner fields).value[i]? = some g) :
    (g.isLength = true ↔ ∃ j, Takes fields i j) ∧ (g.isArray = true ↔ ∃ j, Takes fields j i) := by
  obtain ⟨hbecomes, harray⟩ := (pairFields_outcome hunmarked h).get hf hg
  rw [exists_takes_iff hf, exists_takes_to_iff hf, hbecomes.isLength, harray]
  exact ⟨.rfl, .rfl⟩

/-- Each field of the new list has become of one in the same place. -/
theorem exists_of_getElem?_value {i : Nat} {g : Field}
    (hg : (pairFields prefixes owner fields).value[i]? = some g) : ∃ f, fields[i]? = some f := by
  obtain ⟨hi, -⟩ := List.getElem?_eq_some_iff.mp hg
  rw [(pairFields_outcome hunmarked h).length_eq] at hi
  exact ⟨fields[i], List.getElem?_eq_getElem hi⟩

/-- What became of a field. -/
theorem exists_getElem?_value {i : Nat} {f : Field} (hf : fields[i]? = some f) :
    ∃ g, (pairFields prefixes owner fields).value[i]? = some g := by
  obtain ⟨hi, -⟩ := List.getElem?_eq_some_iff.mp hf
  rw [← (pairFields_outcome hunmarked h).length_eq] at hi
  exact ⟨_, List.getElem?_eq_getElem hi⟩

/-- A length has the name of the array that it takes, unless that is a length itself. -/
theorem pairFields_name {i j : Nat} {g a : Field} (htakes : Takes fields i j)
    (hg : (pairFields prefixes owner fields).value[i]? = some g)
    (ha : (pairFields prefixes owner fields).value[j]? = some a) (hlength : a.isLength = false) :
    a.name = g.name := by
  have houtcome := pairFields_outcome hunmarked h
  obtain ⟨f, hf, htake⟩ := htakes
  obtain ⟨hbecomes, -⟩ := houtcome.get hf hg
  obtain ⟨rfl, htake⟩ | ⟨rfl, htake⟩ := htake
  · obtain ⟨f', hf'⟩ := exists_of_getElem?_value hunmarked h ha
    obtain ⟨hbecomes', -⟩ := houtcome.get hf' ha
    have hname := hbecomes.name_next htake
    rw [hf'] at hname
    have hnone := hbecomes'.isLength.symm.trans hlength
    rw [Bool.or_eq_false_iff] at hnone
    exact (hbecomes'.name_self hnone.1 hnone.2).trans (Option.some.inj hname)
  · have hname := hbecomes.name_previous htake
    rw [fieldBefore, ha] at hname
    exact Option.some.inj hname

/-- Where no two pairs share a field, the marks are those of a matching. -/
theorem isMatching_of_isDisjoint (hdisjoint : IsDisjoint fields) :
    IsMatching fields (pairFields prefixes owner fields).value where
  apart g hg := by
    rintro ⟨harray, hlength⟩
    obtain ⟨i, hg⟩ := List.mem_iff_getElem?.mp hg
    obtain ⟨f, hf⟩ := exists_of_getElem?_value hunmarked h hg
    have hmarks := pairFields_marks hunmarked h hf hg
    obtain ⟨j, hj⟩ := hmarks.1.mp hlength
    obtain ⟨k, hk⟩ := hmarks.2.mp harray
    exact hj.ne (hdisjoint i j k i hj hk (.inr (.inl rfl))).2.symm
  length i g hg hlength := by
    obtain ⟨f, hf⟩ := exists_of_getElem?_value hunmarked h hg
    obtain ⟨j, hj⟩ := (pairFields_marks hunmarked h hf hg).1.mp hlength
    obtain ⟨f', hf'⟩ := hj.exists_array
    obtain ⟨a, ha⟩ := exists_getElem?_value hunmarked h hf'
    have hmarks := pairFields_marks hunmarked h hf' ha
    have hnone : a.isLength = false := by
      rw [Bool.eq_false_iff]
      intro hlength
      obtain ⟨k, hk⟩ := hmarks.1.mp hlength
      exact hj.ne (hdisjoint i j j k hj hk (.inr (.inr (.inl rfl)))).1
    exact ⟨j, a, hj.adjacent, ha, hmarks.2.mpr ⟨i, hj⟩, hnone, pairFields_name hunmarked h hj hg ha hnone⟩
  array j a ha harray := by
    obtain ⟨f, hf⟩ := exists_of_getElem?_value hunmarked h ha
    obtain ⟨i, hi⟩ := (pairFields_marks hunmarked h hf ha).2.mp harray
    exact ⟨i, hi, fun i' hi' => (hdisjoint i' j i j hi' hi (.inr (.inr (.inr rfl)))).1⟩

/-- Where the marks are those of a matching, no two pairs share a field. -/
theorem isDisjoint_of_isMatching (hmatching : IsMatching fields (pairFields prefixes owner fields).value) :
    IsDisjoint fields := by
  have happart {i j k : Nat} (hj : Takes fields i j) (hk : Takes fields k i) : False := by
    obtain ⟨f, hf⟩ := hj.exists_length
    obtain ⟨g, hg⟩ := exists_getElem?_value hunmarked h hf
    have hmarks := pairFields_marks hunmarked h hf hg
    exact hmatching.apart g (List.mem_of_getElem? hg) ⟨hmarks.2.mpr ⟨k, hk⟩, hmarks.1.mpr ⟨j, hj⟩⟩
  rintro i j i' j' htakes htakes' (rfl | rfl | rfl | rfl)
  · exact ⟨rfl, htakes.unique htakes'⟩
  · exact (happart htakes htakes').elim
  · exact (happart htakes' htakes).elim
  · obtain ⟨f, hf⟩ := htakes.exists_array
    obtain ⟨a, ha⟩ := exists_getElem?_value hunmarked h hf
    have harray := (pairFields_marks hunmarked h hf ha).2.mpr ⟨i, htakes⟩
    exact ⟨(hmatching.array j a ha harray).unique htakes htakes', rfl⟩

end

/-- **Lengths and arrays.**  Pairing a list of fields without marks, if it is not stopped, marks as
lengths the fields that take a neighbour and as arrays those that are taken by one, and it pairs the
parameters of each method in the same way.  The marks are those of a matching exactly when no two pairs
share a field, which is not looked after. -/
theorem pairFields_matching {prefixes : List String} {owner : String} {fields : List Field}
    (hunmarked : ∀ f ∈ fields, f.isArray = false ∧ f.isLength = false)
    (h : (pairFields prefixes owner fields).failure = none) :
    (pairFields prefixes owner fields).value.length = fields.length ∧
    (∀ (i : Nat) (f g : Field), fields[i]? = some f →
      (pairFields prefixes owner fields).value[i]? = some g →
      (g.isLength = true ↔ ∃ j, Takes fields i j) ∧ (g.isArray = true ↔ ∃ j, Takes fields j i) ∧
      (f.type.shape = .functionPointer →
        (pairFields prefixes (owner ++ "." ++ f.name) f.type.parameters).failure = none ∧
        g.type.parameters =
          (pairFields prefixes (owner ++ "." ++ f.name) f.type.parameters).value)) ∧
    (IsMatching fields (pairFields prefixes owner fields).value ↔ IsDisjoint fields) := by
  have houtcome := pairFields_outcome hunmarked h
  refine ⟨houtcome.length_eq, fun i f g hf hg => ?_, isDisjoint_of_isMatching hunmarked h,
    isMatching_of_isDisjoint hunmarked h⟩
  obtain ⟨hlength, harray⟩ := pairFields_marks hunmarked h hf hg
  refine ⟨hlength, harray, fun hmethod => ?_⟩
  obtain ⟨hreturns, hg⟩ := (houtcome.get hf hg).1.method hmethod
  exact ⟨hreturns, congrArg (fun g : Field => g.type.parameters) hg⟩

/-- A number of views, the views, and a buffer without a length. -/
def viewParameters : List Field :=
  [.plain "NumViews" (.basic "UINT"),
    { Field.plain "ppViews" (.pointer "ID3D11View" 2 (.basic "ID3D11View")) with hasCount := true },
    .plain "pBuffer" (.pointer "ID3D11Buffer" 1 (.basic "ID3D11Buffer"))]

/-- The number belongs to the views, and nothing else is paired. -/
theorem pairFields_matching_views :
    (∀ f ∈ viewParameters, f.isArray = false ∧ f.isLength = false) ∧
    (pairFields [] "F" viewParameters).failure = none ∧
    (pairFields [] "F" viewParameters).value.map (fun f => (f.name, f.isArray, f.isLength)) =
      [("ppViews", false, true), ("ppViews", true, false), ("pBuffer", false, false)] ∧
    IsMatching viewParameters (pairFields [] "F" viewParameters).value := by
  have hunmarked : ∀ f ∈ viewParameters, f.isArray = false ∧ f.isLength = false := by decide
  have hreturns : (pairFields [] "F" viewParameters).failure = none := by decide
  exact ⟨hunmarked, hreturns, by decide,
    (pairFields_matching hunmarked hreturns).2.2.mpr (by decide +kernel)⟩

/-- An array may also be taken from both sides. -/
example : ¬IsDisjoint (viewParameters.take 2 ++ [.plain "FeatureLevels" (.basic "UINT")]) := by
  decide

/-- The parameters of the functions that a header declares. -/
def declaredParameters (source : String) : List Field :=
  match (Grammar.readHeader true "test.h" source .start).1 with
  | .ok h => h.functions.flatMap Function.parameters
  | .error _ => []

/-- A parameter that is the array of the one in front of it may be, by its name, the length of the one
after it as well.  The first parameter is left with a name that no array has. -/
theorem pairFields_chained :
    let fields := declaredParameters
      "HRESULT WINAPI F( UINT NumA, __in_ecount(NumA) UINT *NumB, __in_ecount(NumB) UINT *pC );"
    (∀ f ∈ fields, f.isArray = false ∧ f.isLength = false) ∧
    (pairFields [] "F" fields).failure = none ∧
    (pairFields [] "F" fields).value.map (fun f => (f.name, f.isArray, f.isLength)) =
      [("NumB", false, true), ("pC", true, true), ("pC", true, false)] ∧
    ¬IsMatching fields (pairFields [] "F" fields).value := by
  intro fields
  obtain ⟨hunmarked, hreturns, hmarks⟩ : (∀ f ∈ fields, f.isArray = false ∧ f.isLength = false) ∧
      (pairFields [] "F" fields).failure = none ∧
      (pairFields [] "F" fields).value.map (fun f => (f.name, f.isArray, f.isLength)) =
        [("NumB", false, true), ("pC", true, true), ("pC", true, false)] := by
    decide +kernel
  refine ⟨hunmarked, hreturns, hmarks, fun hmatching => ?_⟩
  have hmem : ("pC", true, true) ∈
      (pairFields [] "F" fields).value.map fun f => (f.name, f.isArray, f.isLength) := by
    rw [hmarks]
    decide
  obtain ⟨g, hg, hshows⟩ := List.mem_map.mp hmem
  simp only [Prod.mk.injEq] at hshows
  exact hmatching.apart g hg hshows.2

end SdkBindings.Transform
