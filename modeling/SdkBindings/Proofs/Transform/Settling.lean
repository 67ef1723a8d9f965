import SdkBindings.Proofs.Transform.Repetition

/-!
# What each pass settles about a list of fields

A pass over a list of fields may be repeated, since a table of methods is dealt with once for every
struct that refers to it.  For each of the four passes over fields, this module says what the pass
makes of the fields of a list, in a form that the pass keeps when it is repeated: a field under another
name (`Renames`), a field with a resolved type (`Resolves`), a paired list (`ArePaired`) and a field
whose type is given up (`Erases`).  All of them keep the shape of a field, its name as a type and its
annotations.

Repeating is no matter for three of the passes, whose relations are transitive.  Pairing is repeated on
a list with marks.  There no field takes a neighbour any more, because a field that took one is marked as
a length and nothing new has come up for the others (`ArePaired.not_takes`), so nothing is left to be
done but inside of methods (`ArePaired.again`).
-/

namespace SdkBindings.Transform

/-! ## Normalization -/

/-- A field under another name, with other names inside of its type. -/
structure Renames (x y : Field) : Prop where
  /-- The annotations and marks stay. -/
  same : y = { x with name := y.name, type := y.type }
  /-- So do the parts of the type that decide how the field is treated. -/
  type : Keeps x.type y.type
  /-- There are no names inside of a pointer. -/
  pointer : x.type.shape = .pointer → y.type = x.type

theorem Renames.refl (x : Field) : Renames x x :=
  ⟨by cases x; rfl, ⟨rfl, rfl, rfl⟩, fun _ => rfl⟩

/-- What is kept twice is kept. -/
theorem Keeps.trans {t u v : CType} (h : Keeps t u) (h' : Keeps u v) : Keeps t v :=
  ⟨h'.1.trans h.1, h'.2.1.trans h.2.1, h'.2.2.trans h.2.2⟩

theorem Renames.trans {x y z : Field} (h : Renames x y) (h' : Renames y z) : Renames x z where
  same := by
    rw [h'.same, h.same]
  type := h.type.trans h'.type
  pointer hx := (h'.pointer (h.type.1.trans hx)).trans (h.pointer hx)

/-- Normalization renames a field. -/
theorem renames_normalizeField (f : String → String) (x : Field) : Renames x (normalizeField f x) := by
  obtain ⟨name, ⟨shape, _⟩, _⟩ := x
  cases shape <;> exact ⟨rfl, ⟨rfl, rfl, rfl⟩, by simp [normalizeField, normalizeType]⟩

/-- Normalizing a list of fields normalizes each of them. -/
theorem normalizeFields_eq_map (f : String → String) (xs : List Field) :
    normalizeFields f xs = xs.map (normalizeField f) := by
  induction xs with
  | nil => rfl
  | cons x xs ih => rw [normalizeFields, ih, List.map_cons]

/-- Related fields have the same shapes. -/
theorem sameShapes_of_forall₂ {R : Field → Field → Prop} (hR : ∀ x y, R x y → Keeps x.type y.type)
    {xs ys : List Field} (h : List.Forall₂ R xs ys) : SameShapes xs ys :=
  h.imp fun x y hxy => (hR x y hxy).1

/-- Normalization of a list of fields as a change. -/
abbrev normalizeChange (f : String → String) : Header.FieldChange Empty Empty :=
  fun _ fields => .done (normalizeFields f fields)

/-- Normalization goes inside of methods. -/
theorem goesInside_normalize (f : String → String) :
    GoesInside (normalizeChange f) fun _ => True := by
  intro owner ys i y _ _ hy hshape
  refine ⟨owner, normalizeField f y, ?_, rfl, ?_⟩
  · show (normalizeFields f ys)[i]? = _
    rw [normalizeFields_eq_map, List.getElem?_map, hy, Option.map_some]
  · obtain ⟨name, ⟨shape, _⟩, _⟩ := y
    cases hshape
    rfl

/-! ## Resolution -/

/-- The type leads to the same type. -/
def SameTarget (t u : CType) : Prop :=
  u.shape = t.shape ∧ u.ident = t.ident ∧ u.dimensions = t.dimensions

/-- The expression of a pointer depends on its target. -/
theorem innerPointer_of_sameTarget {t u : CType} (h : SameTarget t u) (prefixes : List String)
    (depth : Int) : innerPointer prefixes u depth = innerPointer prefixes t depth := by
  simp only [innerPointer, h.1, h.2.1, h.2.2]

/-- A field with a resolved type. -/
structure Resolves (prefixes : List String) (x y : Field) : Prop where
  /-- Nothing else changes. -/
  same : y = { x with type := y.type }
  /-- The type keeps the parts that decide how the field is treated. -/
  type : Keeps x.type y.type
  /-- A pointer has the expression for what it points to, and still points to it. -/
  pointer : x.type.shape = .pointer → ∀ u, x.type.inner = some u →
    y.type.expr = innerPointer prefixes u y.type.depth ∧ ∃ v, y.type.inner = some v ∧ SameTarget u v

section

variable {prefixes : List String}

theorem Resolves.trans {x y z : Field} (h : Resolves prefixes x y) (h' : Resolves prefixes y z) :
    Resolves prefixes x z where
  same := by
    rw [h'.same, h.same]
  type := h.type.trans h'.type
  pointer hx u hu := by
    obtain ⟨-, v, hv, hsame⟩ := h.pointer hx u hu
    obtain ⟨hexpr, w, hw, hsame'⟩ := h'.pointer (h.type.1.trans hx) v hv
    rw [hexpr, innerPointer_of_sameTarget hsame]
    exact ⟨rfl, w, hw, hsame'.1.trans hsame.1, hsame'.2.1.trans hsame.2.1, hsame'.2.2.trans hsame.2.2⟩

/-- Resolution leads to the same type. -/
theorem sameTarget_resolveType (t : CType) : SameTarget t (resolveType prefixes t).value := by
  obtain ⟨hshape, hident, -⟩ := resolveType_keeps prefixes t
  refine ⟨hshape, hident, ?_⟩
  obtain ⟨shape, ident, expr, dimensions, members, name, parameters, depth, inner⟩ := t
  cases shape with
  | basic => rfl
  | array => rfl
  | pointer =>
    simp only [resolveType, Change.andThen]
    split
    · rfl
    · split <;> rfl
  | union =>
    simp only [resolveType, Change.andThen]
    split <;> rfl
  | functionPointer =>
    simp only [resolveType, Change.andThen]
    split <;> rfl

/-- Resolution that does not stop gives a pointer the expression for what it points to. -/
theorem pointer_resolveType {t u : CType} (h : (resolveType prefixes t).failure = none)
    (hshape : t.shape = .pointer) (hinner : t.inner = some u) :
    (resolveType prefixes t).value.expr =
        innerPointer prefixes u (resolveType prefixes t).value.depth ∧
      ∃ v, (resolveType prefixes t).value.inner = some v ∧ SameTarget u v := by
  obtain ⟨shape, ident, expr, dimensions, members, name, parameters, depth, inner⟩ := t
  cases hshape
  cases hinner
  have hsame : SameTarget u (resolveType prefixes u).value := sameTarget_resolveType u
  rw [resolveType] at h ⊢
  obtain ⟨-, -, hvalue⟩ := andThen_failure_eq_none h
  rw [hvalue]
  exact ⟨innerPointer_of_sameTarget hsame prefixes depth, _, rfl, hsame⟩

/-- Resolution that does not stop resolves the type of a field. -/
theorem resolves_resolveField {x : Field} (h : (resolveField prefixes x).failure = none) :
    Resolves prefixes x (resolveField prefixes x).value := by
  obtain ⟨name, type, isOut, hasCount, isArray, isLength, isErased⟩ := x
  exact ⟨rfl, resolveType_keeps prefixes type, fun hshape u hinner => pointer_resolveType h hshape hinner⟩

/-- A list of fields is resolved field by field. -/
theorem resolveFields_eq_each (xs : List Field) :
    resolveFields prefixes xs = Change.each (resolveField prefixes) xs := by
  induction xs with
  | nil => rfl
  | cons x xs ih => rw [resolveFields, Change.each, ih]

/-- Resolution that does not stop resolves the types of all fields. -/
theorem resolves_resolveFields {xs : List Field} (h : (resolveFields prefixes xs).failure = none) :
    List.Forall₂ (Resolves prefixes) xs (resolveFields prefixes xs).value := by
  rw [resolveFields_eq_each] at h ⊢
  refine (forall₂_each h).imp fun x y hxy => ?_
  rw [hxy.2]
  exact resolves_resolveField hxy.1

/-- Resolution of a method that does not stop resolves its parameters. -/
theorem method_resolveType {t : CType} (h : (resolveType prefixes t).failure = none)
    (hshape : t.shape = .functionPointer) :
    (resolveFields prefixes t.parameters).failure = none ∧
      (resolveType prefixes t).value.parameters = (resolveFields prefixes t.parameters).value := by
  obtain ⟨shape, ident, expr, dimensions, members, name, parameters, depth, inner⟩ := t
  cases hshape
  rw [resolveType] at h ⊢
  obtain ⟨hparameters, -, hvalue⟩ := andThen_failure_eq_none h
  exact ⟨hparameters, congrArg CType.parameters hvalue⟩

/-- Resolution goes inside of methods. -/
theorem goesInside_resolve :
    GoesInside (fun _ fields => resolveFields prefixes fields) fun _ => True := by
  intro owner ys i y _ h hy hshape
  dsimp only at h ⊢
  rw [resolveFields_eq_each] at h ⊢
  obtain ⟨z, hz, hfield, rfl⟩ := exists_getElem?_of_forall₂ (forall₂_each h) hy
  refine ⟨owner, _, hz, ?_⟩
  obtain ⟨name, type, _⟩ := y
  exact method_resolveType hfield hshape

end

/-! ## Pairing -/

/-- What pairing leaves alone in a field, whatever pairs it is part of. -/
structure Retains (f g : Field) : Prop where
  /-- Annotations and the mark of a given-up type stay. -/
  same : g = { f with name := g.name, type := g.type, isArray := g.isArray, isLength := g.isLength }
  /-- So do the parts of the type that decide how the field is treated. -/
  type : Keeps f.type g.type
  /-- And what a pointer points to. -/
  inner : g.type.inner = f.type.inner
  /-- Only an array gets another expression. -/
  expr : g.isArray = false → f.isArray = false ∧ g.type.expr = f.type.expr

theorem Retains.refl (f : Field) : Retains f f :=
  ⟨by cases f; rfl, ⟨rfl, rfl, rfl⟩, rfl, fun h => ⟨h, rfl⟩⟩

theorem Retains.trans {f g k : Field} (h : Retains f g) (h' : Retains g k) : Retains f k where
  same := by
    rw [h'.same, h.same]
  type := h.type.trans h'.type
  inner := h'.inner.trans h.inner
  expr hk := by
    obtain ⟨hg, hexpr⟩ := h'.expr hk
    obtain ⟨hf, hexpr'⟩ := h.expr hg
    exact ⟨hf, hexpr.trans hexpr'⟩

/-- A field that may not be there is left alone as far as it is. -/
theorem Retains.rel_refl (f : Option Field) : Option.Rel Retains f f := by
  cases f with
  | none => exact .none
  | some f => exact .some (.refl f)

section

variable {prefixes : List String} {owner : String}

/-- The two fields of a pair. -/
theorem retains_pair (count array : Field) :
    Retains count (pair prefixes owner count array).value.1 ∧
      Retains array (pair prefixes owner count array).value.2 := by
  -- the array is marked, so nothing is asked of its type
  have harray {P : Prop} (h : true = false) : P := absurd h.symm Bool.false_ne_true
  unfold pair
  split
  · exact ⟨⟨rfl, ⟨rfl, rfl, rfl⟩, rfl, fun h => ⟨h, rfl⟩⟩, ⟨rfl, ⟨rfl, rfl, rfl⟩, rfl, harray⟩⟩
  · exact ⟨⟨rfl, ⟨rfl, rfl, rfl⟩, rfl, fun h => ⟨h, rfl⟩⟩, ⟨rfl, ⟨rfl, rfl, rfl⟩, rfl, harray⟩⟩
  · exact ⟨.refl _, .refl _⟩

/-- A field and its neighbours in one step. -/
theorem retains_pairStep (previous next : Option Field) {current : Inside}
    (hcurrent : current.field.type.shape = .functionPointer →
      Retains current.field current.change.value) :
    Option.Rel Retains previous (pairStep prefixes owner previous current next).value.1 ∧
      Retains current.field (pairStep prefixes owner previous current next).value.2.1 ∧
      Option.Rel Retains next (pairStep prefixes owner previous current next).value.2.2 := by
  have hrefl := Retains.rel_refl
  unfold pairStep
  extract_lets f
  split
  · rename_i hmethod
    exact ⟨hrefl _, hcurrent hmethod, hrefl _⟩
  split
  · split
    · exact ⟨hrefl _, (retains_pair ..).1, .some (retains_pair ..).2⟩
    · exact ⟨hrefl _, .refl _, hrefl _⟩
  · split
    · exact ⟨.some (retains_pair ..).2, (retains_pair ..).1, hrefl _⟩
    · exact ⟨hrefl _, .refl _, hrefl _⟩
  · exact ⟨hrefl _, .refl _, hrefl _⟩

/-- A step does nothing to a method next to the field. -/
theorem pairStep_next_method (previous : Option Field) (current : Inside) {n : Field}
    (h : n.type.shape = .functionPointer) :
    (pairStep prefixes owner previous current (some n)).value.2.2 = some n := by
  unfold pairStep
  extract_lets f
  split
  · rfl
  split
  · rename_i hnext
    cases hnext
    rw [if_neg (Bool.eq_false_iff.mp (isPairable_method h))]
    rfl
  · split <;> rfl
  · rfl

/-- Fields behind one that may be there. -/
theorem retains_toList_append {f g : Option Field} {xs ys : List Field}
    (h : Option.Rel Retains f g) (hrest : List.Forall₂ Retains xs ys) :
    List.Forall₂ Retains (f.toList ++ xs) (g.toList ++ ys) := by
  cases h with
  | none => exact hrest
  | some h => exact .cons h hrest

/-- A walk over fields. -/
theorem retains_pairWalk {previous : Option Field} {current : Inside} {rest : List Inside}
    (h : ∀ i ∈ current :: rest, i.field.type.shape = .functionPointer →
      Retains i.field i.change.value) :
    List.Forall₂ Retains (previous.toList ++ current.field :: rest.map Inside.field)
      (pairWalk prefixes owner previous current rest).value := by
  induction rest generalizing previous current with
  | nil =>
    obtain ⟨hp, hf, -⟩ := retains_pairStep previous none (h current List.mem_cons_self)
    exact retains_toList_append hp (.cons hf .nil)
  | cons next rest ih =>
    obtain ⟨hcurrent, hothers⟩ := List.forall_mem_cons.mp h
    obtain ⟨hnext, hrest⟩ := List.forall_mem_cons.mp hothers
    obtain ⟨hp, hf, hn⟩ := @retains_pairStep prefixes owner previous (some next.field) current hcurrent
    have hmethod := @pairStep_next_method prefixes owner previous current next.field
    rw [pairWalk]
    generalize pairStep prefixes owner previous current (some next.field) = step at hp hf hn hmethod ⊢
    obtain ⟨⟨p, f, n⟩, notes, failure⟩ := step
    obtain @⟨_, n, hn⟩ := hn
    cases failure with
    | some e =>
      have hsame : List.Forall₂ Retains (rest.map Inside.field) (rest.map Inside.field) :=
        List.forall₂_same.mpr fun x _ => .refl x
      show List.Forall₂ Retains _ (p.toList ++ f :: [n] ++ _)
      rw [List.append_assoc]
      exact retains_toList_append hp (.cons hf (.cons hn hsame))
    | none =>
      -- the field after this one may have become an array, but a method has not
      have hchanged : ∀ i ∈ { next with field := n } :: rest, i.field.type.shape = .functionPointer →
          Retains i.field i.change.value := by
        refine List.forall_mem_cons.mpr ⟨fun hshape => ?_, hrest⟩
        have hself := hmethod (hn.type.1.symm.trans hshape)
        obtain rfl := Option.some.inj hself
        exact hnext hshape
      have hwalk := @ih (some f) _ hchanged
      obtain ⟨f', ys, hf', hys, hvalue⟩ := List.forall₂_cons_left_iff.mp hwalk
      obtain ⟨n', zs, hn', hzs, rfl⟩ := List.forall₂_cons_left_iff.mp hys
      show List.Forall₂ Retains _ (p.toList ++ (pairWalk prefixes owner (some f) _ rest).value)
      rw [Option.getD_some, hvalue]
      exact retains_toList_append hp (.cons (hf.trans hf') (.cons (hn.trans hn') hzs))

/-- Pairing inside of a field. -/
theorem retains_insideField (f : Field) : Retains f (insideField prefixes owner f).change.value := by
  obtain ⟨name, ⟨shape, _⟩, _⟩ := f
  cases shape <;> exact ⟨rfl, ⟨rfl, rfl, rfl⟩, rfl, fun h => ⟨h, rfl⟩⟩

/-- Pairing leaves alone what it leaves alone in each field, whether it stops or not. -/
theorem retains_pairFields (fields : List Field) :
    List.Forall₂ Retains fields (pairFields prefixes owner fields).value := by
  have hinside (f : Field) : Retains (insideField prefixes owner f).field
      (insideField prefixes owner f).change.value :=
    (field_insideField f).symm ▸ retains_insideField f
  cases fields with
  | nil => exact .nil
  | cons f fields =>
    have hwalk := @retains_pairWalk prefixes owner none (insideField prefixes owner f)
      (insideFields prefixes owner fields) fun i hi _ => by
        rw [insideFields_eq_map, ← List.map_cons] at hi
        obtain ⟨g, -, rfl⟩ := List.mem_map.mp hi
        exact hinside g
    rwa [map_field_insideFields, field_insideField] at hwalk

/-! ### Paired lists -/

/-- What pairing makes of a list without marks. -/
structure ArePaired (fields paired : List Field) : Prop where
  /-- The list had no marks. -/
  unpaired : ∀ f ∈ fields, f.IsUnpaired
  /-- Names, types and marks change at most. -/
  retains : List.Forall₂ Retains fields paired
  /-- The lengths are the fields that take a neighbour. -/
  isLength : ∀ (i : Nat) (g : Field), paired[i]? = some g →
    (g.isLength = true ↔ ∃ j, Takes fields i j)
  /-- The arrays are the fields that a neighbour takes. -/
  isArray : ∀ (i : Nat) (g : Field), paired[i]? = some g → (g.isArray = true ↔ ∃ j, Takes fields j i)
  /-- A field that is no length has its name. -/
  name : ∀ (i : Nat) (f g : Field), fields[i]? = some f → paired[i]? = some g → g.isLength = false →
    g.name = f.name

/-- Fields that are no part of a pair have neither of the marks. -/
theorem isUnmarked_of_isUnpaired {fields : List Field} (h : ∀ f ∈ fields, f.IsUnpaired) :
    ∀ f ∈ fields, f.isArray = false ∧ f.isLength = false :=
  fun f hf => ⟨(h f hf).isArray, (h f hf).isLength⟩

/-- Pairing a list without marks. -/
theorem arePaired_pairFields {fields : List Field} (hunpaired : ∀ f ∈ fields, f.IsUnpaired)
    (h : (pairFields prefixes owner fields).failure = none) :
    ArePaired fields (pairFields prefixes owner fields).value := by
  have hunmarked := isUnmarked_of_isUnpaired hunpaired
  have hretains : List.Forall₂ Retains fields (pairFields prefixes owner fields).value :=
    retains_pairFields fields
  refine ⟨hunpaired, hretains, fun i g hg => ?_, fun i g hg => ?_, fun i f g hf hg hlength => ?_⟩
  · obtain ⟨f, hf, -⟩ := exists_getElem?_of_forall₂_right hretains hg
    exact (pairFields_marks hunmarked h hf hg).1
  · obtain ⟨f, hf, -⟩ := exists_getElem?_of_forall₂_right hretains hg
    exact (pairFields_marks hunmarked h hf hg).2
  · obtain ⟨hbecomes, -⟩ := (pairFields_outcome hunmarked h).get hf hg
    have hnone := hbecomes.isLength.symm.trans hlength
    rw [Bool.or_eq_false_iff] at hnone
    exact hbecomes.name_self hnone.1 hnone.2

/-- What may be an array still may be one. -/
theorem Retains.isPairable {f g : Field} (h : Retains f g) : isPairable g = isPairable f := by
  rw [Transform.isPairable, Transform.isPairable, CType.isPointer, CType.isPointer, h.type.1, h.same]

/-- What a field that is no length may be the length of it also could be before. -/
theorem companionSide?_of_retains {f g : Field} (h : Retains f g) (hf : f.isLength = false)
    (hg : g.isLength = false) (hname : g.name = f.name) : companionSide? g = companionSide? f := by
  rw [companionSide?, companionSide?, h.type.1, hf, hg, hname]

/-- A field that takes a neighbour is not marked as a length yet. -/
theorem isLength_of_takes {fields : List Field} {i j : Nat} (h : Takes fields i j) {f : Field}
    (hf : fields[i]? = some f) : f.isLength = false := by
  obtain ⟨g, hg, h⟩ := h
  cases hf.symm.trans hg
  by_contra hlength
  rw [Bool.not_eq_false] at hlength
  obtain ⟨-, h⟩ | ⟨-, h⟩ := h <;> simp [takes, companionSide?, hlength] at h

/-- What a field takes in one list it takes in another one where both may do the same. -/
theorem Takes.transfer {fields fields' : List Field} {i j : Nat} (h : Takes fields i j)
    (hlength : ∀ f side, fields[i]? = some f → companionSide? f = some side →
      ∃ g, fields'[i]? = some g ∧ companionSide? g = some side)
    (harray : ∀ f, fields[j]? = some f → isPairable f = true →
      ∃ g, fields'[j]? = some g ∧ isPairable g = true) : Takes fields' i j := by
  obtain ⟨f, hf, h⟩ := h
  have htake (side : Rules.Side) (htake : takes side f fields[j]? = true) :
      ∃ g, fields'[i]? = some g ∧ takes side g fields'[j]? = true := by
    rw [takes, Bool.and_eq_true, decide_eq_true_eq, Option.any_eq_true] at htake
    obtain ⟨hside, k, hk, hpairable⟩ := htake
    obtain ⟨g, hg, hside'⟩ := hlength f side hf hside
    obtain ⟨l, hl, hpairable'⟩ := harray k hk hpairable
    exact ⟨g, hg, by simp [takes, hside', hl, hpairable']⟩
  obtain ⟨hj, h⟩ | ⟨hi, h⟩ := h
  · obtain ⟨g, hg, h⟩ := htake .next h
    exact ⟨g, hg, .inl ⟨hj, h⟩⟩
  · obtain ⟨g, hg, h⟩ := htake .previous h
    exact ⟨g, hg, .inr ⟨hi, h⟩⟩

/-- In a paired list no field takes a neighbour. -/
theorem ArePaired.not_takes {fields paired : List Field} (h : ArePaired fields paired) (i j : Nat) :
    ¬ Takes paired i j := by
  intro htakes
  obtain ⟨g, hg⟩ := htakes.exists_length
  have hlength := isLength_of_takes htakes hg
  -- the pair is one of the list before already, which has made the field a length
  have hold : Takes fields i j := by
    refine htakes.transfer (fun k side hk hside => ?_) fun k hk hpairable => ?_
    · cases hg.symm.trans hk
      obtain ⟨f, hf, hfg⟩ := exists_getElem?_of_forall₂_right h.retains hg
      have hunmarked := (h.unpaired f (List.mem_of_getElem? hf)).isLength
      rw [companionSide?_of_retains hfg hunmarked hlength (h.name i f g hf hg hlength)] at hside
      exact ⟨f, hf, hside⟩
    · obtain ⟨f, hf, hfk⟩ := exists_getElem?_of_forall₂_right h.retains hk
      exact ⟨f, hf, hfk.isPairable.symm.trans hpairable⟩
  have hmarked := (h.isLength i g hg).mpr ⟨j, hold⟩
  cases hlength.symm.trans hmarked

/-- Pairing inside of a field changes its type only. -/
theorem insideField_value (f : Field) : (insideField prefixes owner f).change.value =
    { f with type := (pairType prefixes (owner ++ "." ++ f.name) f.type).value } := by
  cases f
  rfl

/-- A paired list stays one when it is paired again. -/
theorem ArePaired.again {fields paired : List Field} (h : ArePaired fields paired)
    (hfailure : (pairFields prefixes owner paired).failure = none) :
    ArePaired fields (pairFields prefixes owner paired).value := by
  have hretains : List.Forall₂ Retains paired (pairFields prefixes owner paired).value :=
    retains_pairFields paired
  have heach : pairFields prefixes owner paired =
      Change.each (fun g => (insideField prefixes owner g).change) paired :=
    pairFields_of_untaken (untaken_none_iff.mpr h.not_takes)
  have hself {i : Nat} {g : Field} (hg : (pairFields prefixes owner paired).value[i]? = some g) :
      ∃ k, paired[i]? = some k ∧ g = { k with type := g.type } := by
    rw [heach] at hg hfailure
    obtain ⟨k, hk, -, rfl⟩ := exists_getElem?_of_forall₂_right (forall₂_each hfailure) hg
    exact ⟨k, hk, by rw [insideField_value]⟩
  have hboth : List.Forall₂ Retains fields (pairFields prefixes owner paired).value :=
    forall₂_trans (fun _ _ _ hxy hyz => hxy.trans hyz) h.retains hretains
  refine ⟨h.unpaired, hboth, fun i g hg => ?_, fun i g hg => ?_,
    fun i f g hf hg hlength => ?_⟩
  · obtain ⟨k, hk, hsame⟩ := hself hg
    rw [hsame]
    exact h.isLength i k hk
  · obtain ⟨k, hk, hsame⟩ := hself hg
    rw [hsame]
    exact h.isArray i k hk
  · obtain ⟨k, hk, hsame⟩ := hself hg
    rw [hsame] at hlength ⊢
    exact h.name i f k hf hk hlength

/-- Pairing goes inside of methods. -/
theorem goesInside_pair : GoesInside (pairFields prefixes) fun _ => True := by
  intro owner fields i f _ h hf hshape
  obtain ⟨-, hfields⟩ := pairFields_spec h
  obtain ⟨g, hg, hinwardly⟩ := exists_getElem?_of_forall₂ hfields hf
  obtain ⟨hinside, hself⟩ := hinwardly.method hshape
  rw [insideField_method hshape] at hinside hself
  exact ⟨_, g, hg, hinside, congrArg (fun g : Field => g.type.parameters) hself⟩

end

/-! ## Erasure -/

/-- Whether the type of a field is given up, or is to be. -/
def isGivenUp (x : Field) : Bool :=
  x.isErased || (x.type.isPointer && Rules.isErasedPointer x.type.ident x.type.depth)

/-- A field that is marked if its type is given up. -/
structure Erases (x y : Field) : Prop where
  /-- Nothing else changes. -/
  same : y = { x with type := y.type, isErased := isGivenUp x }
  /-- The type keeps the parts that decide how the field is treated. -/
  type : Keeps x.type y.type
  /-- Nothing is marked inside of a pointer. -/
  pointer : x.type.shape = .pointer → y.type = x.type

theorem Erases.trans {x y z : Field} (h : Erases x y) (h' : Erases y z) : Erases x z where
  same := by
    have hsame : isGivenUp y = isGivenUp x := by
      obtain ⟨hshape, hident, hdepth⟩ := h.type
      rw [isGivenUp, CType.isPointer, hshape, hident, hdepth, h.same]
      show (isGivenUp x || _) = isGivenUp x
      rw [isGivenUp, CType.isPointer, Bool.or_assoc, Bool.or_self]
    rw [h'.same, hsame, h.same]
  type := h.type.trans h'.type
  pointer hx := (h'.pointer (h.type.1.trans hx)).trans (h.pointer hx)

/-- Erasure marks a field. -/
theorem erases_eraseField (x : Field) : Erases x (eraseField x) := by
  obtain ⟨name, ⟨shape, _⟩, _⟩ := x
  cases shape <;> exact ⟨rfl, ⟨rfl, rfl, rfl⟩, by simp [eraseField, eraseType]⟩

/-- Erasure marks all fields. -/
theorem erases_eraseFields (xs : List Field) : List.Forall₂ Erases xs (eraseFields xs) := by
  rw [eraseFields_eq_map, List.forall₂_map_right_iff]
  exact List.forall₂_same.mpr fun x _ => erases_eraseField x

/-- Erasure goes inside of methods. -/
theorem goesInside_erase : GoesInside eraseChange fun _ => True := by
  intro owner ys i y _ _ hy hshape
  refine ⟨owner, eraseField y, ?_, rfl, ?_⟩
  · show (eraseFields ys)[i]? = _
    rw [eraseFields_eq_map, List.getElem?_map, hy, Option.map_some]
  · obtain ⟨name, ⟨shape, _⟩, _⟩ := y
    cases hshape
    rfl

end SdkBindings.Transform
