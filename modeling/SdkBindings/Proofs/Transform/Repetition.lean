import SdkBindings.Proofs.Transform.Callees

/-!
# Pairing again

A table of methods that several structs refer to is paired once for each of them, so pairing has to
leave alone what it has paired.  It does (`pairHeader_again`): whatever marks a list has to begin with,
once it is paired no field of it takes a neighbour (`pairFields_spec`), and where no field takes a
neighbour each field is dealt with by itself (`pairFields_of_untaken`), which matters for methods only.

The step of a field settles it.  If it takes a neighbour it is marked as a length, and a length takes
nothing.  If it does not, nothing that is done later changes what it or its neighbours may be taken for:
they can only be marked as arrays (`Alike`).
-/

namespace SdkBindings.Transform

variable {prefixes : List String} {owner : String}

/-! ## Lists in which nothing is taken -/

/-- No field of a list, which stands behind the field `before`, takes a neighbour. -/
def Untaken (before : Option Field) : List Field → Prop
  | [] => True
  | f :: fields =>
    takes .next f fields.head? = false ∧ takes .previous f before = false ∧ Untaken (some f) fields

/-- The same field by field. -/
theorem untaken_iff {before : Option Field} {fields : List Field} : Untaken before fields ↔
    ∀ i g, fields[i]? = some g → takes .next g fields[i + 1]? = false ∧
      takes .previous g (fieldBefore before fields i) = false := by
  induction fields generalizing before with
  | nil => exact iff_of_true trivial fun i g hg => nomatch hg
  | cons f fields ih =>
    rw [Untaken, ih]
    constructor
    · rintro ⟨hnext, hprevious, hrest⟩ (_ | i) g hg
      · cases hg
        exact ⟨by rwa [List.head?_eq_getElem?] at hnext, hprevious⟩
      · obtain ⟨hnext, hprevious⟩ := hrest i g hg
        cases i <;> exact ⟨hnext, hprevious⟩
    · intro h
      obtain ⟨hnext, hprevious⟩ := h 0 f rfl
      refine ⟨by rwa [List.head?_eq_getElem?], hprevious, fun i g hg => ?_⟩
      obtain ⟨hnext, hprevious⟩ := h (i + 1) g hg
      cases i <;> exact ⟨hnext, hprevious⟩

/-- Nothing is taken in a list that stands by itself exactly if it has no pairs. -/
theorem untaken_none_iff {fields : List Field} :
    Untaken none fields ↔ ∀ i j, ¬ Takes fields i j := by
  rw [untaken_iff]
  constructor
  · intro h i j htakes
    obtain ⟨f, hf⟩ := htakes.exists_length
    have hsome := (exists_takes_iff hf).mp ⟨j, htakes⟩
    rw [(h i f hf).1, (h i f hf).2] at hsome
    cases hsome
  · intro h i f hf
    have hnone := (not_congr (exists_takes_iff hf)).mp fun ⟨j, hj⟩ => h i j hj
    rwa [Bool.not_eq_true, Bool.or_eq_false_iff] at hnone

/-- The insides of fields are those of each of them. -/
theorem insideFields_eq_map (fields : List Field) :
    insideFields prefixes owner fields = fields.map (insideField prefixes owner) := by
  induction fields with
  | nil => rfl
  | cons f fields ih => rw [insideFields, ih, List.map_cons]

/-- The fields of insides are the fields. -/
theorem map_field_insideFields (fields : List Field) :
    (insideFields prefixes owner fields).map Inside.field = fields := by
  rw [insideFields_eq_map, List.map_map]
  exact (List.map_congr_left fun g _ => field_insideField g).trans (List.map_id _)

/-- Pairing inside of a field that is no method does nothing. -/
theorem insideField_of_ne {f : Field} (h : f.type.shape ≠ .functionPointer) :
    (insideField prefixes owner f).change = .done f := by
  obtain ⟨name, ⟨shape, _⟩, _⟩ := f
  cases shape with
  | functionPointer => exact absurd rfl h
  | _ => rfl

/-- What may be an array still may be one after pairing inside of it. -/
theorem isPairable_insideField (f : Field) :
    isPairable (insideField prefixes owner f).change.value = isPairable f := by
  obtain ⟨name, ⟨shape, _⟩, _⟩ := f
  cases shape <;> rfl

/-- A field that takes neither of its neighbours is dealt with by itself. -/
theorem pairStep_of_untaken {previous next : Option Field} {f : Field}
    (hnext : takes .next f next = false) (hprevious : takes .previous f previous = false) :
    pairStep prefixes owner previous (insideField prefixes owner f) next =
      (insideField prefixes owner f).change.map fun g => (previous, g, next) := by
  unfold pairStep
  rw [field_insideField]
  dsimp only
  by_cases hmethod : f.type.shape = .functionPointer
  · exact if_pos hmethod
  rw [if_neg hmethod, insideField_of_ne hmethod]
  split
  · rename_i n hside
    have hnot : isPairable n = false := by simpa [takes, hside] using hnext
    rw [hnot]
    rfl
  · rename_i p hside
    have hnot : isPairable p = false := by simpa [takes, hside] using hprevious
    rw [hnot]
    rfl
  · rfl

/-- A walk over fields that take none of their neighbours deals with each of them by itself. -/
theorem pairWalk_of_untaken {previous : Option Field} {f : Field} {fields : List Field}
    (h : Untaken previous (f :: fields)) :
    pairWalk prefixes owner previous (insideField prefixes owner f)
        (insideFields prefixes owner fields) =
      (Change.each (fun g => (insideField prefixes owner g).change) (f :: fields)).map
        (previous.toList ++ ·) := by
  induction fields generalizing previous f with
  | nil =>
    obtain ⟨hnext, hprevious⟩ :
        takes .next f none = false ∧ takes .previous f previous = false := ⟨h.1, h.2.1⟩
    rw [insideFields, pairWalk, pairStep_of_untaken hnext hprevious, Change.each, Change.each,
      Change.andThen_map]
    unfold Change.andThen
    cases hfailure : (insideField prefixes owner f).change.failure with
    | some e => simp only [Change.map, hfailure]
    | none => simp [Change.map, hfailure, Change.done]
  | cons f' fields ih =>
    obtain ⟨hnext, hprevious, hnext', hprevious', hrest⟩ : takes .next f (some f') = false ∧
        takes .previous f previous = false ∧ Untaken (some f) (f' :: fields) := h
    have hself : ({ insideField prefixes owner f' with field := (some f').getD f' } : Inside) =
        insideField prefixes owner f' := by
      cases f'
      rfl
    -- the field behind this one goes by whether this one may be an array, which has not changed
    have hbefore : takes .previous f' (some (insideField prefixes owner f).change.value) = false := by
      rw [takes, Option.any_some, isPairable_insideField]
      exact hprevious'
    have hwalk := ih ⟨hnext', hbefore, hrest⟩
    rw [insideFields, pairWalk, field_insideField, pairStep_of_untaken hnext hprevious,
      Change.map_andThen, Change.each, Change.andThen_map]
    refine Change.andThen_congr ?_ ?_
    · show (pairWalk prefixes owner _ { insideField prefixes owner f' with
        field := (some f').getD f' } _).map _ = _
      rw [hself, hwalk, Change.map_map, Change.map_map]
      rfl
    · show previous.toList ++ _ :: [f'] ++ _ = _
      rw [map_field_insideFields]
      simp

/-- **Lists without pairs.**  Where no field takes a neighbour, each field is dealt with by itself. -/
theorem pairFields_of_untaken {fields : List Field} (h : Untaken none fields) :
    pairFields prefixes owner fields =
      Change.each (fun g => (insideField prefixes owner g).change) fields := by
  cases fields with
  | nil => rfl
  | cons f fields => exact pairWalk_of_untaken h

/-! ## What a walk leaves behind -/

/-- A field that may be taken for the same as another one; it may be marked as an array. -/
structure Alike (f g : Field) : Prop where
  /-- It may be the length of the same neighbour. -/
  side : companionSide? g = companionSide? f
  /-- It may be an array if the other one may. -/
  pairable : isPairable g = isPairable f
  /-- The type has the same shape. -/
  shape : g.type.shape = f.type.shape
  /-- A method is not changed. -/
  method : f.type.shape = .functionPointer → g = f

theorem Alike.refl (f : Field) : Alike f f :=
  ⟨rfl, rfl, rfl, fun _ => rfl⟩

/-- A field that may not be there and is not changed. -/
theorem Alike.rel_refl (f : Option Field) : Option.Rel Alike f f := by
  cases f with
  | none => exact .none
  | some f => exact .some (.refl f)

/-- The array of a pair is like what it was. -/
theorem Marked.alike {b : Bool} {f g : Field} (h : Marked b f g)
    (hf : Transform.isPairable f = true) : Alike f g :=
  ⟨h.companionSide?, h.isPairable, h.shape, fun hmethod =>
    absurd hf (Bool.eq_false_iff.mp (isPairable_method hmethod))⟩

/-- Like fields take the same neighbours. -/
theorem Alike.takes {f g : Field} (h : Alike f g) (side : Rules.Side) (neighbour : Option Field) :
    takes side g neighbour = takes side f neighbour := by
  rw [Transform.takes, Transform.takes, h.side]

/-- A length takes nothing. -/
theorem takes_asLength (side : Rules.Side) (f : Field) (array : String) (neighbour : Option Field) :
    takes side (asLength f array) neighbour = false := by
  simp [takes, companionSide?, asLength]

/-- What takes a neighbour takes one that may be an array. -/
theorem isPairable_of_takes {side : Rules.Side} {f g : Field} (h : takes side f (some g) = true) :
    isPairable g = true := by
  rw [takes, Bool.and_eq_true, Option.any_some] at h
  exact h.2

/-- A field after a walk that did not stop: methods, and no other fields, are paired inside. -/
structure Inwardly (prefixes : List String) (owner : String) (f g : Field) : Prop where
  /-- The type has the same shape. -/
  shape : g.type.shape = f.type.shape
  /-- What a method becomes depends on itself only. -/
  method : f.type.shape = .functionPointer →
    (insideField prefixes owner f).change.failure = none ∧
      g = (insideField prefixes owner f).change.value

/-- Pairing inside of a field keeps the shape of its type. -/
theorem shape_insideField (f : Field) :
    (insideField prefixes owner f).change.value.type.shape = f.type.shape := by
  obtain ⟨name, ⟨shape, _⟩, _⟩ := f
  cases shape <;> rfl

/-- The step of a field that is not stopped leaves a field that takes neither of its neighbours. -/
theorem pairStep_spec {previous next : Option Field} {f c : Field} (hc : Alike f c)
    (h : (pairStep prefixes owner previous ⟨c, (insideField prefixes owner f).change⟩ next).failure =
      none) :
    ∃ p g n, (pairStep prefixes owner previous ⟨c, (insideField prefixes owner f).change⟩ next).value =
        (p, g, n) ∧ Option.Rel Alike previous p ∧ Option.Rel Alike next n ∧
      takes .next g n = false ∧ takes .previous g p = false ∧ isPairable g = isPairable f ∧
      Inwardly prefixes owner f g := by
  have hnoMethod {array : String} (hc' : c.type.shape ≠ .functionPointer) :
      Inwardly prefixes owner f (asLength c array) :=
    ⟨hc.shape, fun hf => absurd (hc.shape.trans hf) hc'⟩
  have hshape {side : Rules.Side} {neighbour : Option Field} (htakes : takes side c neighbour = true) :
      c.type.shape ≠ .functionPointer :=
    fun hmethod => absurd htakes (Bool.eq_false_iff.mp (takes_method hmethod side neighbour))
  obtain ⟨hmethod, hinside, hvalue⟩ | ⟨n, n', rfl, htakes, hn, hvalue⟩ |
    ⟨p, p', rfl, htakes, hp, hvalue⟩ | ⟨hne, hnext, hprevious, hvalue⟩ := pairStep_cases h
  · have hf : f.type.shape = .functionPointer := hc.shape.symm.trans hmethod
    have hg : (insideField prefixes owner f).change.value.type.shape = .functionPointer :=
      (shape_insideField f).trans hf
    exact ⟨_, _, _, hvalue, Alike.rel_refl previous, Alike.rel_refl next, takes_method hg .next next,
      takes_method hg .previous previous, isPairable_insideField f,
      ⟨shape_insideField f, fun _ => ⟨hinside, rfl⟩⟩⟩
  · exact ⟨_, _, _, hvalue, Alike.rel_refl previous, .some (hn.alike (isPairable_of_takes htakes)),
      takes_asLength .next c n.name _, takes_asLength .previous c n.name _, hc.pairable,
      hnoMethod (hshape htakes)⟩
  · exact ⟨_, _, _, hvalue, .some (hp.alike (isPairable_of_takes htakes)), Alike.rel_refl next,
      takes_asLength .next c p.name _, takes_asLength .previous c p.name _, hc.pairable,
      hnoMethod (hshape htakes)⟩
  · exact ⟨_, _, _, hvalue, Alike.rel_refl previous, Alike.rel_refl next, hnext, hprevious, hc.pairable,
      ⟨hc.shape, fun hf => absurd (hc.shape.trans hf) hne⟩⟩

/-- A walk that is not stopped leaves a list in which nothing is taken. -/
theorem pairWalk_spec {previous : Option Field} {f c : Field} {fields : List Field} (hc : Alike f c)
    (h : (pairWalk prefixes owner previous ⟨c, (insideField prefixes owner f).change⟩
      (insideFields prefixes owner fields)).failure = none) :
    ∃ p g paired, (pairWalk prefixes owner previous ⟨c, (insideField prefixes owner f).change⟩
        (insideFields prefixes owner fields)).value = p.toList ++ g :: paired ∧
      Option.Rel Alike previous p ∧ isPairable g = isPairable f ∧ Untaken p (g :: paired) ∧
      List.Forall₂ (Inwardly prefixes owner) (f :: fields) (g :: paired) := by
  induction fields generalizing previous f c with
  | nil =>
    obtain ⟨p, g, n, hvalue, hp, hn, hnext, hprevious, hpairable, hinside⟩ := pairStep_spec hc h
    cases hn
    refine ⟨p, g, [], ?_, hp, hpairable, ⟨hnext, hprevious, trivial⟩, .cons hinside .nil⟩
    rw [insideFields, pairWalk, Change.map, hvalue]
  | cons f' fields ih =>
    rw [insideFields, pairWalk, field_insideField] at h ⊢
    obtain ⟨hstep, hfurther, hvalue⟩ := andThen_failure_eq_none h
    obtain ⟨p, g, n, hstepValue, hp, hn, hnext, hprevious, hpairable, hinside⟩ :=
      pairStep_spec hc hstep
    rw [hstepValue] at hfurther hvalue
    obtain @⟨_, c', hc'⟩ := hn
    obtain ⟨q, g', paired, hwalk, hq, hpairable', huntaken, hothers⟩ := ih hc' hfurther
    -- the field may have become an array in the step of the one after it
    obtain @⟨_, g₁, hg₁⟩ := hq
    refine ⟨p, g₁, g' :: paired, ?_, hp, hg₁.pairable.trans hpairable,
      ⟨?_, (hg₁.takes .previous p).trans hprevious, huntaken⟩, .cons ⟨?_, fun hf => ?_⟩ hothers⟩
    · rw [hvalue]
      exact congrArg (p.toList ++ ·) hwalk
    · rw [hg₁.takes, ← hnext, takes, takes, List.head?_cons, Option.any_some, Option.any_some,
        hpairable', hc'.pairable]
    · exact hg₁.shape.trans hinside.shape
    · obtain ⟨hreturns, hg⟩ := hinside.method hf
      exact ⟨hreturns, (hg₁.method (hinside.shape.trans hf)).trans hg⟩

/-- **Paired lists.**  Pairing that is not stopped, whatever marks the list had, leaves a list in which
no field takes a neighbour, with the methods paired inside. -/
theorem pairFields_spec {fields : List Field} (h : (pairFields prefixes owner fields).failure = none) :
    Untaken none (pairFields prefixes owner fields).value ∧
      List.Forall₂ (Inwardly prefixes owner) fields (pairFields prefixes owner fields).value := by
  cases fields with
  | nil => exact ⟨trivial, .nil⟩
  | cons f fields =>
    have hfirst : insideField prefixes owner f = ⟨f, (insideField prefixes owner f).change⟩ := by
      cases f
      rfl
    rw [pairFields, insideFields, pairList, hfirst] at h ⊢
    obtain ⟨p, g, paired, hvalue, hp, -, huntaken, hinside⟩ := pairWalk_spec (.refl f) h
    cases hp
    rw [hvalue]
    exact ⟨huntaken, hinside⟩

/-! ## Pairing a list again -/

/-- Where each item has nothing left to be changed, the list has nothing left to be changed. -/
theorem each_eq_done {ε ν α : Type} {g : α → Change ε ν α} {xs : List α}
    (h : ∀ x ∈ xs, g x = .done x) : Change.each g xs = .done xs := by
  induction xs with
  | nil => rfl
  | cons x xs ih =>
    obtain ⟨hx, hxs⟩ := List.forall_mem_cons.mp h
    rw [Change.each, hx, Change.done_andThen, ih hxs]
    rfl

/-- There is nothing left to be paired inside of a field once it has been. -/
def SettlesInside (prefixes : List String) (f : Field) : Prop :=
  ∀ owner owner', (insideField prefixes owner f).change.failure = none →
    (insideField prefixes owner' (insideField prefixes owner f).change.value).change =
      .done (insideField prefixes owner f).change.value

/-- A paired list stays as it is if its methods do, whatever it is taken to belong to. -/
theorem pairFields_again_of_settlesInside {fields : List Field}
    (hinside : ∀ f ∈ fields, SettlesInside prefixes f)
    (h : (pairFields prefixes owner fields).failure = none) (owner' : String) :
    pairFields prefixes owner' (pairFields prefixes owner fields).value =
      .done (pairFields prefixes owner fields).value := by
  obtain ⟨huntaken, hfields⟩ := pairFields_spec h
  rw [pairFields_of_untaken huntaken]
  refine each_eq_done fun g hg => ?_
  obtain ⟨i, hg⟩ := List.mem_iff_getElem?.mp hg
  obtain ⟨f, hf, hinwardly⟩ := exists_getElem?_of_forall₂_right hfields hg
  by_cases hmethod : f.type.shape = .functionPointer
  · obtain ⟨hreturns, rfl⟩ := hinwardly.method hmethod
    exact hinside f (List.mem_of_getElem? hf) owner owner' hreturns
  · exact insideField_of_ne fun hshape => hmethod (hinwardly.shape.symm.trans hshape)

mutual

/-- A type that is paired inside stays as it is. -/
theorem pairType_again (t : CType) (owner owner' : String)
    (h : (pairType prefixes owner t).failure = none) :
    pairType prefixes owner' (pairType prefixes owner t).value =
      .done (pairType prefixes owner t).value := by
  match t with
  | ⟨shape, ident, expr, dimensions, members, name, parameters, depth, inner⟩ =>
    cases shape with
    | functionPointer =>
      have hparameters : pairFields prefixes owner' (pairFields prefixes owner parameters).value =
          .done (pairFields prefixes owner parameters).value :=
        pairFields_again_of_settlesInside (settlesInside_of_mem parameters) h owner'
      rw [pairType]
      show pairType prefixes owner' ⟨.functionPointer, ident, expr, dimensions, members, name,
        (pairFields prefixes owner parameters).value, depth, inner⟩ = _
      rw [pairType]
      show (pairFields prefixes owner' (pairFields prefixes owner parameters).value).map _ = _
      rw [hparameters]
      rfl
    | _ => rfl
termination_by structural t

/-- A field that is paired inside stays as it is. -/
theorem settlesInside (x : Field) : SettlesInside prefixes x := by
  match x with
  | ⟨name, type, isOut, hasCount, isArray, isLength, isErased⟩ =>
    intro owner owner' h
    have htype := pairType_again type (owner ++ "." ++ name) (owner' ++ "." ++ name) h
    rw [insideField]
    show (insideField prefixes owner' ⟨name, (pairType prefixes (owner ++ "." ++ name) type).value,
      isOut, hasCount, isArray, isLength, isErased⟩).change = _
    rw [insideField, htype]
    rfl
termination_by structural x

/-- So does each field of a list. -/
theorem settlesInside_of_mem (xs : List Field) : ∀ x ∈ xs, SettlesInside prefixes x := by
  match xs with
  | [] => exact List.forall_mem_nil _
  | x :: xs => exact List.forall_mem_cons.mpr ⟨settlesInside x, settlesInside_of_mem xs⟩
termination_by structural xs

end

/-- **Lists.**  Pairing a list that has been paired without a stop changes nothing and notes nothing,
whatever the list is taken to belong to. -/
theorem pairFields_again {fields : List Field} (h : (pairFields prefixes owner fields).failure = none)
    (owner' : String) :
    pairFields prefixes owner' (pairFields prefixes owner fields).value =
      .done (pairFields prefixes owner fields).value :=
  pairFields_again_of_settlesInside (settlesInside_of_mem fields) h owner'

/-! ## Pairing a header again -/

section

variable {ε ν : Type} {f : Header.FieldChange ε ν}

/-- What a change of a list has led to without a stop it leaves alone, whatever the list belongs to. -/
def IsSettling (f : Header.FieldChange ε ν) : Prop :=
  ∀ owner owner' fields, (f owner fields).failure = none →
    f owner' (f owner fields).value = .done (f owner fields).value

/-- Items that have been changed without a stop stay as they are, if each of them does. -/
theorem each_again {α : Type} {g : α → Change ε ν α}
    (hg : ∀ x, (g x).failure = none → g (g x).value = .done (g x).value) {xs : List α}
    (h : (Change.each g xs).failure = none) :
    Change.each g (Change.each g xs).value = .done (Change.each g xs).value := by
  refine each_eq_done fun y hy => ?_
  obtain ⟨i, hy⟩ := List.mem_iff_getElem?.mp hy
  obtain ⟨x, -, hx, rfl⟩ := exists_getElem?_of_forall₂_right (forall₂_each h) hy
  exact hg x hx

/-- A table that has been changed. -/
def changedTable (f : Header.FieldChange ε ν) (t : Vtable) : Vtable :=
  { t with fields := (f t.ident t.fields).value }

/-- A table is changed by the first struct that refers to it, and only by that one. -/
theorem table_changeStructs (hf : IsSettling f) {structs : List Struct} {tables : List Vtable}
    (h : (Header.changeStructs f tables structs).failure = none) {i : Nat} {t : Vtable}
    (ht : tables[i]? = some t) :
    (some i ∉ structs.map Struct.vtable ∧
      (Header.changeStructs f tables structs).value.2[i]? = some t) ∨
    ((f t.ident t.fields).failure = none ∧
      (Header.changeStructs f tables structs).value.2[i]? = some (changedTable f t)) := by
  induction structs generalizing tables t with
  | nil => exact .inl ⟨List.not_mem_nil, ht⟩
  | cons s structs ih =>
    rw [Header.changeStructs, changeStruct_eq] at h ⊢
    obtain ⟨hstruct, hrest, hvalue⟩ := andThen_failure_eq_none h
    obtain ⟨-, hat, hstructValue⟩ := andThen_failure_eq_none hstruct
    rw [hstructValue] at hrest hvalue
    rw [hvalue]
    obtain ⟨hne, hsame⟩ | ⟨hreturns, hchanged⟩ := getElem?_changeTableAt hat ht
    · refine (ih hrest hsame).imp_left fun hkept => ⟨fun h => ?_, hkept.2⟩
      exact (List.mem_cons.mp h).elim (fun h => hne h.symm) hkept.1
    · refine .inr ⟨hreturns, ?_⟩
      obtain ⟨-, hsame⟩ | ⟨-, hagain⟩ := ih hrest hchanged
      · exact hsame
      · refine hagain.trans (congrArg some ?_)
        rw [changedTable, hf _ _ _ hreturns]
        rfl

/-- A change of structs keeps the number of tables. -/
theorem length_changeStructs {structs : List Struct} {tables : List Vtable}
    (h : (Header.changeStructs f tables structs).failure = none) :
    (Header.changeStructs f tables structs).value.2.length = tables.length :=
  (tables_changeStructs (R := fun _ _ => True) (S := fun _ _ => True) (fun _ _ _ _ _ => trivial)
    (fun _ _ _ _ _ => trivial) h).1

/-- A table that structs refer to, and that has been changed, stays as it is. -/
theorem changeTableAt_again (hf : IsSettling f) {structs : List Struct} {tables : List Vtable}
    (h : (Header.changeStructs f tables structs).failure = none) {place : Option Nat}
    (hplace : place ∈ structs.map Struct.vtable) :
    changeTableAt f place (Header.changeStructs f tables structs).value.2 =
      .done (Header.changeStructs f tables structs).value.2 := by
  cases place with
  | none => rfl
  | some i =>
    unfold changeTableAt
    dsimp only
    cases ht' : (Header.changeStructs f tables structs).value.2[i]? with
    | none => rfl
    | some t' =>
      obtain ⟨hlt, -⟩ := List.getElem?_eq_some_iff.mp ht'
      rw [length_changeStructs h] at hlt
      obtain ⟨hmem, -⟩ | ⟨hreturns, hchanged⟩ :=
        table_changeStructs hf h (List.getElem?_eq_getElem hlt)
      · exact absurd hplace hmem
      · cases ht'.symm.trans hchanged
        have hsame : changeTable f (changedTable f tables[i]) = .done (changedTable f tables[i]) := by
          show (f _ (f _ _).value).map _ = _
          rw [hf _ _ _ hreturns]
          rfl
        dsimp only
        rw [hsame]
        obtain ⟨hi, hget⟩ := List.getElem?_eq_some_iff.mp ht'
        rw [← hget]
        exact congrArg Change.done (List.set_getElem_self hi)

/-- Structs and tables that have been changed without a stop stay as they are. -/
theorem changeStructs_again (hf : IsSettling f) {structs : List Struct} {tables : List Vtable}
    (h : (Header.changeStructs f tables structs).failure = none) :
    Header.changeStructs f (Header.changeStructs f tables structs).value.2
        (Header.changeStructs f tables structs).value.1 =
      .done ((Header.changeStructs f tables structs).value.1,
        (Header.changeStructs f tables structs).value.2) := by
  induction structs generalizing tables with
  | nil => rfl
  | cons s structs ih =>
    have hplace : s.vtable ∈ (s :: structs).map Struct.vtable := List.mem_cons_self
    have htable := changeTableAt_again hf h hplace
    rw [Header.changeStructs, changeStruct_eq] at h htable ⊢
    obtain ⟨hstruct, hrest, hvalue⟩ := andThen_failure_eq_none h
    obtain ⟨hmembers, -, hstructValue⟩ := andThen_failure_eq_none hstruct
    rw [hstructValue] at hrest hvalue
    rw [hvalue] at htable ⊢
    have hagain : changeMembers f (changeMembers f s).value = .done (changeMembers f s).value := by
      show (f _ (f _ _).value).map _ = _
      rw [hf _ _ _ hmembers]
      rfl
    show Header.changeStructs f _ ((changeMembers f s).value :: _) = _
    rw [Header.changeStructs, changeStruct_eq, hagain, Change.done_andThen]
    show ((changeTableAt f s.vtable _).map _).andThen _ _ = _
    rw [htable, Change.map_andThen, Change.done_andThen]
    exact congrArg (Change.map _) (ih hrest)

/-- A change of fields that does not stop changes the functions and then the structs. -/
theorem changeFields_of_none {h : Header} (hfailure : (h.changeFields f).failure = none) :
    (Change.each (changeFunction f) h.functions).failure = none ∧
      (Header.changeStructs f h.vtables h.structs).failure = none ∧
      (h.changeFields f).value = { h with
        functions := (Change.each (changeFunction f) h.functions).value
        structs := (Header.changeStructs f h.vtables h.structs).value.1
        vtables := (Header.changeStructs f h.vtables h.structs).value.2 } :=
  andThen_failure_eq_none hfailure

/-- **Headers.**  A change of fields that does not stop has nothing left to do if it leaves alone the
lists that it has changed. -/
theorem changeFields_again (hf : IsSettling f) {h : Header} (hfailure : (h.changeFields f).failure = none) :
    (h.changeFields f).value.changeFields f = .done (h.changeFields f).value := by
  have hfunction (x : Function) (hx : (changeFunction f x).failure = none) :
      changeFunction f (changeFunction f x).value = .done (changeFunction f x).value := by
    show (f _ (f _ _).value).map _ = _
    rw [hf _ _ _ hx]
    rfl
  obtain ⟨hfunctions, hstructs, hvalue⟩ := changeFields_of_none hfailure
  rw [hvalue]
  show (Change.each (changeFunction f) (Change.each (changeFunction f) h.functions).value).andThen _ _ = _
  rw [each_again hfunction hfunctions, Change.done_andThen]
  exact congrArg (Change.map _) (changeStructs_again hf hstructs)

end

/-- **Pairing again.**  Pairing a header that has been paired without a stop, whatever marks its fields
had before, changes nothing, notes nothing and does not stop.  So two passes in a row come to what one
comes to, the number of pairs included.  In a single pass a table of methods is paired by the first of
the structs that refer to it: however many they are, it becomes what pairing its entries once makes of
it. -/
theorem pairHeader_again {prefixes : List String} {h : Header}
    (hreturns : (pairHeader prefixes h).failure = none) :
    pairHeader prefixes (pairHeader prefixes h).value = .done (pairHeader prefixes h).value ∧
      applyAll prefixes [.pair, .pair] h = applyAll prefixes [.pair] h ∧
      ∀ (i : Nat) (t : Vtable), some i ∈ h.structs.map Struct.vtable → h.vtables[i]? = some t →
        (pairFields prefixes t.ident t.fields).failure = none ∧
        (pairHeader prefixes h).value.vtables[i]? =
          some { t with fields := (pairFields prefixes t.ident t.fields).value } := by
  have hsettling : IsSettling (pairFields prefixes) := fun owner owner' fields h =>
    pairFields_again h owner'
  have hagain : pairHeader prefixes (pairHeader prefixes h).value =
      .done (pairHeader prefixes h).value := changeFields_again hsettling hreturns
  refine ⟨hagain, ?_, fun i t hmem ht => ?_⟩
  · have hnothing : applyAll prefixes [.pair] (pairHeader prefixes h).value =
        applyAll prefixes [] (pairHeader prefixes h).value := by
      show (withNotes .pairing (pairHeader prefixes _)).andThen _ _ = _
      rw [hagain]
      rfl
    exact Change.andThen_congr hnothing rfl
  · obtain ⟨-, hstructs, hvalue⟩ := changeFields_of_none hreturns
    rw [pairHeader, hvalue]
    exact (table_changeStructs hsettling hstructs ht).resolve_left fun h => h.1 hmem

/-- Two structs of the same name with one table, whose method takes a number, the views that belong to it
and a buffer, and a function with parameters that have marks already. -/
def sharedViews : Header :=
  let receiver : Field := .plain "This" (.pointer "ID3D11DeviceContext" 1 (.basic "ID3D11DeviceContext"))
  let method : Field := .plain "SetViews" (.functionPointer "SetViews" (receiver :: viewParameters) "void")
  let context : Struct := ⟨"ID3D11DeviceContext", [], "", some 0, none⟩
  { Header.empty "a.h" with
    structs := [context, context]
    functions := [⟨"F", "F", viewParameters.map fun f => { f with isArray := true }⟩]
    vtables := [⟨"ID3D11DeviceContextVtbl", [method], "", none, none⟩] }

/-- The shared table is paired once, and nothing is left for a second pass. -/
theorem pairHeader_again_shared :
    (pairHeader [] sharedViews).failure = none ∧
    pairHeader [] (pairHeader [] sharedViews).value = .done (pairHeader [] sharedViews).value ∧
    (pairHeader [] sharedViews).notes.map (fun p => (p.owner, p.length, p.array)) =
      [("F", "NumViews", "ppViews"), ("ID3D11DeviceContextVtbl.SetViews", "NumViews", "ppViews")] ∧
    (pairHeader [] sharedViews).value.functions.map (fun x => x.parameters.map Field.name) =
      [["ppViews", "ppViews", "pBuffer"]] := by
  have hreturns : (pairHeader [] sharedViews).failure = none := by decide
  exact ⟨hreturns, (pairHeader_again hreturns).1, by decide, by decide⟩

end SdkBindings.Transform
