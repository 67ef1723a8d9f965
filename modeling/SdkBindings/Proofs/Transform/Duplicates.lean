import Mathlib.Data.List.Forall2
import SdkBindings.Transform.Duplicates

/-!
# Which constants stay

The removal of duplicates goes through the constants of a header in their order and remembers the first
one of each name.  This module says what comes of it without a memory: a header is refused exactly if
some constant redefines the first one of its name (`IsRedefining`), and otherwise just the constants
stay that are the first of their name, where they are and in their order (`IsDeduplicated`).  After a
refusal that holds of the enumerations in front of the one with the redefinition, and nothing else has
changed (`dedupHeader_deduplicates`).

The invariant is that the memory of the walk answers for the constants passed so far (`AnswersFor`).
With it an enumeration is left with the constants whose names are new behind all those passed
(`freshAfter`), and that list has all the properties in question.
-/

namespace SdkBindings.Transform

/-! ## Redefinitions -/

/-- The constants of enumerations, in order. -/
def constantsOf (enums : List Enumeration) : List Enumerator :=
  enums.flatMap Enumeration.enumerators

/-- The first constant of a name. -/
def firstOf? (name : String) (cs : List Enumerator) : Option Enumerator :=
  cs.find? fun c => decide (c.ident = name)

/-- A constant has another known value than `first`, the first one of its name among the constants
before it. -/
structure Redefines (earlier : List Enumerator) (c first : Enumerator) : Prop where
  /-- That is the first constant of the name. -/
  isFirst : firstOf? c.ident earlier = some first
  /-- The value of the constant is known. -/
  isKnown : c.value.isResolved = true
  /-- The value of the first one is known. -/
  isFirstKnown : first.value.isResolved = true
  /-- They are written differently. -/
  differs : first.value.resolve ≠ c.value.resolve

/-- Among constants behind those of `earlier` one redefines the first of its name. -/
def IsRedefining (earlier cs : List Enumerator) : Prop :=
  ∃ xs c ys first, cs = xs ++ c :: ys ∧ Redefines (earlier ++ xs) c first

/-- Two values are known to differ if both are known and written differently. -/
theorem redefines_iff {earlier : List Enumerator} {c first : Enumerator}
    (h : firstOf? c.ident earlier = some first) :
    Redefines earlier c first ↔ differ first.value c.value = true := by
  simp only [differ, Bool.and_eq_true, bne_iff_ne]
  exact ⟨fun hr => ⟨⟨hr.isFirstKnown, hr.isKnown⟩, hr.differs⟩,
    fun ⟨⟨hfirst, hc⟩, hne⟩ => ⟨h, hc, hfirst, hne⟩⟩

theorem not_isRedefining_nil (earlier : List Enumerator) : ¬ IsRedefining earlier [] := by
  rintro ⟨xs, c, ys, first, h, -⟩
  exact absurd h.symm (List.append_ne_nil_of_right_ne_nil xs (List.cons_ne_nil c ys))

/-- A redefinition among constants is one by the first of them or by a later one. -/
theorem isRedefining_cons {earlier cs : List Enumerator} {c : Enumerator} :
    IsRedefining earlier (c :: cs) ↔
      (∃ first, Redefines earlier c first) ∨ IsRedefining (earlier ++ [c]) cs := by
  constructor
  · rintro ⟨_ | ⟨x, xs⟩, d, ys, first, h, hr⟩
    · cases h
      exact .inl ⟨first, by rwa [List.append_nil] at hr⟩
    · cases h
      exact .inr ⟨xs, d, ys, first, rfl, by rwa [List.append_assoc]⟩
  · rintro (⟨first, hr⟩ | ⟨xs, d, ys, first, rfl, hr⟩)
    · exact ⟨[], c, cs, first, rfl, by rwa [List.append_nil]⟩
    · exact ⟨c :: xs, d, ys, first, rfl, by rwa [List.append_assoc] at hr⟩

/-- A redefinition among constants is one in the first part of them or in the rest. -/
theorem isRedefining_append {earlier xs ys : List Enumerator} :
    IsRedefining earlier (xs ++ ys) ↔ IsRedefining earlier xs ∨ IsRedefining (earlier ++ xs) ys := by
  induction xs generalizing earlier with
  | nil => simp [not_isRedefining_nil]
  | cons c xs ih => simp only [List.cons_append, isRedefining_cons, ih, List.append_assoc, or_assoc]; rfl

/-! ## First constants -/

/-- The constants whose names are new: no constant of `earlier` and none in front has the name. -/
def freshAfter (earlier : List Enumerator) : List Enumerator → List Enumerator
  | [] => []
  | c :: cs =>
    if c.ident ∈ earlier.map Enumerator.ident then freshAfter (earlier ++ [c]) cs
    else c :: freshAfter (earlier ++ [c]) cs

/-- Enumerations with the constants whose names are new. -/
def freshEnums (earlier : List Enumerator) : List Enumeration → List Enumeration
  | [] => []
  | e :: rest =>
    ⟨e.ident, freshAfter earlier e.enumerators⟩ :: freshEnums (earlier ++ e.enumerators) rest

theorem freshAfter_append (earlier xs ys : List Enumerator) :
    freshAfter earlier (xs ++ ys) = freshAfter earlier xs ++ freshAfter (earlier ++ xs) ys := by
  induction xs generalizing earlier with
  | nil => simp [freshAfter]
  | cons c xs ih =>
    simp only [List.cons_append, freshAfter, ih, List.append_assoc]
    split <;> rfl

/-- The constants of enumerations whose names are new are those of all of them. -/
theorem constantsOf_freshEnums (earlier : List Enumerator) (enums : List Enumeration) :
    constantsOf (freshEnums earlier enums) = freshAfter earlier (constantsOf enums) := by
  induction enums generalizing earlier with
  | nil => rfl
  | cons e rest ih =>
    show freshAfter earlier e.enumerators ++ constantsOf (freshEnums _ rest) =
      freshAfter earlier (e.enumerators ++ constantsOf rest)
    rw [ih, freshAfter_append]

/-- New constants stay in their order. -/
theorem freshAfter_sublist (earlier cs : List Enumerator) :
    List.Sublist (freshAfter earlier cs) cs := by
  induction cs generalizing earlier with
  | nil => exact .slnil
  | cons c cs ih =>
    rw [freshAfter]
    split
    · exact (ih _).cons c
    · exact (ih _).cons_cons c

/-- Names of new constants are new, and no two are the same. -/
theorem freshAfter_distinct (earlier cs : List Enumerator) :
    (∀ c ∈ freshAfter earlier cs, c.ident ∉ earlier.map Enumerator.ident) ∧
      ((freshAfter earlier cs).map Enumerator.ident).Nodup := by
  induction cs generalizing earlier with
  | nil => exact ⟨by simp [freshAfter], List.nodup_nil⟩
  | cons c cs ih =>
    obtain ⟨hnew, hdistinct⟩ := ih (earlier ++ [c])
    have hrest : ∀ d ∈ freshAfter (earlier ++ [c]) cs,
        d.ident ∉ earlier.map Enumerator.ident ∧ d.ident ≠ c.ident := by
      intro d hd
      simpa using hnew d hd
    rw [freshAfter]
    split
    · exact ⟨fun d hd => (hrest d hd).1, hdistinct⟩
    · rename_i hc
      refine ⟨fun d hd => ?_, ?_⟩
      · obtain rfl | hd := List.mem_cons.mp hd
        · exact hc
        · exact (hrest d hd).1
      · rw [List.map_cons, List.nodup_cons, List.mem_map]
        refine ⟨?_, hdistinct⟩
        rintro ⟨d, hd, hident⟩
        exact (hrest d hd).2 hident

/-- The first constant of a name is new. -/
theorem mem_freshAfter {earlier xs : List Enumerator} {c : Enumerator} (ys : List Enumerator)
    (h : ∀ d ∈ earlier ++ xs, d.ident ≠ c.ident) : c ∈ freshAfter earlier (xs ++ c :: ys) := by
  rw [freshAfter_append, freshAfter, if_neg]
  · exact List.mem_append_right _ List.mem_cons_self
  · rintro hmem
    obtain ⟨d, hd, hident⟩ := List.mem_map.mp hmem
    exact h d hd hident

/-- What has become of enumerations that have lost their duplicates. -/
structure IsDeduplicated (enums enums' : List Enumeration) : Prop where
  /-- Each enumeration keeps its name, and constants of its own in their order. -/
  kept : List.Forall₂
    (fun e e' => e'.ident = e.ident ∧ List.Sublist e'.enumerators e.enumerators) enums enums'
  /-- No two constants have the same name. -/
  distinct : ((constantsOf enums').map Enumerator.ident).Nodup
  /-- The first constant of a name stays in its enumeration. -/
  first : ∀ before e after xs c ys, enums = before ++ e :: after → e.enumerators = xs ++ c :: ys →
    (∀ d ∈ constantsOf before ++ xs, d.ident ≠ c.ident) →
    ∃ e', enums'[before.length]? = some e' ∧ c ∈ e'.enumerators

theorem freshEnums_append (earlier : List Enumerator) (xs ys : List Enumeration) :
    freshEnums earlier (xs ++ ys) =
      freshEnums earlier xs ++ freshEnums (earlier ++ constantsOf xs) ys := by
  induction xs generalizing earlier with
  | nil => simp [freshEnums, constantsOf]
  | cons e xs ih =>
    simp only [List.cons_append, freshEnums, ih, constantsOf, List.flatMap_cons, List.append_assoc]

theorem length_freshEnums (earlier : List Enumerator) (enums : List Enumeration) :
    (freshEnums earlier enums).length = enums.length := by
  induction enums generalizing earlier with
  | nil => rfl
  | cons e rest ih => rw [freshEnums, List.length_cons, List.length_cons, ih]

/-- Enumerations keep their names and constants of their own. -/
theorem freshEnums_kept (earlier : List Enumerator) (enums : List Enumeration) :
    List.Forall₂ (fun e e' => e'.ident = e.ident ∧ List.Sublist e'.enumerators e.enumerators) enums
      (freshEnums earlier enums) := by
  induction enums generalizing earlier with
  | nil => exact .nil
  | cons e rest ih => exact .cons ⟨rfl, freshAfter_sublist _ _⟩ (ih _)

/-- Enumerations with the constants whose names are new have lost their duplicates. -/
theorem isDeduplicated_freshEnums (enums : List Enumeration) :
    IsDeduplicated enums (freshEnums [] enums) := by
  refine ⟨freshEnums_kept [] enums, ?_, ?_⟩
  · rw [constantsOf_freshEnums]
    exact (freshAfter_distinct [] _).2
  · rintro before e after xs c ys rfl he hnew
    refine ⟨⟨e.ident, freshAfter (constantsOf before) e.enumerators⟩, ?_, ?_⟩
    · rw [freshEnums_append, List.getElem?_append_right (Nat.le_of_eq (length_freshEnums _ _)),
        length_freshEnums, Nat.sub_self]
      rfl
    · rw [he]
      exact mem_freshAfter ys hnew

/-! ## The walk -/

/-- A memory answers for constants: of each name it has the first one. -/
def AnswersFor (seen : Seen) (earlier : List Enumerator) : Prop :=
  ∀ name, seen.lookup name = firstOf? name earlier

section

variable {seen : Seen} {earlier : List Enumerator} {c : Enumerator}

/-- No constant has been passed yet. -/
theorem answersFor_nil : AnswersFor [] [] := fun _ => rfl

/-- A name is not remembered exactly if no constant has it. -/
theorem AnswersFor.lookup_eq_none_iff (h : AnswersFor seen earlier) :
    seen.lookup c.ident = none ↔ c.ident ∉ earlier.map Enumerator.ident := by
  rw [h, firstOf?, List.find?_eq_none, List.mem_map]
  simp

/-- A constant is remembered behind those before it. -/
theorem AnswersFor.add (h : AnswersFor seen earlier) (c : Enumerator) :
    AnswersFor (seen ++ [(c.ident, c)]) (earlier ++ [c]) := by
  intro name
  rw [List.lookup_append, h name, firstOf?, firstOf?, List.find?_append]
  by_cases hname : c.ident = name
  · subst hname
    simp
  · have hne : (name == c.ident) = false := beq_eq_false_iff_ne.mpr (Ne.symm hname)
    simp [hname, List.lookup_cons, hne]

/-- Another constant of a name that is remembered changes nothing. -/
theorem AnswersFor.pass (h : AnswersFor seen earlier) {first : Enumerator}
    (hold : seen.lookup c.ident = some first) : AnswersFor seen (earlier ++ [c]) := by
  intro name
  rw [h name, firstOf?, firstOf?, List.find?_append]
  by_cases hname : c.ident = name
  · have hfirst : earlier.find? (fun d => decide (d.ident = name)) = some first := by
      rw [← hname, ← hold, h]
      rfl
    rw [hfirst]
    rfl
  · simp [hname]

/-- What a walk over the constants of an enumeration comes to. -/
theorem keepFirst_spec (file enum : String) (h : AnswersFor seen earlier) (cs : List Enumerator) :
    (¬ IsRedefining earlier cs ∧ (keepFirst file enum seen cs).failure = none ∧
      (keepFirst file enum seen cs).enumerators = freshAfter earlier cs ∧
      AnswersFor (keepFirst file enum seen cs).seen (earlier ++ cs)) ∨
    ∃ xs c ys first, cs = xs ++ c :: ys ∧ ¬ IsRedefining earlier xs ∧
      Redefines (earlier ++ xs) c first ∧ (keepFirst file enum seen cs).failure =
        some (.redefined file c.ident enum c.value.resolve first.value.resolve) := by
  induction cs generalizing seen earlier with
  | nil => exact .inl ⟨not_isRedefining_nil _, rfl, rfl, by rwa [List.append_nil]⟩
  | cons c cs ih =>
    rw [keepFirst]
    cases hlookup : seen.lookup c.ident with
    | none =>
      have hnew : c.ident ∉ earlier.map Enumerator.ident := h.lookup_eq_none_iff.mp hlookup
      have hnone : ¬ ∃ first, Redefines earlier c first := by
        rintro ⟨first, hr⟩
        cases (h c.ident).symm.trans hlookup ▸ hr.isFirst
      rw [isRedefining_cons, freshAfter, if_neg hnew]
      obtain ⟨hrest, hfailure, henumerators, hseen⟩ | ⟨xs, d, ys, first, rfl, hxs, hr, hfailure⟩ :=
        ih (h.add c)
      · refine .inl ⟨not_or.mpr ⟨hnone, hrest⟩, hfailure, congrArg (c :: ·) henumerators, ?_⟩
        rwa [List.append_assoc] at hseen
      · refine .inr ⟨c :: xs, d, ys, first, rfl, ?_, by rwa [List.append_assoc] at hr, hfailure⟩
        exact fun h' => (isRedefining_cons.mp h').elim hnone hxs
    | some first =>
      have hfirst : firstOf? c.ident earlier = some first := (h c.ident).symm.trans hlookup
      have hold : c.ident ∈ earlier.map Enumerator.ident := by
        by_contra hnew
        cases hlookup.symm.trans (h.lookup_eq_none_iff.mpr hnew)
      dsimp only
      split
      · rename_i hdiffer
        refine .inr ⟨[], c, cs, first, rfl, not_isRedefining_nil _, ?_, rfl⟩
        rw [List.append_nil]
        exact (redefines_iff hfirst).mpr hdiffer
      · rename_i hsame
        have hnone : ¬ ∃ first, Redefines earlier c first := by
          rintro ⟨first', hr⟩
          cases hfirst.symm.trans hr.isFirst
          exact hsame ((redefines_iff hfirst).mp hr)
        rw [isRedefining_cons, freshAfter, if_pos hold]
        obtain ⟨hrest, hfailure, henumerators, hseen⟩ | ⟨xs, d, ys, first', rfl, hxs, hr, hfailure⟩ :=
          ih (h.pass hlookup)
        · refine .inl ⟨not_or.mpr ⟨hnone, hrest⟩, hfailure, henumerators, ?_⟩
          rwa [List.append_assoc] at hseen
        · refine .inr ⟨c :: xs, d, ys, first', rfl, ?_, by rwa [List.append_assoc] at hr, hfailure⟩
          exact fun h' => (isRedefining_cons.mp h').elim hnone hxs

/-- What a walk over enumerations comes to. -/
theorem dedupEnums_spec (file : String) (h : AnswersFor seen earlier) (enums : List Enumeration) :
    (¬ IsRedefining earlier (constantsOf enums) ∧ (dedupEnums file seen enums).failure = none ∧
      (dedupEnums file seen enums).value = freshEnums earlier enums) ∨
    ∃ before e after xs c ys first, enums = before ++ e :: after ∧ e.enumerators = xs ++ c :: ys ∧
      ¬ IsRedefining earlier (constantsOf before ++ xs) ∧
      Redefines (earlier ++ constantsOf before ++ xs) c first ∧
      (dedupEnums file seen enums).failure =
        some (.redefined file c.ident e.ident c.value.resolve first.value.resolve) ∧
      (dedupEnums file seen enums).value = freshEnums earlier before ++ e :: after := by
  induction enums generalizing seen earlier with
  | nil => exact .inl ⟨not_isRedefining_nil _, rfl, rfl⟩
  | cons e rest ih =>
    rw [dedupEnums]
    obtain ⟨hnone, hfailure, henumerators, hseen⟩ | ⟨xs, c, ys, first, he, hxs, hr, hfailure⟩ :=
      keepFirst_spec file e.ident h e.enumerators
    · simp only [hfailure]
      obtain ⟨hrest, hfailure', hvalue⟩ |
        ⟨before, e', after, xs, c, ys, first, rfl, he', hxs, hr, hfailure', hvalue⟩ := ih hseen
      · refine .inl ⟨?_, hfailure', ?_⟩
        · rw [constantsOf, List.flatMap_cons, isRedefining_append]
          exact not_or.mpr ⟨hnone, hrest⟩
        · rw [hvalue, henumerators]
          rfl
      · refine .inr ⟨e :: before, e', after, xs, c, ys, first, rfl, he', ?_, ?_, hfailure', ?_⟩
        · rw [constantsOf, List.flatMap_cons, List.append_assoc, isRedefining_append]
          exact not_or.mpr ⟨hnone, hxs⟩
        · rw [constantsOf, List.flatMap_cons, ← List.append_assoc]
          exact hr
        · rw [hvalue, henumerators]
          rfl
    · simp only [hfailure]
      exact .inr ⟨[], e, rest, xs, c, ys, first, rfl, he, hxs, by rwa [constantsOf, List.flatMap_nil,
        List.append_nil], rfl, rfl⟩

/-- A walk over constants of different names that are new keeps all of them. -/
theorem keepFirst_distinct (file enum : String) (h : AnswersFor seen earlier) {cs : List Enumerator}
    (hdistinct : ((earlier ++ cs).map Enumerator.ident).Nodup) :
    ∃ seen', keepFirst file enum seen cs = ⟨cs, seen', [], none⟩ ∧ AnswersFor seen' (earlier ++ cs) := by
  induction cs generalizing seen earlier with
  | nil => exact ⟨seen, rfl, by rwa [List.append_nil]⟩
  | cons c cs ih =>
    rw [List.append_cons] at hdistinct ⊢
    have hnew : c.ident ∉ earlier.map Enumerator.ident := by
      rw [List.map_append, List.map_append, List.nodup_append, List.nodup_append] at hdistinct
      exact fun hmem => hdistinct.1.2.2 _ hmem _ List.mem_cons_self rfl
    have hlookup : seen.lookup c.ident = none := h.lookup_eq_none_iff.mpr hnew
    obtain ⟨seen', hkeep, hseen'⟩ := ih (h.add c) hdistinct
    refine ⟨seen', ?_, hseen'⟩
    rw [keepFirst, hlookup]
    simp only [hkeep]

/-- A walk over enumerations with constants of different names changes nothing. -/
theorem dedupEnums_distinct (file : String) (h : AnswersFor seen earlier) (enums : List Enumeration)
    (hdistinct : ((earlier ++ constantsOf enums).map Enumerator.ident).Nodup) :
    dedupEnums file seen enums = .done enums := by
  induction enums generalizing seen earlier with
  | nil => rfl
  | cons e rest ih =>
    rw [constantsOf, List.flatMap_cons, ← List.append_assoc] at hdistinct
    have hown : ((earlier ++ e.enumerators).map Enumerator.ident).Nodup := by
      rw [List.map_append] at hdistinct
      exact (List.nodup_append.mp hdistinct).1
    obtain ⟨seen', hkeep, hseen'⟩ := keepFirst_distinct file e.ident h hown
    rw [dedupEnums, hkeep]
    simp only [ih hseen' hdistinct]
    rfl

end

/-! ## Whole headers -/

/-- **Duplicates.**  A header is refused exactly if a constant has another known value than the first
one of its name.  Otherwise its constants lose their duplicates, and another walk changes nothing.  If
it is refused, the enumerations in front of the one with the first redefinition have lost their
duplicates, and everything else is as it was. -/
theorem dedupHeader_deduplicates (h : Header) :
    ((dedupHeader h).failure ≠ none ↔ IsRedefining [] (constantsOf h.enums)) ∧
    match (dedupHeader h).failure with
    | none => ∃ enums, (dedupHeader h).value = { h with enums } ∧ IsDeduplicated h.enums enums ∧
        dedupHeader { h with enums } = .done { h with enums }
    | some failure => ∃ before e after xs c ys first enums, h.enums = before ++ e :: after ∧
        e.enumerators = xs ++ c :: ys ∧ ¬ IsRedefining [] (constantsOf before ++ xs) ∧
        Redefines (constantsOf before ++ xs) c first ∧
        failure = .redefined h.file c.ident e.ident c.value.resolve first.value.resolve ∧
        IsDeduplicated before enums ∧ (dedupHeader h).value = { h with enums := enums ++ e :: after } := by
  unfold dedupHeader
  simp only [Change.map]
  obtain ⟨hnone, hfailure, hvalue⟩ |
    ⟨before, e, after, xs, c, ys, first, henums, he, hxs, hr, hfailure, hvalue⟩ :=
      dedupEnums_spec h.file answersFor_nil h.enums
  · rw [hfailure, hvalue]
    have hdeduplicated := isDeduplicated_freshEnums h.enums
    have hagain := dedupEnums_distinct h.file answersFor_nil (freshEnums [] h.enums)
      hdeduplicated.distinct
    exact ⟨⟨fun hne => absurd rfl hne, fun hredefining => absurd hredefining hnone⟩,
      _, rfl, hdeduplicated, by rw [hagain]; rfl⟩
  · rw [hfailure, hvalue]
    refine ⟨⟨fun _ => ?_, fun _ => Option.some_ne_none _⟩, before, e, after, xs, c, ys, first, _,
      henums, he, hxs, hr, rfl, isDeduplicated_freshEnums before, rfl⟩
    refine ⟨constantsOf before ++ xs, c, ys ++ constantsOf after, first, ?_, hr⟩
    rw [henums, constantsOf, List.flatMap_append, List.flatMap_cons, he]
    simp [constantsOf]

-- the first enumeration has lost its duplicate, the second one redefines and stays
example : (dedupEnums "a.h" []
    [⟨"A", [⟨"X", .ofNumber 1 ""⟩, ⟨"X", .ofRaw "(X)"⟩]⟩,
      ⟨"B", [⟨"Y", .ofNumber 3 ""⟩, ⟨"Y", .ofNumber 3 ""⟩, ⟨"X", .ofNumber 2 ""⟩]⟩]).value =
    [⟨"A", [⟨"X", .ofNumber 1 ""⟩]⟩,
      ⟨"B", [⟨"Y", .ofNumber 3 ""⟩, ⟨"Y", .ofNumber 3 ""⟩, ⟨"X", .ofNumber 2 ""⟩]⟩] := by
  decide +kernel

end SdkBindings.Transform
