import SdkBindings.Proofs.Module.Definitions

/-!
# Which macro binds a name

Several macros of a project may come out under one name, in one header or in several.  Of these the
first one that can be written as a binding binds the name: a version guard, a macro that stands for
itself and one whose line is a remark are passed over, and behind the first binding nothing more is
written for the name (`constants_inTurn`).  So no name is bound twice over all sections of constants
(`assigned_nodup`).

The writer keeps the list of the names that macros have bound.  The invariant is that it holds
exactly the names of those macros so far that were not passed over (`Remembers`).
-/

namespace SdkBindings.Module

/-! ## Members of a list in turn -/

/-- Each member of a list stands in a relation to those before it, the members of `earlier` among
them. -/
def InTurn {α : Type} (R : List α → α → Prop) (earlier : List α) : List α → Prop
  | [] => True
  | x :: rest => R earlier x ∧ InTurn R (earlier ++ [x]) rest

/-- Two lists in a row are in turn if the second one is after the first one. -/
theorem InTurn.append {α : Type} {R : List α → α → Prop} {earlier xs ys : List α}
    (hx : InTurn R earlier xs) (hy : InTurn R (earlier ++ xs) ys) : InTurn R earlier (xs ++ ys) := by
  induction xs generalizing earlier with
  | nil => simpa using hy
  | cons x rest ih => exact ⟨hx.1, ih hx.2 (by simpa using hy)⟩

/-! ## What is written for a macro -/

/-- The names that lines bind, other than in remarks. -/
def assigned (lines : List Line) : List String :=
  binders (lines.filter fun line => !line.isRemark)

@[simp] theorem assigned_append (xs ys : List Line) :
    assigned (xs ++ ys) = assigned xs ++ assigned ys := by
  simp [assigned, binders]

/-- A macro gives nothing to bind: it is a version guard, it stands for itself, or what is written
for it is a remark. -/
def IsPassedOver (p : Macro × List Line) : Prop :=
  Rules.isVersionGuard (safeName p.1.ident) = true ∨ safeName p.1.ident = p.1.value.resolve ∨
    ∃ remark, p.2 = [remark] ∧ remark.isRemark = true

/-- What is written for a macro is a binding of its name. -/
def IsBinding (p : Macro × List Line) : Prop :=
  ∃ expression, p.2 = [.bind (safeName p.1.ident) expression] ∧
    (Line.bind (safeName p.1.ident) expression).isRemark = false

/-- What is written for a macro after others: at most one line, which binds its name exactly if the
macro is the first one of that name that is not passed over. -/
structure IsOutcome (earlier : List (Macro × List Line)) (p : Macro × List Line) : Prop where
  /-- Nothing, a remark or a binding is written. -/
  line : p.2 = [] ∨ (∃ remark, p.2 = [remark] ∧ remark.isRemark = true) ∨ IsBinding p
  /-- The first macro of a name that is not passed over binds it. -/
  binding : IsBinding p ↔
    ¬ IsPassedOver p ∧
      ∀ q ∈ earlier, safeName q.1.ident = safeName p.1.ident → IsPassedOver q

/-- A binding binds one name. -/
theorem assigned_of_isBinding {p : Macro × List Line} (h : IsBinding p) :
    assigned p.2 = [safeName p.1.ident] := by
  obtain ⟨expression, hlines, hremark⟩ := h
  simp [assigned, binders, hlines, hremark, Line.binders]

/-- What is no binding binds nothing. -/
theorem IsOutcome.assigned_eq_nil {earlier : List (Macro × List Line)} {p : Macro × List Line}
    (h : IsOutcome earlier p) (hnone : ¬ IsBinding p) : assigned p.2 = [] := by
  rcases h.line with hlines | ⟨remark, hlines, hremark⟩ | hbinding
  · simp [assigned, binders, hlines]
  · simp [assigned, binders, hlines, hremark]
  · exact absurd hbinding hnone

/-- A name that is bound is that of a macro that is not passed over. -/
theorem IsOutcome.of_mem_assigned {earlier : List (Macro × List Line)} {p : Macro × List Line}
    (h : IsOutcome earlier p) {name : String} (hname : name ∈ assigned p.2) :
    safeName p.1.ident = name ∧ IsBinding p := by
  by_cases hbinding : IsBinding p
  · rw [assigned_of_isBinding hbinding, List.mem_singleton] at hname
    exact ⟨hname.symm, hbinding⟩
  · rw [h.assigned_eq_nil hbinding] at hname
    cases hname

/-- Of macros in turn none binds a name that one before them was written for, unless that one was
passed over. -/
theorem not_mem_assigned {earlier outcomes : List (Macro × List Line)}
    (h : InTurn IsOutcome earlier outcomes) {q : Macro × List Line} (hq : q ∈ earlier)
    (hwritten : ¬ IsPassedOver q) :
    safeName q.1.ident ∉ assigned (outcomes.flatMap Prod.snd) := by
  induction outcomes generalizing earlier with
  | nil => simp [assigned, binders]
  | cons p rest ih =>
    rw [List.flatMap_cons, assigned_append, List.mem_append, not_or]
    refine ⟨fun hname => ?_, ih h.2 (List.mem_append_left [p] hq)⟩
    obtain ⟨hsame, hbinding⟩ := h.1.of_mem_assigned hname
    exact hwritten ((h.1.binding.mp hbinding).2 q hq hsame.symm)

/-- Macros in turn bind no name twice. -/
theorem assigned_nodup {earlier outcomes : List (Macro × List Line)}
    (h : InTurn IsOutcome earlier outcomes) : (assigned (outcomes.flatMap Prod.snd)).Nodup := by
  induction outcomes generalizing earlier with
  | nil => simp [assigned, binders]
  | cons p rest ih =>
    rw [List.flatMap_cons, assigned_append]
    by_cases hbinding : IsBinding p
    · have hnew := not_mem_assigned h.2 (List.mem_append_right earlier (List.mem_singleton_self p))
        (h.1.binding.mp hbinding).1
      rw [assigned_of_isBinding hbinding, List.singleton_append, List.nodup_cons]
      exact ⟨hnew, ih h.2⟩
    · rw [h.1.assigned_eq_nil hbinding, List.nil_append]
      exact ih h.2

/-! ## What the writer remembers -/

/-- What the writer remembers while it writes constants. -/
structure Remembers (w : Written) (earlier : List (Macro × List Line)) : Prop where
  /-- The names that are bound are those of the macros so far that were not passed over. -/
  bound : ∀ name, name ∈ w.constants ↔ ∃ q ∈ earlier, safeName q.1.ident = name ∧ ¬ IsPassedOver q
  /-- No type is known yet. -/
  types : w.types = []

/-- A macro that is passed over leaves everything as it is. -/
theorem Remembers.pass {w w' : Written} {earlier : List (Macro × List Line)}
    (h : Remembers w earlier) {p : Macro × List Line} (hpassed : IsPassedOver p)
    (hsame : w'.constants = w.constants) (htypes : w'.types = w.types) :
    Remembers w' (earlier ++ [p]) := by
  refine ⟨fun name => ?_, htypes.trans h.types⟩
  rw [hsame, h.bound name]
  constructor
  · rintro ⟨q, hq, hname⟩
    exact ⟨q, List.mem_append_left [p] hq, hname⟩
  · rintro ⟨q, hq, hname, hwritten⟩
    rcases List.mem_append.mp hq with hq | hq
    · exact ⟨q, hq, hname, hwritten⟩
    · rw [List.mem_singleton] at hq
      exact absurd (hq ▸ hpassed) hwritten

/-- With a macro that is not passed over its name is among those that are bound. -/
theorem Remembers.add {w w' : Written} {earlier : List (Macro × List Line)}
    (h : Remembers w earlier) {p : Macro × List Line} (hwritten : ¬ IsPassedOver p)
    (hadded : ∀ name, name ∈ w'.constants ↔ name ∈ w.constants ∨ name = safeName p.1.ident)
    (htypes : w'.types = w.types) : Remembers w' (earlier ++ [p]) := by
  refine ⟨fun name => ?_, htypes.trans h.types⟩
  rw [hadded, h.bound name]
  constructor
  · rintro (⟨q, hq, hname⟩ | rfl)
    · exact ⟨q, List.mem_append_left [p] hq, hname⟩
    · exact ⟨p, List.mem_append_right earlier (List.mem_singleton_self p), rfl, hwritten⟩
  · rintro ⟨q, hq, hname, hq'⟩
    rcases List.mem_append.mp hq with hq | hq
    · exact .inl ⟨q, hq, hname, hq'⟩
    · rw [List.mem_singleton] at hq
      exact .inr (hq ▸ hname.symm)

/-- Which macros are bound does not change with the line of a constant by itself. -/
theorem assignment_constants {name : String} {value : Value} {w w' : Written} {line : Line}
    (h : (assignment name value).run w = (.ok line, w')) : w'.constants = w.constants := by
  unfold assignment at h
  split at h
  · cases h
    rfl
  split at h
  · cases h
  obtain ⟨_, _, hget, h⟩ := run_bind_ok h
  cases hget
  split at h <;> cases h <;> rfl

/-- A remark that leaves out a binding is a remark. -/
theorem isRemark_comment (text : String) : (Line.comment text).isRemark = true := by
  simp [Line.isRemark, Line.render_comment]

/-- Nothing is written for a macro that is passed over, or behind one of its name that is not. -/
theorem isOutcome_nothing {earlier : List (Macro × List Line)} {m : Macro}
    (h : IsPassedOver (m, []) ∨
      ∃ q ∈ earlier, safeName q.1.ident = safeName m.ident ∧ ¬ IsPassedOver q) :
    IsOutcome earlier (m, []) := by
  refine ⟨.inl rfl, iff_of_false ?_ ?_⟩
  · rintro ⟨_, hlines, -⟩
    cases hlines
  · rintro ⟨hwritten, hfirst⟩
    rcases h with hpassed | ⟨q, hq, hname, hq'⟩
    · exact hwritten hpassed
    · exact hq' (hfirst q hq hname)

/-- A remark passes its macro over. -/
theorem isOutcome_remark {earlier : List (Macro × List Line)} {m : Macro} {line : Line}
    (hremark : line.isRemark = true) : IsOutcome earlier (m, [line]) := by
  refine ⟨.inr (.inl ⟨line, rfl, hremark⟩), iff_of_false ?_ ?_⟩
  · rintro ⟨_, hlines, hbind⟩
    rw [← List.singleton_inj.mp hlines, hremark] at hbind
    cases hbind
  · rintro ⟨hwritten, -⟩
    exact hwritten (.inr (.inr ⟨line, rfl, hremark⟩))

/-- A macro that is no version guard, does not stand for itself and has no remark is not passed
over. -/
theorem not_isPassedOver {p : Macro × List Line}
    (hguard : Rules.isVersionGuard (safeName p.1.ident) ≠ true)
    (hself : safeName p.1.ident ≠ p.1.value.resolve)
    (hlines : ∀ line, p.2 = [line] → line.isRemark = false) : ¬ IsPassedOver p := by
  rintro (hg | hs | ⟨remark, hr, hremark⟩)
  · exact hguard hg
  · exact hself hs
  · exact Bool.false_ne_true ((hlines remark hr).symm.trans hremark)

/-- What is written for a macro after others, and what is remembered of it. -/
theorem constantLine_outcome {m : Macro} {w w' : Written} {lines : List Line}
    (h : (constantLine m).run w = (.ok lines, w')) {earlier : List (Macro × List Line)}
    (hw : Remembers w earlier) :
    IsOutcome earlier (m, lines) ∧ Remembers w' (earlier ++ [(m, lines)]) := by
  unfold constantLine at h
  obtain ⟨_, _, hget, h⟩ := run_bind_ok h
  cases hget
  dsimp only at h
  by_cases hguard : Rules.isVersionGuard (safeName m.ident) = true
  · rw [hguard, Bool.or_true, if_pos rfl] at h
    obtain ⟨rfl, rfl⟩ := run_pure_ok h
    have hpassed : IsPassedOver (m, []) := .inl hguard
    exact ⟨isOutcome_nothing (.inl hpassed), hw.pass hpassed rfl rfl⟩
  by_cases hself : safeName m.ident = m.value.resolve
  · rw [if_pos hself, ite_self] at h
    obtain ⟨rfl, rfl⟩ := run_pure_ok h
    have hpassed : IsPassedOver (m, []) := .inr (.inl hself)
    exact ⟨isOutcome_nothing (.inl hpassed), hw.pass hpassed rfl rfl⟩
  rw [Bool.eq_false_iff.mpr hguard, Bool.or_false, if_neg hself] at h
  by_cases hbound : safeName m.ident ∈ w.constants
  · -- the name is bound, so some macro before it was not passed over
    rw [if_pos (List.contains_iff_mem.mpr hbound)] at h
    obtain ⟨rfl, rfl⟩ := run_pure_ok h
    refine ⟨isOutcome_nothing (.inr ((hw.bound _).mp hbound)), hw.add ?_ (fun name => ?_) rfl⟩
    · exact not_isPassedOver hguard hself fun line hline => by cases hline
    · exact ⟨Or.inl, fun hmem => hmem.elim id fun hname => hname ▸ hbound⟩
  rw [if_neg (by rwa [List.contains_iff_mem])] at h
  obtain ⟨line, w₁, hline, h⟩ := run_bind_ok h
  have hsame := assignment_constants hline
  have htypes := (assignment_run hline).1
  cases hremark : line.isRemark with
  | true =>
    rw [hremark] at h
    cases h
    exact ⟨isOutcome_remark hremark, hw.pass (.inr (.inr ⟨line, rfl, hremark⟩)) hsame htypes⟩
  | false =>
    rw [hremark] at h
    cases h
    have hbinding : IsBinding (m, [line]) := by
      rcases assignment_ok hline with ⟨text, rfl, -⟩ | ⟨expression, rfl, -⟩
      · exact absurd (isRemark_comment text) (by rw [hremark]; exact Bool.false_ne_true)
      · exact ⟨expression, rfl, hremark⟩
    have hwritten : ¬ IsPassedOver (m, [line]) := by
      refine not_isPassedOver hguard hself fun line' hsame => ?_
      cases hsame
      exact hremark
    have hfirst : ∀ q ∈ earlier, safeName q.1.ident = safeName m.ident → IsPassedOver q := by
      intro q hq hname
      refine Classical.byContradiction fun hq' => hbound ?_
      exact (hw.bound _).mpr ⟨q, hq, hname, hq'⟩
    refine ⟨⟨.inr (.inr hbinding), iff_of_true hbinding ⟨hwritten, hfirst⟩⟩,
      hw.add hwritten (fun name => ?_) htypes⟩
    show name ∈ addName (safeName m.ident) w₁.constants ↔ _
    rw [mem_addName, hsame]

/-- What is written for macros in a row is in turn. -/
theorem constantLines_inTurn {ms : List Macro} {w w' : Written} {parts : List (List Line)}
    (h : (ms.mapM constantLine).run w = (.ok parts, w')) {earlier : List (Macro × List Line)}
    (hw : Remembers w earlier) :
    ∃ outcomes : List (Macro × List Line), outcomes.map Prod.fst = ms ∧
      outcomes.map Prod.snd = parts ∧ InTurn IsOutcome earlier outcomes ∧
      Remembers w' (earlier ++ outcomes) := by
  induction ms generalizing w parts earlier with
  | nil =>
    obtain ⟨rfl, rfl⟩ := run_pure_ok h
    exact ⟨[], rfl, rfl, trivial, by simpa using hw⟩
  | cons m ms ih =>
    rw [List.mapM_cons] at h
    obtain ⟨lines, w₁, hlines, h⟩ := run_bind_ok h
    obtain ⟨rest, w₂, hrest, h⟩ := run_bind_ok h
    obtain ⟨rfl, rfl⟩ := run_pure_ok h
    obtain ⟨hfirst, hw₁⟩ := constantLine_outcome hlines hw
    obtain ⟨outcomes, hmacros, hparts, hturn, hw₂⟩ := ih hrest hw₁
    refine ⟨(m, lines) :: outcomes, ?_, ?_, ⟨hfirst, hturn⟩, ?_⟩
    · rw [List.map_cons, hmacros]
    · rw [List.map_cons, hparts]
    · simpa using hw₂

/-! ## The sections of constants -/

/-- What is written for the macros of a header, as a section. -/
def outcomesSection (p : Header × List (Macro × List Line)) : List Line :=
  underHeading [.comment ("Constants: " ++ p.1.file)] (p.2.flatMap Prod.snd) [.blank, .blank]

/-- What is written for the macros of a project is in turn, over all sections of constants. -/
theorem constants_inTurn {hs : Project} {w w' : Written} {sections : List (List Line)}
    (h : (hs.mapM constantsSection).run w = (.ok sections, w'))
    {earlier : List (Macro × List Line)} (hw : Remembers w earlier) :
    ∃ written : List (Header × List (Macro × List Line)),
      written.map Prod.fst = hs ∧ (∀ p ∈ written, p.2.map Prod.fst = p.1.macros) ∧
      sections.flatten = written.flatMap outcomesSection ∧
      InTurn IsOutcome earlier (written.flatMap Prod.snd) ∧
      Remembers w' (earlier ++ written.flatMap Prod.snd) := by
  induction hs generalizing w sections earlier with
  | nil =>
    obtain ⟨rfl, rfl⟩ := run_pure_ok h
    exact ⟨[], rfl, by simp, rfl, trivial, by simpa using hw⟩
  | cons x hs ih =>
    rw [List.mapM_cons] at h
    obtain ⟨lines, w₁, hlines, h⟩ := run_bind_ok h
    obtain ⟨rest, w₂, hrest, h⟩ := run_bind_ok h
    obtain ⟨rfl, rfl⟩ := run_pure_ok h
    unfold constantsSection at hlines
    obtain ⟨parts, w₃, hparts, hlines⟩ := run_bind_ok hlines
    obtain ⟨rfl, rfl⟩ := run_pure_ok hlines
    obtain ⟨outcomes, hmacros, rfl, hturn, hw₁⟩ := constantLines_inTurn hparts hw
    obtain ⟨written, hfirst, hall, hsections, hturn', hw₂⟩ := ih hrest hw₁
    refine ⟨(x, outcomes) :: written, ?_, ?_, ?_, hturn.append hturn', ?_⟩
    · rw [List.map_cons, hfirst]
    · intro p hp
      rcases List.mem_cons.mp hp with rfl | hp
      · exact hmacros
      · exact hall p hp
    · rw [List.flatten_cons, hsections, List.flatMap_cons, outcomesSection, List.flatMap_def (l := outcomes)]
    · simpa using hw₂

/-- A section of constants binds what the lines of its macros bind. -/
theorem assigned_outcomesSection (p : Header × List (Macro × List Line)) :
    assigned (outcomesSection p) = assigned (p.2.flatMap Prod.snd) := by
  unfold outcomesSection underHeading
  split
  · rename_i hnone
    rw [hnone]
  · simp [assigned, binders, Line.isRemark, Line.render_comment, Line.render_text, Line.blank,
      Line.binders]

/-- The sections of constants bind what the lines of their macros bind. -/
theorem assigned_sections (written : List (Header × List (Macro × List Line))) :
    assigned (written.flatMap outcomesSection) =
      assigned ((written.flatMap Prod.snd).flatMap Prod.snd) := by
  induction written with
  | nil => rfl
  | cons p rest ih =>
    simp only [List.flatMap_cons, List.flatMap_append, assigned_append, ih,
      assigned_outcomesSection]

end SdkBindings.Module
