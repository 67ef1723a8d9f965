import Mathlib.Data.List.Count
import Mathlib.Data.List.Forall2
import Mathlib.Data.List.Nodup
import SdkBindings.Proofs.Module.Constants

/-!
# Every type is declared once and laid out once

The classes of a module are opened in one walk over the headers and laid out in another one, with the
aliases and enumerations between them.  What connects the two walks is the list of classes that each
header has opened, and what keeps a class from being opened twice is the list of type names, which
structs of all headers and their tables share.

`generate_declares_once` says what a module declares without either list: the classes of its structs
in turn (`classShapes`), each by one class statement, and below all of them one layout for each, with
an entry for every field in order.  It also says which macro binds each name of the sections of
constants.  The invariant of the first walk is that the type names are the classes opened so far; the
second walk writes what it is handed.  All of this is found again in the lines of the text if the module
is legible (`ShowsOnce`), next to the two classes of the support code.
-/

namespace SdkBindings.Module

/-! ## What lines open and lay out -/

/-- The classes of the class statements among lines, in order. -/
def openedClasses (lines : List Line) : List String :=
  lines.filterMap Line.opened?

/-- The class that a heading opens. -/
def Heading.opened? : Heading → Option String
  | .opened name => some name
  | .layout _ => none

/-- The classes that lines open are those of their headings. -/
theorem openedClasses_eq (lines : List Line) :
    openedClasses lines = (lines.filterMap Line.heading?).filterMap Heading.opened? := by
  rw [openedClasses, List.filterMap_filterMap]
  refine List.filterMap_congr fun line _ => ?_
  cases line <;> rfl

/-- The entry of a field in a layout: a remark for a union, else a member with the type of the field
or with that of an address. -/
def IsEntry (f : Field) (line : Line) : Prop :=
  if f.type.shape = .union then
    line = .body 1 ("# union \x7b" ++ ", ".intercalate (f.type.members.map Field.name) ++
      "\x7d is not laid out")
  else line = .member (memberName f) (memberType f) ∨ line = .member (memberName f) voidPointer

/-- Among lines there is the layout of a class, with one entry for each field, in order. -/
def HasLayout (lines : List Line) (shape : String × List Field) : Prop :=
  ∃ before entries after, lines = before ++ .openLayout shape.1 :: entries ++ .closeLayout :: after ∧
    List.Forall₂ IsEntry shape.2 entries

/-- A layout among lines is there among more of them. -/
theorem HasLayout.mono {xs ys : List Line} {shape : String × List Field} (h : HasLayout xs shape)
    (hmore : xs <:+: ys) : HasLayout ys shape := by
  obtain ⟨before, entries, after, rfl, hentries⟩ := h
  obtain ⟨first, last, rfl⟩ := hmore
  exact ⟨first ++ before, entries, after ++ last, by simp, hentries⟩

/-! ## The classes of a project -/

/-- The structs of a project with their headers, in order. -/
def projectStructs (project : Project) : List (Header × Struct) :=
  project.flatMap fun h => h.structs.map fun s => (h, s)

/-- The classes that a struct declares where some names are taken: none if its own name is; else its
own and that of its table of methods, unless the name of the table is taken by then. -/
def structShapes (h : Header) (s : Struct) (taken : List String) : List (String × List Field) :=
  if s.ident ∈ taken then []
  else
    (s.ident, s.fields) ::
      match h.vtable? s with
      | none => []
      | some t => if t.ident ∈ taken ++ [s.ident] then [] else [(t.ident, t.fields)]

/-- The names of classes. -/
def shapeNames (shapes : List (String × List Field)) : List String :=
  shapes.map Prod.fst

/-- The classes of structs in turn where some names are taken. -/
def classShapes (taken : List String) : List (Header × Struct) → List (String × List Field)
  | [] => []
  | (h, s) :: rest =>
    structShapes h s taken ++ classShapes (taken ++ shapeNames (structShapes h s taken)) rest

@[simp] theorem shapeNames_append (xs ys : List (String × List Field)) :
    shapeNames (xs ++ ys) = shapeNames xs ++ shapeNames ys :=
  List.map_append

/-- A struct is skipped exactly if its name is taken. -/
theorem structShapes_eq_nil_iff {h : Header} {s : Struct} {taken : List String} :
    structShapes h s taken = [] ↔ s.ident ∈ taken := by
  unfold structShapes
  split <;> simp [*]

/-- The classes of a struct do not repeat a name, nor one that is taken. -/
theorem shapeNames_structShapes_nodup {h : Header} {s : Struct} {taken : List String}
    (htaken : taken.Nodup) : (taken ++ shapeNames (structShapes h s taken)).Nodup := by
  unfold structShapes
  by_cases hs : s.ident ∈ taken
  · simpa [hs, shapeNames] using htaken
  have hown : (taken ++ [s.ident]).Nodup := by
    rw [List.nodup_append]
    refine ⟨htaken, by simp, ?_⟩
    rintro a ha b hb rfl
    exact hs (List.mem_singleton.mp hb ▸ ha)
  rw [if_neg hs]
  split
  · exact hown
  · rename_i t _
    by_cases ht : t.ident ∈ taken ++ [s.ident]
    · rw [if_pos ht]
      exact hown
    · rw [if_neg ht]
      show (taken ++ [s.ident, t.ident]).Nodup
      rw [List.append_cons, List.nodup_append]
      refine ⟨hown, by simp, ?_⟩
      rintro a ha b hb rfl
      exact ht (List.mem_singleton.mp hb ▸ ha)

/-- The classes of structs in turn do not repeat a name, nor one that is taken. -/
theorem shapeNames_classShapes_nodup (structs : List (Header × Struct)) {taken : List String}
    (htaken : taken.Nodup) : (taken ++ shapeNames (classShapes taken structs)).Nodup := by
  induction structs generalizing taken with
  | nil => simpa [classShapes, shapeNames] using htaken
  | cons p rest ih =>
    have hrest := ih (shapeNames_structShapes_nodup (h := p.1) (s := p.2) htaken)
    simpa [classShapes] using hrest

/-- Structs in a row declare the classes of the first ones and then those of the others. -/
theorem classShapes_append (xs ys : List (Header × Struct)) (taken : List String) :
    classShapes taken (xs ++ ys) =
      classShapes taken xs ++ classShapes (taken ++ shapeNames (classShapes taken xs)) ys := by
  induction xs generalizing taken with
  | nil => simp [classShapes, shapeNames]
  | cons p rest ih => simp [classShapes, ih]

/-! ## Opening classes -/

/-- The name and the fields of a class. -/
def OpenedClass.shape (c : OpenedClass) : String × List Field :=
  (c.ident, c.fields)

/-- The lines of a class are its statement and mere text below it. -/
def OpenedClass.IsPlain (c : OpenedClass) : Prop :=
  ∃ body, c.lines = .openClass c.ident :: body ∧ body.all Line.isText = true

/-- The classes that a step opens: they have the shapes, are plain, and their names are the types
that are known besides those before. -/
structure Opens (w : Written) (shapes : List (String × List Field)) (classes : List OpenedClass)
    (w' : Written) : Prop where
  /-- They have the shapes. -/
  shape : classes.map OpenedClass.shape = shapes
  /-- They are plain. -/
  plain : ∀ c ∈ classes, c.IsPlain
  /-- Their names are known. -/
  types : w'.types = w.types ++ shapeNames shapes

/-- Opening no class. -/
theorem Opens.none {w w' : Written} (h : w'.types = w.types) : Opens w [] [] w' :=
  ⟨rfl, by simp, by simpa [shapeNames] using h⟩

/-- Opening classes after classes. -/
theorem Opens.append {w w' w'' : Written} {shapes shapes' : List (String × List Field)}
    {classes classes' : List OpenedClass} (h : Opens w shapes classes w')
    (h' : Opens w' shapes' classes' w'') :
    Opens w (shapes ++ shapes') (classes ++ classes') w'' := by
  refine ⟨?_, ?_, ?_⟩
  · rw [List.map_append, h.shape, h'.shape]
  · intro c hc
    rcases List.mem_append.mp hc with hc | hc
    · exact h.plain c hc
    · exact h'.plain c hc
  · rw [h'.types, h.types, shapeNames_append, List.append_assoc]

/-- Opening a class whose name is not taken. -/
theorem openClass_opens {ident : String} {fields : List Field} {body : List Line} {w w' : Written}
    {c : OpenedClass} (h : (openClass ident fields body).run w = (.ok c, w'))
    (hbody : body.all Line.isText = true) (hnew : ident ∉ w.types) :
    Opens w [(ident, fields)] [c] w' := by
  unfold openClass at h
  cases hfields : fields.isEmpty <;> rw [hfields] at h
  · cases h
    refine ⟨rfl, ?_, ?_⟩
    · intro c hc
      obtain rfl := List.mem_singleton.mp hc
      refine ⟨(if body = [] then [.body 1 "pass"] else body) ++ [.blank, .blank], rfl, ?_⟩
      rw [List.all_append]
      split
      · rfl
      · rw [hbody]
        rfl
    · show addName ident w.types = w.types ++ [ident]
      rw [addName, if_neg (by rwa [List.contains_iff_mem])]
  · cases h

/-- The classes of a struct. -/
theorem structClasses_opens {ctx : Context} {h : Header} {s : Struct} {w w' : Written}
    {classes : List OpenedClass} (hrun : (structClasses ctx h s).run w = (.ok classes, w')) :
    Opens w (structShapes h s w.types) classes w' := by
  unfold structClasses at hrun
  obtain ⟨taken, w₁, htaken, hrun⟩ := run_bind_ok hrun
  cases htaken
  unfold structShapes
  by_cases hs : s.ident ∈ w.types
  · rw [if_pos (List.contains_iff_mem.mpr hs)] at hrun
    cases hrun
    rw [if_pos hs]
    exact .none rfl
  rw [if_neg (by rwa [List.contains_iff_mem])] at hrun
  obtain ⟨body, w₁, hpassed, hrun⟩ := run_bind_ok hrun
  obtain ⟨hbody, hsame⟩ := ofExcept_ok hpassed
  rw [hsame] at hrun
  obtain ⟨own, w₂, hown, hrun⟩ := run_bind_ok hrun
  have hfirst := openClass_opens hown (structBody_isText hbody) hs
  rw [if_neg hs]
  cases htable : h.vtable? s with
  | none =>
    rw [htable] at hrun
    cases hrun
    exact hfirst
  | some t =>
    rw [htable] at hrun
    obtain ⟨taken, w₃, htaken, hrun⟩ := run_bind_ok hrun
    cases htaken
    -- the names that are taken now are those before and that of the struct
    have htypes : w₂.types = w.types ++ [s.ident] := hfirst.types
    by_cases ht : t.ident ∈ w.types ++ [s.ident]
    · rw [if_pos (List.contains_iff_mem.mpr (htypes ▸ ht))] at hrun
      cases hrun
      simpa only [if_pos ht] using hfirst
    · rw [if_neg (by rwa [List.contains_iff_mem, htypes])] at hrun
      obtain ⟨second, w₄, hsecond, hrun⟩ := run_bind_ok hrun
      cases hrun
      have hboth := hfirst.append (openClass_opens hsecond rfl (htypes ▸ ht))
      simp only [if_neg ht]
      exact hboth

/-- The classes of structs of a header in a row. -/
theorem structs_opens {ctx : Context} {h : Header} {structs : List Struct} {w w' : Written}
    {parts : List (List OpenedClass)}
    (hrun : (structs.mapM (structClasses ctx h)).run w = (.ok parts, w')) :
    Opens w (classShapes w.types (structs.map fun s => (h, s))) parts.flatten w' := by
  induction structs generalizing w parts with
  | nil =>
    obtain ⟨rfl, rfl⟩ := run_pure_ok hrun
    exact .none rfl
  | cons s structs ih =>
    rw [List.mapM_cons] at hrun
    obtain ⟨classes, w₁, hclasses, hrun⟩ := run_bind_ok hrun
    obtain ⟨rest, w₂, hrest, hrun⟩ := run_bind_ok hrun
    obtain ⟨rfl, rfl⟩ := run_pure_ok hrun
    have hfirst := structClasses_opens hclasses
    have hothers := ih hrest
    rw [hfirst.types] at hothers
    exact hfirst.append hothers

/-- The classes of the headers of a project, kept with their headers. -/
theorem headers_opens {ctx : Context} {hs : Project} {w w' : Written}
    {classes : List (Header × List OpenedClass)}
    (hrun : (hs.mapM fun h => do
      let opened ← headerClasses ctx h
      pure (h, opened)).run w = (.ok classes, w')) :
    Opens w (classShapes w.types (projectStructs hs)) (classes.flatMap Prod.snd) w' := by
  induction hs generalizing w classes with
  | nil =>
    obtain ⟨rfl, rfl⟩ := run_pure_ok hrun
    exact .none rfl
  | cons h hs ih =>
    rw [List.mapM_cons] at hrun
    obtain ⟨p, w₁, hp, hrun⟩ := run_bind_ok hrun
    obtain ⟨rest, w₂, hrest, hrun⟩ := run_bind_ok hrun
    obtain ⟨rfl, rfl⟩ := run_pure_ok hrun
    obtain ⟨opened, w₃, hopened, hp⟩ := run_bind_ok hp
    obtain ⟨rfl, rfl⟩ := run_pure_ok hp
    obtain ⟨parts, w₄, hparts, hopened⟩ := run_bind_ok hopened
    obtain ⟨rfl, rfl⟩ := run_pure_ok hopened
    have hfirst := structs_opens hparts
    have hothers := ih hrest
    rw [hfirst.types] at hothers
    rw [projectStructs, List.flatMap_cons, classShapes_append]
    exact hfirst.append hothers

/-! ## Lines that start nothing -/

/-- No line starts a class or a layout. -/
def FlatLines (lines : List Line) : Prop :=
  ∀ line ∈ lines, line.heading? = none

theorem flatLines_iff {lines : List Line} : FlatLines lines ↔ lines.filterMap Line.heading? = [] :=
  List.filterMap_eq_nil_iff.symm

/-- Mere text is flat. -/
theorem flatLines_of_all_isText {lines : List Line} (h : lines.all Line.isText = true) :
    FlatLines lines := by
  intro line hline
  have htext := List.all_eq_true.mp h line hline
  cases line <;> first | rfl | cases htext

/-- Flat lines under a flat heading start what they start without it. -/
theorem filterMap_underHeading {heading ending : List Line} (lines : List Line)
    (hheading : FlatLines heading) (hending : FlatLines ending) :
    (underHeading heading lines ending).filterMap Line.heading? = lines.filterMap Line.heading? := by
  unfold underHeading
  split
  · rename_i hnone
    rw [hnone]
  · rw [List.filterMap_append, List.filterMap_append, flatLines_iff.mp hheading,
      flatLines_iff.mp hending, List.nil_append, List.append_nil]

/-- The line of a constant is flat. -/
theorem assignment_flat (name : String) (value : Value) :
    Gives (fun line => line.heading? = none) (assignment name value) := by
  intro w line w' h
  rcases assignment_ok h with ⟨text, rfl, -⟩ | ⟨expression, rfl, -⟩ <;> rfl

/-- What is written for a macro is flat. -/
theorem constantLine_flat (m : Macro) : Gives FlatLines (constantLine m) := by
  unfold constantLine
  refine (gives_any _).bind fun written _ => ?_
  dsimp only
  split
  · exact gives_pure (List.forall_mem_nil _)
  split
  · exact gives_pure (List.forall_mem_nil _)
  refine (assignment_flat _ _).bind fun line hline => ?_
  have hlines : FlatLines [line] := List.forall_mem_singleton.mpr hline
  split
  · exact (gives_any _).bind fun _ _ => gives_pure hlines
  · exact gives_pure hlines

/-- What is written for an alias is flat. -/
theorem aliasLine_flat (ctx : Context) (file : String) (a : Alias) :
    Gives FlatLines (aliasLine ctx file a) := by
  unfold aliasLine
  dsimp only
  split
  · exact gives_pure (List.forall_mem_nil _)
  refine (gives_any _).bind fun written _ => ?_
  split
  · exact (gives_any _).bind fun _ _ => gives_pure (List.forall_mem_singleton.mpr rfl)
  · exact (gives_any _).bind fun _ _ => gives_pure (List.forall_mem_singleton.mpr rfl)

/-- What is written for a constant of an enumeration is flat. -/
theorem enumeratorLine_flat (c : Enumerator) : Gives FlatLines (enumeratorLine c) := by
  unfold enumeratorLine
  dsimp only
  split
  · exact gives_pure (List.forall_mem_nil _)
  · exact (assignment_flat _ _).bind fun _ hline => gives_pure (List.forall_mem_singleton.mpr hline)

/-- An enumeration is flat. -/
theorem enumLines_flat (e : Enumeration) : Gives FlatLines (enumLines e) := by
  unfold enumLines
  refine (gives_any _).bind fun _ _ => ?_
  refine (Gives.flatten fun c _ => enumeratorLine_flat c).bind fun parts hparts => gives_pure ?_
  exact List.forall_mem_append.mpr ⟨List.forall_mem_cons.mpr ⟨rfl, hparts⟩, flatLines_iff.mpr rfl⟩

/-- The lines of a function are flat. -/
theorem functionLines_flat (ctx : Context) (f : Function) : Gives FlatLines (functionLines ctx f) := by
  refine (gives_any _).bind fun w _ => gives_pure ?_
  exact List.forall_mem_append.mpr ⟨flatLines_of_all_isText (w.lines_isText 0), flatLines_iff.mpr rfl⟩

/-- The constants of a header are flat. -/
theorem constantsSection_flat (h : Header) : Gives FlatLines (constantsSection h) :=
  Gives.section (fun m _ => constantLine_flat m) (flatLines_iff.mpr rfl) (flatLines_iff.mpr rfl)

/-- The aliases of a header are flat. -/
theorem aliasesSection_flat (ctx : Context) (h : Header) : Gives FlatLines (aliasesSection ctx h) :=
  Gives.section (fun a _ => aliasLine_flat ctx h.file a) (flatLines_iff.mpr rfl) (flatLines_iff.mpr rfl)

/-- The enumerations of a header are flat. -/
theorem enumsSection_flat (h : Header) : Gives FlatLines (enumsSection h) :=
  Gives.section (fun e _ => enumLines_flat e) (flatLines_iff.mpr rfl) (flatLines_iff.mpr rfl)

/-- The functions of a header are flat. -/
theorem functionsSection_flat (ctx : Context) (h : Header) : Gives FlatLines (functionsSection ctx h) :=
  Gives.section (fun f _ => functionLines_flat ctx f) (flatLines_iff.mpr rfl) (flatLines_iff.mpr rfl)

/-! ## Class statements -/

/-- Plain classes in a row have one class statement each and lay out nothing. -/
theorem headings_classLines {classes : List OpenedClass} (h : ∀ c ∈ classes, c.IsPlain) :
    (classes.flatMap OpenedClass.lines).filterMap Line.heading? =
      classes.map fun c => .opened c.ident := by
  induction classes with
  | nil => rfl
  | cons c rest ih =>
    obtain ⟨⟨body, hlines, hbody⟩, hrest⟩ := List.forall_mem_cons.mp h
    have hflat : body.filterMap Line.heading? = [] :=
      flatLines_iff.mp (flatLines_of_all_isText hbody)
    rw [List.flatMap_cons, List.filterMap_append, ih hrest, hlines, List.filterMap_cons, hflat]
    rfl

/-- The sections of plain classes have one class statement for each class and lay out nothing. -/
theorem headings_classesSections {classes : List (Header × List OpenedClass)}
    (h : ∀ c ∈ classes.flatMap Prod.snd, c.IsPlain) :
    (classes.flatMap fun p => classesSection p.1 p.2).filterMap Line.heading? =
      (classes.flatMap Prod.snd).map fun c => .opened c.ident := by
  induction classes with
  | nil => rfl
  | cons p rest ih =>
    rw [List.flatMap_cons, List.forall_mem_append] at h
    have hsection : (classesSection p.1 p.2).filterMap Line.heading? =
        (p.2.flatMap OpenedClass.lines).filterMap Line.heading? :=
      filterMap_underHeading _ (flatLines_iff.mpr rfl) (flatLines_iff.mpr rfl)
    rw [List.flatMap_cons, List.filterMap_append, ih h.2, hsection, headings_classLines h.1,
      List.flatMap_cons, List.map_append]

/-- The sections of classes that are opened have their class statements and lay out nothing. -/
theorem Opens.headings {w w' : Written} {shapes : List (String × List Field)}
    {classes : List (Header × List OpenedClass)} (h : Opens w shapes (classes.flatMap Prod.snd) w') :
    (classes.flatMap fun p => classesSection p.1 p.2).filterMap Line.heading? =
      (shapeNames shapes).map .opened := by
  rw [headings_classesSections h.plain, ← h.shape, shapeNames, List.map_map, List.map_map]
  rfl

/-- Lines that start nothing but class statements open their classes. -/
theorem openedClasses_of_headings {lines : List Line} {names : List String}
    (h : lines.filterMap Line.heading? = names.map .opened) : openedClasses lines = names := by
  rw [openedClasses_eq, h, List.filterMap_map]
  simp [Function.comp_def, Heading.opened?]

/-! ## Layouts -/

/-- The line of a member is the entry of its field. -/
theorem layoutMember_isEntry {ident : String} {f : Field} {w w' : Written} {line : Line}
    (h : (layoutMember ident f).run w = (.ok line, w')) : IsEntry f line := by
  unfold layoutMember at h
  unfold IsEntry
  by_cases hunion : f.type.shape = .union
  · rw [if_pos hunion] at h ⊢
    cases h
    rfl
  rw [if_neg hunion] at h ⊢
  split at h
  · cases h
  obtain ⟨_, _, hget, h⟩ := run_bind_ok h
  cases hget
  split at h <;> cases h
  · exact .inl rfl
  · exact .inr rfl

/-- The lines of members are the entries of their fields, in order. -/
theorem layoutMembers_areEntries {ident : String} {fields : List Field} {w w' : Written}
    {lines : List Line} (h : (fields.mapM (layoutMember ident)).run w = (.ok lines, w')) :
    List.Forall₂ IsEntry fields lines := by
  induction fields generalizing w lines with
  | nil =>
    obtain ⟨rfl, rfl⟩ := run_pure_ok h
    exact .nil
  | cons f fields ih =>
    rw [List.mapM_cons] at h
    obtain ⟨line, w₁, hline, h⟩ := run_bind_ok h
    obtain ⟨rest, w₂, hrest, h⟩ := run_bind_ok h
    obtain ⟨rfl, rfl⟩ := run_pure_ok h
    exact .cons (layoutMember_isEntry hline) (ih hrest)

/-- Entries are flat. -/
theorem flatLines_of_areEntries {fields : List Field} {lines : List Line}
    (h : List.Forall₂ IsEntry fields lines) : FlatLines lines := by
  induction h with
  | nil => exact List.forall_mem_nil _
  | cons hentry _ ih =>
    refine List.forall_mem_cons.mpr ⟨?_, ih⟩
    unfold IsEntry at hentry
    split at hentry
    · rw [hentry]
      rfl
    · rcases hentry with rfl | rfl <;> rfl

/-- Lines lay out classes in order and open none. -/
structure LaysOut (lines : List Line) (shapes : List (String × List Field)) : Prop where
  /-- They start the layouts of the classes and nothing else. -/
  headings : lines.filterMap Line.heading? = (shapeNames shapes).map .layout
  /-- Each layout has the entries of its class. -/
  layouts : ∀ shape ∈ shapes, HasLayout lines shape

/-- Flat lines lay out nothing. -/
theorem FlatLines.laysOut {lines : List Line} (h : FlatLines lines) : LaysOut lines [] :=
  ⟨flatLines_iff.mp h, List.forall_mem_nil _⟩

/-- Lines after lines lay out the one and then the other. -/
theorem LaysOut.append {xs ys : List Line} {shapes shapes' : List (String × List Field)}
    (hx : LaysOut xs shapes) (hy : LaysOut ys shapes') : LaysOut (xs ++ ys) (shapes ++ shapes') := by
  refine ⟨?_, fun shape hshape => ?_⟩
  · rw [List.filterMap_append, hx.headings, hy.headings, shapeNames_append, List.map_append]
  · rcases List.mem_append.mp hshape with hshape | hshape
    · exact (hx.layouts shape hshape).mono (List.prefix_append xs ys).isInfix
    · exact (hy.layouts shape hshape).mono (List.suffix_append xs ys).isInfix

/-- The layout of a class lays it out. -/
theorem layout_laysOut {c : OpenedClass} {w w' : Written} {lines : List Line}
    (h : (layout c).run w = (.ok lines, w')) : LaysOut lines [c.shape] := by
  obtain ⟨members, w₁, hmembers, h⟩ := run_bind_ok h
  obtain ⟨rfl, rfl⟩ := run_pure_ok h
  have hentries := layoutMembers_areEntries hmembers
  refine ⟨?_, List.forall_mem_singleton.mpr ⟨[], members, [.blank], rfl, hentries⟩⟩
  rw [List.filterMap_append, List.filterMap_cons,
    flatLines_iff.mp (flatLines_of_areEntries hentries)]
  rfl

/-- The layouts of classes in a row. -/
theorem layouts_laysOut {classes : List OpenedClass} {w w' : Written} {parts : List (List Line)}
    (h : (classes.mapM layout).run w = (.ok parts, w')) :
    LaysOut parts.flatten (classes.map OpenedClass.shape) := by
  induction classes generalizing w parts with
  | nil =>
    obtain ⟨rfl, rfl⟩ := run_pure_ok h
    exact FlatLines.laysOut (List.forall_mem_nil _)
  | cons c classes ih =>
    rw [List.mapM_cons] at h
    obtain ⟨lines, w₁, hlines, h⟩ := run_bind_ok h
    obtain ⟨rest, w₂, hrest, h⟩ := run_bind_ok h
    obtain ⟨rfl, rfl⟩ := run_pure_ok h
    exact (layout_laysOut hlines).append (ih hrest)

/-- The layouts of the classes of headers in a row. -/
theorem layoutsSections_laysOut {classes : List (Header × List OpenedClass)} {w w' : Written}
    {sections : List (List Line)}
    (h : (classes.mapM fun (h, opened) => layoutsSection h opened).run w = (.ok sections, w')) :
    LaysOut sections.flatten ((classes.flatMap Prod.snd).map OpenedClass.shape) := by
  induction classes generalizing w sections with
  | nil =>
    obtain ⟨rfl, rfl⟩ := run_pure_ok h
    exact FlatLines.laysOut (List.forall_mem_nil _)
  | cons p rest ih =>
    rw [List.mapM_cons] at h
    obtain ⟨lines, w₁, hlines, h⟩ := run_bind_ok h
    obtain ⟨others, w₂, hothers, h⟩ := run_bind_ok h
    obtain ⟨rfl, rfl⟩ := run_pure_ok h
    obtain ⟨parts, w₃, hparts, hlines⟩ := run_bind_ok hlines
    obtain ⟨rfl, rfl⟩ := run_pure_ok hlines
    have hfirst := layouts_laysOut hparts
    have hsection : LaysOut (underHeading [.comment ("Layouts: " ++ p.1.file)] parts.flatten [.blank])
        (p.2.map OpenedClass.shape) := by
      refine ⟨?_, fun shape hshape => (hfirst.layouts shape hshape).mono (infix_underHeading _ _ _)⟩
      rw [filterMap_underHeading _ (flatLines_iff.mpr rfl) (flatLines_iff.mpr rfl), hfirst.headings]
    rw [List.flatten_cons, List.flatMap_cons, List.map_append]
    exact hsection.append (ih hothers)

/-! ## Whole modules -/

/-- The class statements of the structs of a project in turn, and below all of them one layout for each,
in the same order. -/
def projectHeadings (project : Project) : List Heading :=
  let names := shapeNames (classShapes [] (projectStructs project))
  names.map .opened ++ names.map .layout

/-- Lines declare the classes of a project once and lay them out once. -/
structure DeclaresOnce (project : Project) (lines : List Line) : Prop where
  /-- The class statements are those of the structs, and below them there is a layout for each. -/
  headings : lines.filterMap Line.heading? = projectHeadings project
  /-- Below the class statements of the structs before it, a struct has none exactly if one of those
  has its name. -/
  skipped : ∀ before h s after, projectStructs project = before ++ (h, s) :: after →
    ∃ earlier own later, openedClasses lines = earlier ++ own ++ later ∧
      earlier = shapeNames (classShapes [] before) ∧ own = shapeNames (structShapes h s earlier) ∧
      (own = [] ↔ s.ident ∈ earlier)
  /-- No two class statements have the same name. -/
  once : (openedClasses lines).Nodup
  /-- The layout of a class has an entry for each field, in order. -/
  layouts : ∀ shape ∈ classShapes [] (projectStructs project), HasLayout lines shape

/-- What is written for the macros of the headers of a project: a macro binds its name exactly if it is
the first one of that name that is not passed over. -/
structure AreWritten (project : Project) (written : List (Header × List (Macro × List Line))) : Prop where
  /-- The headers are those of the project. -/
  headers : written.map Prod.fst = project
  /-- The macros are those of the headers. -/
  macros : ∀ p ∈ written, p.2.map Prod.fst = p.1.macros
  /-- What is written for a macro is its outcome after those before it. -/
  inTurn : InTurn IsOutcome [] (written.flatMap Prod.snd)

/-- Lines bind each name of the sections of constants once: what is written for the macros of each
header is a section of constants, and no name is bound twice. -/
def BindsOnce (library : String) (project : Project) (lines : List Line) : Prop :=
  ∃ written rest, AreWritten project written ∧
    lines = introduction library project ++ written.flatMap outcomesSection ++
      .text "_register_hresults(globals())" :: rest ∧
    (assigned (written.flatMap outcomesSection)).Nodup

/-- Lines that start nothing but the classes of a project and then their layouts, which have an entry for
each field, declare them once. -/
theorem declaresOnce_of_headings {project : Project} {lines : List Line}
    (hheadings : lines.filterMap Line.heading? = projectHeadings project)
    (hlayouts : ∀ shape ∈ classShapes [] (projectStructs project), HasLayout lines shape) :
    DeclaresOnce project lines := by
  have hall : openedClasses lines = shapeNames (classShapes [] (projectStructs project)) := by
    rw [openedClasses_eq, hheadings, projectHeadings, List.filterMap_append, List.filterMap_map,
      List.filterMap_map]
    simp [Function.comp_def, Heading.opened?]
  refine ⟨hheadings, ?_, ?_, hlayouts⟩
  · intro first h s last hstructs
    rw [hstructs, classShapes_append, shapeNames_append, List.nil_append, classShapes,
      shapeNames_append, ← List.append_assoc] at hall
    refine ⟨_, _, _, hall, rfl, rfl, ?_⟩
    rw [shapeNames, List.map_eq_nil_iff, structShapes_eq_nil_iff]
  · rw [hall]
    simpa using shapeNames_classShapes_nodup (projectStructs project) List.nodup_nil

/-- What a module is made of declares its classes once and binds its constants once. -/
theorem moduleLines_declaresOnce {ctx : Context} {project : Project} {lines : List Line}
    {w : Written} (h : (moduleLines ctx project).run .start = (.ok lines, w)) :
    DeclaresOnce project lines ∧ BindsOnce ctx.library project lines := by
  obtain ⟨constants, w₁, hconstants, classes, w₂, hclasses, aliases, w₃, haliases, enums, w₄, henums,
    layouts, w₅, hlayouts, functions, hfunctions, rfl⟩ := moduleLines_ok h
  have hstart : Remembers .start [] := ⟨fun name => by simp [Written.start], rfl⟩
  obtain ⟨written, hproject, hmacros, hsections, hturn, hw₁⟩ := constants_inTurn hconstants hstart
  have hopens := headers_opens hclasses
  rw [hw₁.types] at hopens
  constructor
  · have hlaysOut := layoutsSections_laysOut hlayouts
    rw [hopens.shape] at hlaysOut
    -- all sections but those of the classes and of the layouts are flat
    have hconstants := flatLines_iff.mp
      (Gives.flatten (fun h _ => constantsSection_flat h) _ _ _ hconstants)
    have haliases := flatLines_iff.mp
      (Gives.flatten (fun h _ => aliasesSection_flat ctx h) _ _ _ haliases)
    have henums := flatLines_iff.mp (Gives.flatten (fun h _ => enumsSection_flat h) _ _ _ henums)
    have hfunctions := flatLines_iff.mp
      (Gives.flatten (fun h _ => functionsSection_flat ctx h) _ _ _ hfunctions)
    have hintroduction : (introduction ctx.library project).filterMap Line.heading? = [] := rfl
    have hregistered : [Line.text "_register_hresults(globals())", .blank, .blank].filterMap
        Line.heading? = [] := rfl
    refine declaresOnce_of_headings ?_ fun shape hshape =>
      (hlaysOut.layouts shape hshape).mono ⟨_, _, rfl⟩
    simp only [List.filterMap_append, hintroduction, hconstants, hregistered,
      hopens.headings, haliases, henums, hlaysOut.headings, hfunctions, List.nil_append,
      List.append_nil, projectHeadings]
  · refine ⟨written, [.blank, .blank] ++ classes.flatMap (fun p => classesSection p.1 p.2) ++
      aliases.flatten ++ enums.flatten ++ layouts.flatten ++ functions.flatten,
      ⟨hproject, hmacros, hturn⟩, ?_, ?_⟩
    · rw [hsections]
      simp
    · rw [assigned_sections]
      exact assigned_nodup hturn

/-! ## Texts of modules -/

/-- The text of the entry of a field in a layout. -/
def IsEntryText (f : Field) (text : String) : Prop :=
  ∃ entry, IsEntry f entry ∧ text = entry.render

/-- The lines of a text declare the classes of a project once, lay them out once and bind each name of the
sections of constants once. -/
structure ShowsOnce (library : String) (project : Project) (lines : List String) : Prop where
  /-- The class statements are the two of the support code and those of the structs, and below them there
  is a layout for each struct. -/
  headings : Module.headings lines =
    [.opened "HResultError", .opened "Bindable"] ++ projectHeadings project
  /-- A class has one layout, and it has one class statement unless one of the support code has its
  name. -/
  once : ∀ name ∈ shapeNames (classShapes [] (projectStructs project)),
    (Module.headings lines).count (.layout name) = 1 ∧
      ((Module.headings lines).count (.opened name) = 1 ↔ name ≠ "HResultError" ∧ name ≠ "Bindable")
  /-- The lines of a layout are the entries of the fields, in order, between those that start and end
  it. -/
  layouts : ∀ shape ∈ classShapes [] (projectStructs project), ∃ before entries after,
    lines = before ++ (shape.1 ++ "._fields_ = [") :: entries ++ "]" :: after ∧
      List.Forall₂ IsEntryText shape.2 entries
  /-- The constants are what is written for the macros, and no name is bound twice. -/
  constants : ∃ written rest, AreWritten project written ∧
    lines = introductionLines library project ++ (written.flatMap outcomesSection).map Line.render ++
      "_register_hresults(globals())" :: rest ∧
    (boundNames ((written.flatMap outcomesSection).map Line.render)).Nodup

/-- A binding of a word is no remark. -/
theorem isRemark_bind {name : String} (h : IsWord name) (expression : String) :
    (Line.bind name expression).isRemark = false := by
  rw [Line.isRemark, toList_render_bind, decide_eq_false_iff_not]
  intro hremark
  obtain ⟨rest, hrest⟩ := List.head?_eq_some_iff.mp hremark
  cases h.eq_of_append_eq (isWordCharacter_mark (by decide)) hrest

/-- The names that the text of legible lines binds are among those that the lines bind. -/
theorem boundNames_sublist {lines : List Line} (h : LegibleLines lines) :
    (boundNames (lines.map Line.render)).Sublist (assigned lines) := by
  induction lines with
  | nil => exact List.Sublist.slnil
  | cons line rest ih =>
    obtain ⟨hline, hrest⟩ := List.forall_mem_cons.mp h
    have hread := readBinding?_render hline
    rw [← List.singleton_append, assigned_append, List.map_append, boundNames_append]
    refine List.Sublist.append ?_ (ih hrest)
    rw [List.map_singleton, boundNames, List.filterMap_cons, hread]
    cases line with
    | bind name expression =>
      rw [assigned, List.filter_cons_of_pos (by rw [isRemark_bind hline.1]; rfl)]
      exact List.Sublist.refl [name]
    | _ => exact List.nil_sublist _

/-- A layout of legible lines is in their text as it is. -/
theorem HasLayout.exists_shown {below : List Line} {shape : String × List Field}
    (h : HasLayout below shape) {shown : List String} (hshown : Trims (below.map Line.render) shown) :
    ∃ before entries after, shown = before ++ (shape.1 ++ "._fields_ = [") :: entries ++ "]" :: after ∧
      List.Forall₂ IsEntryText shape.2 entries := by
  obtain ⟨before, entries, after, rfl, hentries⟩ := h
  rw [List.map_append, List.map_cons (f := Line.render) (a := Line.closeLayout)] at hshown
  obtain ⟨rest, rfl⟩ := hshown.exists_append ⟨']', by decide, by decide⟩
  refine ⟨before.map Line.render, entries.map Line.render, rest, ?_, ?_⟩
  · rw [List.map_append, List.map_cons]
    rfl
  · rw [List.forall₂_map_right_iff]
    exact hentries.imp fun f entry hentry => ⟨entry, hentry, rfl⟩

/-- A layout is not in an introduction. -/
theorem HasLayout.of_introduction {library : String} {project : Project} {below : List Line}
    {shape : String × List Field} (h : HasLayout (introduction library project ++ below) shape) :
    HasLayout below shape := by
  obtain ⟨before, entries, after, hlines, hentries⟩ := h
  rw [List.append_assoc, List.cons_append] at hlines
  rcases List.append_eq_append_iff.mp hlines with ⟨between, rfl, hbelow⟩ | ⟨between, hfirst, hrest⟩
  · exact ⟨between, entries, after, by rw [hbelow, List.append_assoc, List.cons_append], hentries⟩
  · cases between with
    | nil => exact ⟨[], entries, after, by rw [← List.nil_append below, ← hrest]; rfl, hentries⟩
    | cons line between =>
      obtain ⟨rfl, -⟩ := List.cons.inj hrest
      have hmem : Line.openLayout shape.1 ∈ introduction library project := hfirst ▸ by simp
      have hflat : FlatLines (introduction library project) := flatLines_iff.mpr rfl
      cases hflat _ hmem

/-- Of the headings of a module that start with those of the support code one is the layout of a class
that the project declares, and one is its class statement exactly if none of the support code is. -/
theorem count_projectHeadings {project : Project} (support : List String) {name : String}
    (hname : name ∈ shapeNames (classShapes [] (projectStructs project))) :
    (support.map Heading.opened ++ projectHeadings project).count (.layout name) = 1 ∧
      ((support.map Heading.opened ++ projectHeadings project).count (.opened name) = 1 ↔
        name ∉ support) := by
  have hnodup := shapeNames_classShapes_nodup (projectStructs project) List.nodup_nil
  have hone := List.count_eq_one_of_mem hnodup hname
  rw [List.nil_append] at hone
  have hopened (names : List String) :
      (names.map Heading.opened).count (.opened name) = names.count name ∧
        (names.map Heading.opened).count (.layout name) = 0 :=
    ⟨List.count_map_of_injective _ _ (fun _ _ => Heading.opened.inj) _, List.count_eq_zero.mpr (by simp)⟩
  have hlayout (names : List String) :
      (names.map Heading.layout).count (.layout name) = names.count name ∧
        (names.map Heading.layout).count (.opened name) = 0 :=
    ⟨List.count_map_of_injective _ _ (fun _ _ => Heading.layout.inj) _, List.count_eq_zero.mpr (by simp)⟩
  rw [← List.count_eq_zero]
  simp only [projectHeadings, List.count_append, hopened, hlayout, hone]
  exact ⟨trivial, by omega⟩

/-- The text of a legible module shows what its lines declare and bind. -/
theorem showsOnce_of_declaresOnce {library : String} {project : Project} {below : List Line}
    (hlegible : IsLegible library project) (hbelow : LegibleLines below)
    (hregistered : .text "_register_hresults(globals())" ∈ below)
    (hdeclares : DeclaresOnce project (introduction library project ++ below))
    (hbinds : BindsOnce library project (introduction library project ++ below)) :
    ShowsOnce library project (textLines (renderLines (introduction library project ++ below))) := by
  obtain ⟨shown, hshown, htext⟩ := exists_shown hbelow hregistered
  obtain ⟨-, -, hintroduction⟩ := introductionLines_read hlegible.library
    fun h hh => (hlegible.headers h hh).file
  have hheadings : Module.headings (introductionLines library project ++ shown ++ [""]) =
      [.opened "HResultError", .opened "Bindable"] ++ projectHeadings project := by
    have hflat : (introduction library project).filterMap Line.heading? = [] := rfl
    have hwritten := hdeclares.headings
    rw [List.filterMap_append, hflat, List.nil_append] at hwritten
    have hend : Module.headings [""] = [] := by decide +kernel
    rw [headings_append, headings_append, hintroduction, headings_of_trims hbelow hshown, hwritten, hend,
      List.append_nil]
  rw [htext]
  refine ⟨hheadings, fun name hname => ?_, fun shape hshape => ?_, ?_⟩
  · rw [hheadings]
    obtain ⟨hlayout, hopened⟩ := count_projectHeadings ["HResultError", "Bindable"] hname
    exact ⟨hlayout, hopened.trans (by simp)⟩
  · obtain ⟨before, entries, after, rfl, hentries⟩ :=
      ((hdeclares.layouts shape hshape).of_introduction).exists_shown hshown
    exact ⟨introductionLines library project ++ before, entries, after ++ [""], by simp, hentries⟩
  · obtain ⟨written, rest, hwritten, hlines, hnodup⟩ := hbinds
    rw [List.append_assoc] at hlines
    obtain rfl := List.append_cancel_left hlines
    rw [List.map_append, List.map_cons] at hshown
    obtain ⟨more, rfl⟩ := hshown.exists_append ⟨')', by decide, by decide⟩
    refine ⟨written, more ++ [""], hwritten, by simp [Line.render_text], ?_⟩
    exact (boundNames_sublist fun line hline => hbelow line (by simp [hline])).nodup hnodup

/-- **Declared once.**  A module that is written declares each class once and lays it out once, below all
class statements and with an entry for each field, and binds each name of its sections of constants once.
If the module is legible, so do the lines of its text, next to the two classes of the support code. -/
theorem generate_declares_once {library : String} {maxSlots : Int} {project : Project}
    {text : String} {log : Log} (h : generate library maxSlots project = (.ok text, log)) :
    ∃ lines w,
      (moduleLines ⟨library, maxSlots, enumNames project⟩ project).run .start = (.ok lines, w) ∧
      text = renderLines lines ∧ DeclaresOnce project lines ∧ BindsOnce library project lines ∧
      (IsLegible library project → ShowsOnce library project (textLines text)) := by
  obtain ⟨lines, w, hrun, rfl⟩ := generate_ok h
  obtain ⟨hdeclares, hbinds⟩ := moduleLines_declaresOnce hrun
  refine ⟨lines, w, hrun, rfl, hdeclares, hbinds, fun hlegible => ?_⟩
  obtain ⟨below, rfl, hbelow, hregistered⟩ := isLegible_moduleLines hlegible.headers hrun
  exact showsOnce_of_declaresOnce hlegible hbelow hregistered hdeclares hbinds

/-- An interface with a table of one method and a member of a union type, and macros of one name of
which the first one is a remark. -/
def figureHeader (file : String) : Header :=
  { Header.empty file with
    macros := [⟨"SIDE", .ofRaw "LENGTH"⟩, ⟨"SIDE", .ofNumber 4 "4"⟩, ⟨"SIDE", .ofNumber 5 "5"⟩],
    structs := [⟨"FIGURE", [.plain "" (.union [.plain "side" (.basic "INT")]),
      .plain "lpVtbl" { CType.basic "FIGUREVtbl" with expr := "FIGUREVtbl" }], "", some 0, none⟩],
    vtables := [⟨"FIGUREVtbl", [.plain "Draw"
      { CType.functionPointer "Draw" [.plain "This" (.basic "FIGURE")] "HRESULT" with
        expr := "ctypes.c_void_p" }], "", none, none⟩] }

/-- The header is legible if its name is. -/
theorem legibleHeader_figure {file : String} (h : IsInline file) : LegibleHeader (figureHeader file) := by
  have hunnamed : LegibleHeader (figureHeader "") :=
    ⟨by decide, by decide +kernel, by decide +kernel, by decide +kernel, by decide +kernel,
      by decide +kernel, by decide +kernel⟩
  exact ⟨h, hunnamed.macros, hunnamed.aliases, hunnamed.enums, hunnamed.structs, hunnamed.tables,
    hunnamed.functions⟩

/-- The module of two headers that declare the same classes and constants, and its text. -/
theorem generate_declares_once_figure :
    ∃ text log, generate "figure.dll" 12 [figureHeader "a.h", figureHeader "b.h"] = (.ok text, log) ∧
      ∃ lines w,
        (moduleLines ⟨"figure.dll", 12, enumNames [figureHeader "a.h", figureHeader "b.h"]⟩
          [figureHeader "a.h", figureHeader "b.h"]).run .start = (.ok lines, w) ∧
        text = renderLines lines ∧
        DeclaresOnce [figureHeader "a.h", figureHeader "b.h"] lines ∧
        BindsOnce "figure.dll" [figureHeader "a.h", figureHeader "b.h"] lines ∧
        ShowsOnce "figure.dll" [figureHeader "a.h", figureHeader "b.h"] (textLines text) := by
  have hok : (generate "figure.dll" 12 [figureHeader "a.h", figureHeader "b.h"]).1.isOk = true := by
    decide +kernel
  have hlegible : IsLegible "figure.dll" [figureHeader "a.h", figureHeader "b.h"] := by
    refine ⟨by decide, List.forall_mem_cons.mpr ⟨legibleHeader_figure (by decide), ?_⟩⟩
    exact List.forall_mem_singleton.mpr (legibleHeader_figure (by decide))
  obtain ⟨text, log, hgenerate⟩ := exists_text_of_isOk hok
  obtain ⟨lines, w, hrun, htext, hdeclares, hbinds, hshows⟩ := generate_declares_once hgenerate
  exact ⟨text, log, hgenerate, lines, w, hrun, htext, hdeclares, hbinds, hshows hlegible⟩

/-- A struct, and an enumeration whose constant has a string literal with a line end in its text, behind a
backslash. -/
def spilledStructHeader : Header :=
  { Header.empty "test.h" with
    enums := [⟨"E", [⟨"A", .ofRaw "1 + \"\\\nclass S(ctypes.Structure, Bindable): pass #\""⟩]⟩],
    structs := [⟨"S", [.plain "a" { CType.basic "UINT" with expr := "ctypes.c_uint" }], "", none, none⟩] }

/-- The lines of its module below the introduction, up to the line end in the text. -/
def spilledStructLines : List String :=
  ["_register_hresults(globals())", "", "", "# Types: test.h", "",
    "class S(ctypes.Structure, Bindable):", "    pass", "", "", "# Enums: test.h",
    "E = ctypes.c_uint32", "# A = 1 + \"\\"]

/-- A text with a line end leaves its remark: what comes behind the line end is a class statement for a
class that has one already. -/
theorem generate_spilledClass :
    ∃ text log, generate "d3d11.dll" 12 [spilledStructHeader] = (.ok text, log) ∧
      "S" ∈ shapeNames (classShapes [] (projectStructs [spilledStructHeader])) ∧
      2 ≤ (headings (textLines text)).count (.opened "S") := by
  have hlines : (((moduleLines ⟨"d3d11.dll", 12, enumNames [spilledStructHeader]⟩
      [spilledStructHeader]).run .start).1.toOption.map fun lines =>
        (lines.drop 10).flatMap fun line => textLines line.render) =
      some (spilledStructLines ++ "class S(ctypes.Structure, Bindable): pass #\"" ::
        ["", "", "# Layouts: test.h", "S._fields_ = [", "    (\"a\", ctypes.c_uint),", "]", "", ""]) := by
    decide +kernel
  obtain ⟨text, log, rest, hgenerate, htext⟩ := exists_textLines hlines ⟨'"', by decide, by decide⟩
  refine ⟨text, log, hgenerate, by decide +kernel, ?_⟩
  have hfirst : (headings spilledStructLines).count (.opened "S") = 1 := by decide +kernel
  have hsecond :
      (headings ["class S(ctypes.Structure, Bindable): pass #\""]).count (.opened "S") = 1 := by
    decide +kernel
  rw [htext, headings_append, headings_append, ← List.singleton_append (l := rest), headings_append,
    List.count_append, List.count_append, List.count_append, hfirst, hsecond]
  omega

end SdkBindings.Module
