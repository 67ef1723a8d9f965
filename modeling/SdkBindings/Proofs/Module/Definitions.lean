import SdkBindings.Proofs.Module.Legible

/-!
# Definition before use in a generated module

A generated module is executed from top to bottom when it is imported, so every name that a binding
or a layout looks up has to be bound by a line above it (`generate_defined_before_use`).

The writer keeps two lists of names, the constants that expressions may refer to and the types that
aliases and layouts may refer to.  The invariant is that every name on either list is bound by a
line written so far (`Known`).  Each step says once what it does (`Step`): what it writes is defined
in terms of what is bound before it, and the invariant holds again after it.  Steps compose over the
headers of a project and over the sections of a module (`Step.mapM`, `Step.map`).

In the text of a legible module the lines are found again, so the names are bound above there as well
(`definesBeforeUse_of_trims`).  In other ones what comes behind a line end in a remark may be a binding of
its own (`generate_spilledBinding`).
-/

namespace SdkBindings.Module

/-! ## What a line binds and what it uses -/

/-- The expression is a string literal as the module writes it. -/
def IsTextLiteral (expression : String) : Prop :=
  ∃ text, expression = Json.renderText text

/-- The names that a line binds when the module is executed. -/
def Line.binders : Line → List String
  | .bind name _ => [name]
  | .openClass name => [name]
  | _ => []

/-- A line looks up a name when the module is executed: a binding to anything but a string literal,
or the type of a member of a layout, mentions it. -/
def Line.Uses (name : String) : Line → Prop
  | .bind _ expression => ¬ IsTextLiteral expression ∧ name ∈ referencedNames expression
  | .member _ type => name ∈ referencedNames type
  | _ => False

/-- The names that lines bind. -/
def binders (lines : List Line) : List String :=
  lines.flatMap Line.binders

/-- Every name that one of the lines uses is among `bound` or bound by a line above. -/
def DefinedAfter (bound : List String) : List Line → Prop
  | [] => True
  | line :: rest => (∀ name, line.Uses name → name ∈ bound) ∧ DefinedAfter (bound ++ line.binders) rest

theorem binders_append (xs ys : List Line) : binders (xs ++ ys) = binders xs ++ binders ys :=
  List.flatMap_append

theorem binders_cons (line : Line) (lines : List Line) :
    binders (line :: lines) = line.binders ++ binders lines :=
  List.flatMap_cons

/-- Lines are defined if the first part is and the second one is after it. -/
theorem DefinedAfter.append {bound : List String} {xs ys : List Line}
    (hx : DefinedAfter bound xs) (hy : DefinedAfter (bound ++ binders xs) ys) :
    DefinedAfter bound (xs ++ ys) := by
  induction xs generalizing bound with
  | nil => simpa [binders] using hy
  | cons line rest ih =>
    refine ⟨hx.1, ih hx.2 ?_⟩
    rwa [List.append_assoc, ← binders_cons]

/-- Lines are defined after those above them. -/
theorem DefinedAfter.of_append {bound : List String} {xs ys : List Line}
    (h : DefinedAfter bound (xs ++ ys)) : DefinedAfter (bound ++ binders xs) ys := by
  induction xs generalizing bound with
  | nil => simpa [binders] using h
  | cons line rest ih =>
    rw [binders_cons, ← List.append_assoc]
    exact ih h.2

/-- What a line uses is bound by a line above it, or was bound before. -/
theorem DefinedAfter.mem_binders {bound : List String} {before after : List Line} {line : Line}
    (h : DefinedAfter bound (before ++ line :: after)) {name : String} (hu : line.Uses name) :
    name ∈ bound ++ binders before := by
  induction before generalizing bound with
  | nil => simpa [binders] using h.1 name hu
  | cons first rest ih =>
    have hrest := ih h.2
    rwa [List.append_assoc, ← binders_cons] at hrest

/-- The line neither binds nor uses a name. -/
def Line.isInert : Line → Bool
  | .bind _ _ => false
  | .openClass _ => false
  | .member _ _ => false
  | _ => true

/-- The line is mere text. -/
def Line.isText : Line → Bool
  | .text _ | .body _ _ => true
  | _ => false

/-- Mere text is inert. -/
theorem all_isInert_of_all_isText {lines : List Line} (h : lines.all Line.isText = true) :
    lines.all Line.isInert = true := by
  rw [List.all_eq_true] at h ⊢
  intro line hl
  have := h line hl
  cases line <;> first | rfl | cases this

theorem binders_eq_nil {lines : List Line} (h : lines.all Line.isInert = true) :
    binders lines = [] := by
  rw [binders, List.flatMap_eq_nil_iff]
  intro line hl
  have := List.all_eq_true.mp h line hl
  cases line <;> first | rfl | cases this

/-- Lines that use no names are defined anywhere. -/
theorem definedAfter_of_all_isInert {lines : List Line} (h : lines.all Line.isInert = true)
    (bound : List String) : DefinedAfter bound lines := by
  induction lines generalizing bound with
  | nil => trivial
  | cons line rest ih =>
    rw [List.all_cons, Bool.and_eq_true] at h
    refine ⟨fun name hu => ?_, ih h.2 _⟩
    cases line <;> first | exact hu.elim | cases h.1

/-! ## Steps of the writer -/

/-- Every constant and every type that later lines may refer to is bound. -/
def Known (w : Written) (bound : List String) : Prop :=
  ∀ name, name ∈ w.values ∨ name ∈ w.types → name ∈ bound

/-- A step whose result stands for lines: when it succeeds, they are defined in terms of what is
bound before it, and what is known after it is bound. -/
def Step {α : Type} (m : Writing α) (lines : α → List Line) : Prop :=
  ∀ w a w', m.run w = (.ok a, w') → ∀ bound, Known w bound →
    DefinedAfter bound (lines a) ∧ Known w' (bound ++ binders (lines a))

/-- Writing inert lines only and making nothing known keeps the invariant. -/
theorem known_of_inert {w w' : Written} {lines : List Line}
    (hinert : lines.all Line.isInert = true) (hvalues : w'.values = w.values)
    (htypes : w'.types = w.types) {bound : List String} (hbound : Known w bound) :
    DefinedAfter bound lines ∧ Known w' (bound ++ binders lines) := by
  refine ⟨definedAfter_of_all_isInert hinert bound, ?_⟩
  rw [binders_eq_nil hinert, List.append_nil]
  intro name hn
  rw [hvalues, htypes] at hn
  exact hbound name hn

/-- Inert lines may be added around the lines of a step. -/
theorem Step.map {α β : Type} {m : Writing α} {first : α → List Line} {lines : β → List Line}
    (hm : Step m first) {f : α → β}
    (hf : ∀ a, ∃ heading ending, heading.all Line.isInert = true ∧
      ending.all Line.isInert = true ∧ lines (f a) = heading ++ first a ++ ending) :
    Step (do let a ← m; Pure.pure (f a)) lines := by
  intro w b w'' hrun bound hbound
  obtain ⟨a, w', ha, hb⟩ := run_bind_ok hrun
  obtain ⟨rfl, rfl⟩ := run_pure_ok hb
  obtain ⟨hdefined, hknown⟩ := hm w a w'' ha bound hbound
  obtain ⟨heading, ending, hh, he, hlines⟩ := hf a
  have hbinders : binders (lines (f a)) = binders (first a) := by
    rw [hlines, binders_append, binders_append, binders_eq_nil hh, binders_eq_nil he,
      List.nil_append, List.append_nil]
  refine ⟨?_, hbinders ▸ hknown⟩
  rw [hlines]
  refine ((definedAfter_of_all_isInert hh bound).append ?_).append
    (definedAfter_of_all_isInert he _)
  rwa [binders_eq_nil hh, List.append_nil]

/-- The same step for each member of a list. -/
theorem Step.mapM {α β : Type} {f : α → Writing β} {lines : β → List Line}
    (hf : ∀ x, Step (f x) lines) (xs : List α) : Step (xs.mapM f) (List.flatMap lines) := by
  induction xs with
  | nil =>
    intro w ys w' hrun bound hbound
    obtain ⟨rfl, rfl⟩ := run_pure_ok hrun
    exact known_of_inert rfl rfl rfl hbound
  | cons x xs ih =>
    intro w b w''' hrun bound hbound
    rw [List.mapM_cons] at hrun
    obtain ⟨y, w', hy, hrun⟩ := run_bind_ok hrun
    obtain ⟨ys, w'', hys, hrun⟩ := run_bind_ok hrun
    obtain ⟨rfl, rfl⟩ := run_pure_ok hrun
    obtain ⟨hdefined, hknown⟩ := hf x w y w' hy bound hbound
    obtain ⟨hdefined', hknown'⟩ := ih w' ys w''' hys _ hknown
    rw [List.flatMap_cons, binders_append, ← List.append_assoc]
    exact ⟨hdefined.append hdefined', hknown'⟩

/-! ## Names in expressions -/

/-- A text without a letter or an underscore of ASCII mentions no name. -/
theorem words_eq_nil {text : List Char} (h : ∀ c ∈ text, startsName c = false)
    (previous : Option Char) : words previous text = [] := by
  induction text generalizing previous with
  | nil => rw [words]
  | cons c rest ih =>
    rw [words, h c List.mem_cons_self, Bool.false_and, if_neg Bool.false_ne_true]
    exact ih (fun d hd => h d (List.mem_cons_of_mem _ hd)) _

/-- No name starts with a digit. -/
theorem startsName_of_isDigit {c : Char} (h : c.isDigit = true) : startsName c = false := by
  have hne : c ≠ '_' := by
    rintro rfl
    cases h
  change (decide (c.val ≥ '0'.val) && decide (c.val ≤ '9'.val)) = true at h
  change ((decide (c.val ≥ 'A'.val ∧ c.val ≤ 'Z'.val) ||
    (decide (c.val ≥ 'a'.val) && decide (c.val ≤ 'z'.val))) || decide (c = '_')) = false
  simp only [Bool.and_eq_true, decide_eq_true_eq, hne, decide_false, Bool.or_false,
    Bool.or_eq_false_iff, Bool.and_eq_false_iff, decide_eq_false_iff_not] at *
  grind

/-- Every word of a text that may be a name starts as one. -/
theorem startsName_of_mem_words {previous : Option Char} {text word : List Char}
    (h : word ∈ words previous text) : ∃ c tail, word = c :: tail ∧ startsName c = true := by
  fun_induction words previous text with
  | case1 => cases h
  | case2 previous c rest hstarts tail ih =>
    rcases List.mem_cons.mp h with rfl | h
    · exact ⟨c, tail, rfl, (Bool.and_eq_true_iff.mp hstarts).1⟩
    · exact ih h
  | case3 previous c rest hstarts ih => exact ih h

/-- Every name that an expression looks up starts with a letter or an underscore of ASCII. -/
theorem startsName_of_mem_referencedNames {expression name : String}
    (h : name ∈ referencedNames expression) :
    ∃ c tail, name = String.ofList (c :: tail) ∧ startsName c = true := by
  rw [referencedNames, List.mem_eraseDups, List.mem_filter, List.mem_map] at h
  obtain ⟨⟨word, hword, rfl⟩, -⟩ := h
  obtain ⟨c, tail, rfl, hstarts⟩ := startsName_of_mem_words hword
  exact ⟨c, tail, rfl, hstarts⟩

/-- No name starts in the decimal form of a number. -/
theorem startsName_of_mem_toString (n : Int) : ∀ c ∈ (toString n).toList, startsName c = false := by
  have hdigits (m : Nat) : ∀ c ∈ (toString m).toList, startsName c = false := by
    intro c hc
    rw [Nat.toString_eq_repr, Nat.repr, String.toList_ofList] at hc
    exact startsName_of_isDigit (Nat.isDigit_of_mem_toDigits (by omega) (by omega) hc)
  intro c hc
  cases n with
  | ofNat m => exact hdigits m c hc
  | negSucc m =>
    change c ∈ ("-" ++ toString (m + 1)).toList at hc
    rw [String.toList_append, List.mem_append] at hc
    rcases hc with hc | hc
    · obtain rfl : c = '-' := by simpa using hc
      decide
    · exact hdigits (m + 1) c hc

/-- The decimal form of a number mentions no name. -/
theorem referencedNames_toString (n : Int) : referencedNames (toString n) = [] := by
  rw [referencedNames, words_eq_nil (startsName_of_mem_toString n)]
  rfl

/-- An expression has no unknown names exactly if it looks up known ones only. -/
theorem unknownNames_eq_nil_iff {known : List String} {expression : String} :
    unknownNames known expression = [] ↔ ∀ name ∈ referencedNames expression, name ∈ known := by
  rw [unknownNames, List.filter_eq_nil_iff]
  simp

theorem referencedNames_uint32Expr : referencedNames uint32Expr = [] := by decide +kernel

theorem referencedNames_voidPointer : referencedNames voidPointer = [] := by decide +kernel

/-- Adding a name adds no other and keeps those that are there. -/
theorem mem_addName {name n : String} {names : List String} :
    n ∈ addName name names ↔ n ∈ names ∨ n = name := by
  unfold addName
  split
  · rename_i hmem
    refine ⟨Or.inl, ?_⟩
    rintro (h | rfl)
    · exact h
    · exact List.contains_iff_mem.mp hmem
  · simp

/-! ## Constants -/

/-- How the line of a constant comes about: a known value is bound; else the rewritten text is, unless
it is empty or has unknown names, which gives a remark with the text as it is. -/
theorem assignment_run {name : String} {value : Value} {w w' : Written} {line : Line}
    (h : (assignment name value).run w = (.ok line, w')) :
    w'.types = w.types ∧
      ((value.isResolved = true ∧ line = .bind name value.resolve ∧
        w'.values = addName name w.values) ∨
      (value.isResolved = false ∧ ∃ text, expression value.raw = .ok text ∧
        (((text = "" ∨ unknownNames w.values text ≠ []) ∧
            line = .comment (name ++ " = " ++ value.raw) ∧ w'.values = w.values) ∨
          (¬ (text = "" ∨ unknownNames w.values text ≠ []) ∧ line = .bind name text ∧
            w'.values = addName name w.values)))) := by
  unfold assignment at h
  cases hresolved : value.isResolved with
  | true =>
    rw [if_pos hresolved] at h
    cases h
    exact ⟨rfl, .inl ⟨rfl, rfl, rfl⟩⟩
  | false =>
    rw [hresolved, if_neg Bool.false_ne_true] at h
    cases htext : expression value.raw with
    | error e =>
      rw [htext] at h
      cases h
    | ok text =>
      rw [htext] at h
      obtain ⟨_, _, hget, h⟩ := run_bind_ok h
      cases hget
      split at h
      · rename_i hunusable
        cases h
        exact ⟨rfl, .inr ⟨rfl, text, rfl, .inl ⟨hunusable, rfl, rfl⟩⟩⟩
      · rename_i husable
        cases h
        exact ⟨rfl, .inr ⟨rfl, text, rfl, .inr ⟨husable, rfl, rfl⟩⟩⟩

/-- A known value that is no string literal looks up nothing. -/
theorem referencedNames_resolve {value : Value} (h : value.isResolved = true)
    (hliteral : ¬ IsTextLiteral value.resolve) : referencedNames value.resolve = [] := by
  unfold Value.resolve at hliteral ⊢
  cases hnumber : value.uint32 with
  | some number => exact referencedNames_toString _
  | none =>
    cases htext : value.string with
    | some text =>
      rw [hnumber, htext] at hliteral
      exact (hliteral ⟨text, rfl⟩).elim
    | none => simp [Value.isResolved, hnumber, htext] at h

/-- What the line of a constant is: a remark, or a binding that makes the constant known and, unless
it binds a string literal, looks up known constants only. -/
theorem assignment_ok {name : String} {value : Value} {w w' : Written} {line : Line}
    (h : (assignment name value).run w = (.ok line, w')) :
    (∃ text, line = .comment text ∧ w'.values = w.values ∧ w'.types = w.types) ∨
      (∃ expression, line = .bind name expression ∧ w'.values = addName name w.values ∧
        w'.types = w.types ∧
        (¬ IsTextLiteral expression → ∀ n ∈ referencedNames expression, n ∈ w.values)) := by
  obtain ⟨htypes, ⟨hresolved, rfl, hvalues⟩ |
    ⟨-, text, -, ⟨-, rfl, hvalues⟩ | ⟨husable, rfl, hvalues⟩⟩⟩ := assignment_run h
  · refine .inr ⟨_, rfl, hvalues, htypes, fun hliteral n hn => ?_⟩
    rw [referencedNames_resolve hresolved hliteral] at hn
    cases hn
  · exact .inl ⟨_, rfl, hvalues, htypes⟩
  · rw [not_or, ne_eq, Classical.not_not] at husable
    exact .inr ⟨_, rfl, hvalues, htypes, fun _ => unknownNames_eq_nil_iff.mp husable.2⟩

/-- The line of a constant is a step. -/
theorem step_assignment (name : String) (value : Value) :
    Step (assignment name value) fun line => [line] := by
  intro w line w' hrun bound hbound
  rcases assignment_ok hrun with ⟨text, rfl, hvalues, htypes⟩ | ⟨expr, rfl, hvalues, htypes, huses⟩
  · exact known_of_inert rfl hvalues htypes hbound
  · refine ⟨⟨fun n hn => hbound n (.inl (huses hn.1 n hn.2)), trivial⟩, fun n hn => ?_⟩
    rw [hvalues, htypes] at hn
    show n ∈ bound ++ [name]
    rw [List.mem_append, List.mem_singleton]
    rcases hn with hn | hn
    · exact (mem_addName.mp hn).imp_left fun h => hbound n (.inl h)
    · exact .inl (hbound n (.inr hn))

/-- The line of a macro is a step. -/
theorem step_constantLine (m : Macro) : Step (constantLine m) id := by
  intro w lines w' hrun bound hbound
  unfold constantLine at hrun
  obtain ⟨_, _, hget, hrun⟩ := run_bind_ok hrun
  cases hget
  dsimp only at hrun
  split at hrun
  · cases hrun
    exact known_of_inert rfl rfl rfl hbound
  split at hrun
  · cases hrun
    exact known_of_inert rfl rfl rfl hbound
  obtain ⟨line, w₁, hline, hrun⟩ := run_bind_ok hrun
  obtain ⟨hdefined, hknown⟩ := step_assignment _ _ w line w₁ hline bound hbound
  -- what is kept besides is only which macros have been bound
  split at hrun <;> cases hrun <;> exact ⟨hdefined, hknown⟩

/-- The line of an enumerator is a step. -/
theorem step_enumeratorLine (c : Enumerator) : Step (enumeratorLine c) id := by
  intro w lines w' hrun bound hbound
  unfold enumeratorLine at hrun
  dsimp only at hrun
  split at hrun
  · cases hrun
    exact known_of_inert rfl rfl rfl hbound
  · obtain ⟨line, w₁, hline, hrun⟩ := run_bind_ok hrun
    obtain ⟨rfl, rfl⟩ := run_pure_ok hrun
    exact step_assignment _ _ w line w' hline bound hbound

/-! ## Types -/

/-- A type becomes known with the line that binds it. -/
theorem known_addType {w : Written} {bound : List String} (hbound : Known w bound) (name : String) :
    Known { w with types := addName name w.types } (bound ++ [name]) := by
  intro n hn
  rw [List.mem_append, List.mem_singleton]
  rcases hn with hn | hn
  · exact .inl (hbound n (.inl hn))
  · exact (mem_addName.mp hn).imp_left fun h => hbound n (.inr h)

/-- The line of an alias is a step. -/
theorem step_aliasLine (ctx : Context) (file : String) (a : Alias) :
    Step (aliasLine ctx file a) id := by
  intro w lines w' hrun bound hbound
  unfold aliasLine at hrun
  dsimp only at hrun
  split at hrun
  · cases hrun
    exact known_of_inert rfl rfl rfl hbound
  obtain ⟨_, _, hget, hrun⟩ := run_bind_ok hrun
  cases hget
  split at hrun
  · cases hrun
    exact known_of_inert rfl rfl rfl hbound
  · rename_i hunknown
    rw [ne_eq, Classical.not_not] at hunknown
    cases hrun
    refine ⟨⟨fun n hn => hbound n (.inr (unknownNames_eq_nil_iff.mp hunknown n hn.2)), trivial⟩, ?_⟩
    exact known_addType hbound a.ident

/-- The lines of an enumeration are a step. -/
theorem step_enumLines (e : Enumeration) : Step (enumLines e) id := by
  intro w lines w' hrun bound hbound
  unfold enumLines at hrun
  obtain ⟨_, w₁, htype, hrun⟩ := run_bind_ok hrun
  cases htype
  have hmembers : Step (do
      let parts ← e.enumerators.mapM enumeratorLine
      pure (.bind e.ident uint32Expr :: parts.flatten ++ [.blank, .blank]))
      fun lines => lines.drop 1 := by
    refine (Step.mapM step_enumeratorLine e.enumerators).map fun parts => ?_
    exact ⟨[], [.blank, .blank], rfl, rfl, by simp⟩
  obtain ⟨hdefined, hknown⟩ := hmembers _ lines w' hrun _ (known_addType hbound e.ident)
  obtain ⟨parts, w₂, -, hpure⟩ := run_bind_ok hrun
  obtain ⟨rfl, rfl⟩ := run_pure_ok hpure
  refine ⟨⟨fun n hn => ?_, hdefined⟩, ?_⟩
  · rw [Line.Uses, referencedNames_uint32Expr] at hn
    exact (List.not_mem_nil hn.2).elim
  · rw [id, List.cons_append, binders_cons, ← List.append_assoc]
    exact hknown

/-- Opening a class is a step. -/
theorem step_openClass (ident : String) (fields : List Field) {body : List Line}
    (hbody : body.all Line.isInert = true) : Step (openClass ident fields body) OpenedClass.lines := by
  intro w c w' hrun bound hbound
  unfold openClass at hrun
  cases hfields : fields.isEmpty <;> rw [hfields] at hrun
  · cases hrun
    have hinert : ((if body = [] then [.body 1 "pass"] else body) ++
        [Line.blank, Line.blank]).all Line.isInert = true := by
      rw [List.all_append]
      split
      · rfl
      · rw [hbody]
        rfl
    have hknown := known_addType hbound ident
    refine ⟨⟨fun n hn => hn.elim, definedAfter_of_all_isInert hinert _⟩, ?_⟩
    rw [List.cons_append, binders_cons, binders_eq_nil hinert, List.append_nil]
    exact hknown
  · cases hrun

/-- The method that gives an interface identifier is mere text. -/
theorem guidAccessor_isText {s : Struct} {lines : List Line} (h : guidAccessor s = .ok lines) :
    lines.all Line.isText = true := by
  unfold guidAccessor at h
  split at h
  · cases h
  · cases h
    rfl

/-- The lines of a wrapper are mere text. -/
theorem Wrapper.lines_isText (level : Nat) (w : Wrapper) :
    (w.lines level).all Line.isText = true := by
  rw [Wrapper.lines, List.all_cons, List.all_map]
  exact List.all_eq_true.mpr fun _ _ => rfl

/-- The lines of methods are mere text. -/
theorem methodLines_isText {ctx : Context} {ident : String} {isFirst : Bool} {fields : List Field}
    {lines : List Line} (h : methodLines ctx ident isFirst fields = .ok lines) :
    lines.all Line.isText = true := by
  induction fields generalizing isFirst lines with
  | nil =>
    cases h
    rfl
  | cons f rest ih =>
    rw [methodLines] at h
    split at h
    · obtain ⟨wrapper, -, h⟩ := bind_eq_ok h
      obtain ⟨tail, htail, h⟩ := bind_eq_ok h
      cases h
      rw [List.all_append, List.all_append, wrapper.lines_isText, ih htail]
      cases isFirst <;> rfl
    · exact ih h

/-- The body of the class of a struct is mere text. -/
theorem structBody_isText {ctx : Context} {s : Struct} {table : Option Vtable} {lines : List Line}
    (h : structBody ctx s table = .ok lines) : lines.all Line.isText = true := by
  obtain ⟨guid, methods, rfl, hguid, hmethods⟩ := structBody_ok h
  rw [List.all_append, Bool.and_eq_true]
  constructor
  · rcases hguid with rfl | hguid
    · rfl
    · exact guidAccessor_isText hguid
  · rcases hmethods with rfl | ⟨t, -, isFirst, hmethods⟩
    · rfl
    · exact methodLines_isText hmethods

/-- A result that is passed on as a step was a success. -/
theorem ofExcept_ok {α : Type} {result : Except Error α} {a : α} {w w' : Written}
    (h : (ofExcept result).run w = (.ok a, w')) : result = .ok a ∧ w' = w := by
  cases result <;> cases h
  exact ⟨rfl, rfl⟩

/-- The classes of a struct and of its table are a step. -/
theorem step_structClasses (ctx : Context) (h : Header) (s : Struct) :
    Step (structClasses ctx h s) (List.flatMap OpenedClass.lines) := by
  intro w classes w' hrun bound hbound
  unfold structClasses at hrun
  obtain ⟨taken, w₁, htaken, hrun⟩ := run_bind_ok hrun
  cases htaken
  split at hrun
  · cases hrun
    exact known_of_inert rfl rfl rfl hbound
  obtain ⟨body, w₁, hpassed, hrun⟩ := run_bind_ok hrun
  obtain ⟨hbody, hsame⟩ := ofExcept_ok hpassed
  rw [hsame] at hrun
  obtain ⟨opened, w₂, hopened, hrun⟩ := run_bind_ok hrun
  obtain ⟨hdefined, hknown⟩ :=
    step_openClass s.ident s.fields (all_isInert_of_all_isText (structBody_isText hbody)) _ opened w₂
      hopened bound hbound
  split at hrun
  · cases hrun
    rw [List.flatMap_singleton]
    exact ⟨hdefined, hknown⟩
  · rename_i t _
    obtain ⟨taken, w₃, htaken, hrun⟩ := run_bind_ok hrun
    cases htaken
    split at hrun
    · cases hrun
      rw [List.flatMap_singleton]
      exact ⟨hdefined, hknown⟩
    · obtain ⟨second, w₄, hsecond, hrun⟩ := run_bind_ok hrun
      cases hrun
      obtain ⟨hdefined', hknown'⟩ :=
        step_openClass t.ident t.fields rfl _ second w' hsecond _ hknown
      rw [List.flatMap_cons, List.flatMap_singleton, binders_append, ← List.append_assoc]
      exact ⟨hdefined.append hdefined', hknown'⟩

/-- The classes of a header are a step. -/
theorem step_headerClasses (ctx : Context) (h : Header) :
    Step (headerClasses ctx h) (List.flatMap OpenedClass.lines) := by
  refine (Step.mapM (step_structClasses ctx h) h.structs).map fun classes => ?_
  refine ⟨[], [], rfl, rfl, ?_⟩
  rw [List.nil_append, List.append_nil, List.flatten_eq_flatMap, List.flatMap_assoc]
  rfl

/-! ## Layouts -/

/-- The line of a member is a step. -/
theorem step_layoutMember (ident : String) (f : Field) :
    Step (layoutMember ident f) fun line => [line] := by
  intro w line w' hrun bound hbound
  unfold layoutMember at hrun
  split at hrun
  · cases hrun
    exact known_of_inert rfl rfl rfl hbound
  split at hrun
  · cases hrun
  obtain ⟨_, _, hget, hrun⟩ := run_bind_ok hrun
  cases hget
  split at hrun
  · rename_i hunknown
    cases hrun
    refine ⟨⟨fun n hn => hbound n (.inr (unknownNames_eq_nil_iff.mp hunknown n hn)), trivial⟩, ?_⟩
    simpa [binders, Line.binders] using hbound
  · cases hrun
    refine ⟨⟨fun n hn => ?_, trivial⟩, ?_⟩
    · rw [Line.Uses, referencedNames_voidPointer] at hn
      cases hn
    · simpa [binders, Line.binders, Known] using hbound

/-- The layout of a class is a step. -/
theorem step_layout (c : OpenedClass) : Step (layout c) id := by
  refine (Step.mapM (step_layoutMember c.ident) c.fields).map fun members => ?_
  exact ⟨[.openLayout c.ident], [.closeLayout, .blank], rfl, rfl, by simp⟩

/-! ## Sections -/

/-- Lines under an inert heading add inert lines only. -/
theorem underHeading_eq (heading lines ending : List Line) (hheading : heading.all Line.isInert = true)
    (hending : ending.all Line.isInert = true) :
    ∃ first last, first.all Line.isInert = true ∧ last.all Line.isInert = true ∧
      underHeading heading lines ending = first ++ lines ++ last := by
  unfold underHeading
  by_cases hlines : lines = []
  · rw [if_pos hlines, hlines]
    exact ⟨[], [], rfl, rfl, rfl⟩
  · rw [if_neg hlines]
    exact ⟨heading, ending, hheading, hending, rfl⟩

/-- The same step for each member of a list, with the lines under a heading. -/
theorem Step.section {α : Type} {f : α → Writing (List Line)} (hf : ∀ x, Step (f x) id)
    (xs : List α) {heading ending : List Line} (hheading : heading.all Line.isInert = true)
    (hending : ending.all Line.isInert = true) :
    Step (do
      let lines ← xs.mapM f
      pure (underHeading heading lines.flatten ending)) id := by
  refine (Step.mapM hf xs).map fun lines => ?_
  rw [List.flatMap_id]
  exact underHeading_eq heading lines.flatten ending hheading hending

/-- The constants of a header are a step. -/
theorem step_constantsSection (h : Header) : Step (constantsSection h) id :=
  Step.section step_constantLine h.macros rfl rfl

/-- The aliases of a header are a step. -/
theorem step_aliasesSection (ctx : Context) (h : Header) : Step (aliasesSection ctx h) id :=
  Step.section (step_aliasLine ctx h.file) h.aliases rfl rfl

/-- The enumerations of a header are a step. -/
theorem step_enumsSection (h : Header) : Step (enumsSection h) id :=
  Step.section step_enumLines h.enums rfl rfl

/-- The layouts of the classes of a header are a step. -/
theorem step_layoutsSection (h : Header) (classes : List OpenedClass) :
    Step (layoutsSection h classes) id :=
  Step.section step_layout classes rfl rfl

/-- The lines of a function are a step. -/
theorem step_functionLines (ctx : Context) (f : Function) : Step (functionLines ctx f) id := by
  intro w lines w' hrun bound hbound
  obtain ⟨wrapper, w₁, hwrapper, hpure⟩ := run_bind_ok hrun
  obtain ⟨-, hsame⟩ := ofExcept_ok hwrapper
  obtain ⟨rfl, rfl⟩ := run_pure_ok hpure
  rw [hsame] at *
  refine known_of_inert ?_ rfl rfl hbound
  rw [id, List.all_append, all_isInert_of_all_isText (wrapper.lines_isText 0)]
  rfl

/-- The functions of a header are a step. -/
theorem step_functionsSection (ctx : Context) (h : Header) : Step (functionsSection ctx h) id :=
  Step.section (step_functionLines ctx) h.functions rfl rfl

/-- The classes of a header, kept with it, are a step. -/
theorem step_openedHeader (ctx : Context) (h : Header) :
    Step (do
      let opened ← headerClasses ctx h
      pure (h, opened)) fun (h, opened) => classesSection h opened := by
  refine (step_headerClasses ctx h).map fun opened => ?_
  exact underHeading_eq _ _ _ rfl rfl

/-! ## Modules -/

/-- The lines written so far are defined in their order and bind everything that is known. -/
structure Established (w : Written) (lines : List Line) : Prop where
  /-- Every name that is used is bound above. -/
  defined : DefinedAfter [] lines
  /-- What is known is bound. -/
  known : Known w (binders lines)

/-- A step extends what is established. -/
theorem Established.step {α : Type} {m : Writing α} {lines : α → List Line} {w w' : Written} {a : α}
    {written : List Line} (h : Established w written) (hm : Step m lines)
    (hrun : m.run w = (.ok a, w')) : Established w' (written ++ lines a) := by
  obtain ⟨hdefined, hknown⟩ := hm w a w' hrun (binders written) h.known
  refine ⟨h.defined.append hdefined, ?_⟩
  rwa [binders_append]

/-- Inert lines extend what is established. -/
theorem Established.inert {w : Written} {written lines : List Line} (h : Established w written)
    (hinert : lines.all Line.isInert = true) : Established w (written ++ lines) := by
  obtain ⟨hdefined, hknown⟩ := known_of_inert hinert rfl rfl h.known
  refine ⟨h.defined.append hdefined, ?_⟩
  rwa [binders_append]

/-- What a whole module is made of is established. -/
theorem established_moduleLines {ctx : Context} {project : Project} {lines : List Line}
    {w : Written} (h : (moduleLines ctx project).run .start = (.ok lines, w)) :
    Established w lines := by
  have hstart : Established .start (introduction ctx.library project) := by
    refine ⟨definedAfter_of_all_isInert rfl [], ?_⟩
    rintro name (hn | hn) <;> cases hn
  obtain ⟨constants, w₁, hconstants, classes, w₂, hclasses, aliases, w₃, haliases, enums, w₄, henums,
    layouts, w₅, hlayouts, functions, hfunctions, rfl⟩ := moduleLines_ok h
  have hafterConstants := hstart.step (Step.mapM step_constantsSection project) hconstants
  have hregistered : [.text "_register_hresults(globals())", .blank, .blank].all Line.isInert :=
    rfl
  have hafterClasses := (hafterConstants.inert hregistered).step
    (Step.mapM (step_openedHeader ctx) project) hclasses
  have hafterAliases := hafterClasses.step (Step.mapM (step_aliasesSection ctx) project) haliases
  have hafterEnums := hafterAliases.step (Step.mapM step_enumsSection project) henums
  have hafterLayouts := hafterEnums.step
    (Step.mapM (fun c : Header × List OpenedClass => step_layoutsSection c.1 c.2) classes) hlayouts
  have hafterFunctions :=
    hafterLayouts.step (Step.mapM (step_functionsSection ctx) project) hfunctions
  simpa only [List.flatMap_id] using hafterFunctions

/-- A line that binds a name that an expression looks up is not a remark. -/
theorem isRemark_eq_false {line : Line} {name : String} (hbinds : name ∈ line.binders)
    {expression : String} (hname : name ∈ referencedNames expression) : line.isRemark = false := by
  obtain ⟨c, tail, rfl, hstarts⟩ := startsName_of_mem_referencedNames hname
  have hne : c ≠ '#' := by
    rintro rfl
    cases hstarts
  cases line with
  | bind n e =>
    obtain rfl : String.ofList (c :: tail) = n := by simpa [Line.binders] using hbinds
    simpa [Line.isRemark, Line.render_bind] using hne
  | openClass n => simp [Line.isRemark, Line.render_openClass]
  | _ => cases hbinds

/-! ## Texts of modules -/

/-- A line of a text looks up a name when the module is executed: it binds a word to anything but a
string literal, or is a member of a layout, and mentions the name. -/
def LooksUp (name line : String) : Prop :=
  (∃ bound expression, readBinding? line = some (bound, expression) ∧
    ¬ IsTextLiteral expression ∧ name ∈ referencedNames expression) ∨
  ∃ member type, readMember? line = some (member, type) ∧ name ∈ referencedNames type

/-- A line of a text binds a name: to an expression, or as a class. -/
def BindsName (name line : String) : Prop :=
  (∃ expression, readBinding? line = some (name, expression)) ∨ readClass? line = some name

/-- Every name that a line of a text looks up is bound by a line above. -/
def DefinesBeforeUse (lines : List String) : Prop :=
  ∀ before line after name, lines = before ++ line :: after → LooksUp name line →
    ∃ earlier ∈ before, BindsName name earlier

/-- White space has no words. -/
theorem isWordCharacter_of_isBlank {c : Char} (h : Text.isBlank c = true) :
    Text.isWordCharacter c = false := by
  have hall : ∀ n ∈ Text.blankPoints, Text.isWordCharacter (Char.ofNat n) = false := by decide +kernel
  have hc := hall c.toNat (List.contains_iff_mem.mp h)
  rwa [Char.ofNat_toNat] at hc

/-- The words of a text are those of the text with white space at its end. -/
theorem mem_words_append {previous : Option Char} {text word : List Char}
    (h : word ∈ words previous text) {blanks : List Char} (hblanks : ¬ HasInk blanks) :
    word ∈ words previous (text ++ blanks) := by
  have hend : blanks.takeWhile Text.isWordCharacter = [] := by
    cases blanks with
    | nil => rfl
    | cons c rest =>
      cases hc : Text.isBlank c with
      | false => exact absurd ⟨c, List.mem_cons_self, hc⟩ hblanks
      | true => exact List.takeWhile_cons_of_neg (by rw [isWordCharacter_of_isBlank hc]; decide)
  fun_induction words previous text with
  | case1 => cases h
  | case2 previous c rest hstarts tail ih =>
    have htail : (rest ++ blanks).takeWhile Text.isWordCharacter = tail := by
      rw [List.takeWhile_append, hend, List.append_nil]
      split
      · rename_i hlength
        exact ((List.takeWhile_prefix _).eq_of_length hlength).symm
      · rfl
    have hdrop : (rest ++ blanks).drop tail.length = rest.drop tail.length ++ blanks :=
      List.drop_append_of_le_length (List.takeWhile_prefix _).length_le
    rw [List.cons_append, words, if_pos hstarts, htail]
    dsimp only
    rw [hdrop]
    rcases List.mem_cons.mp h with rfl | h
    · exact List.mem_cons_self
    · exact List.mem_cons_of_mem _ (ih h)
  | case3 previous c rest hstarts ih =>
    rw [List.cons_append, words, if_neg hstarts]
    exact ih h

/-- The names in an expression are those of the expression with white space at its end. -/
theorem mem_referencedNames_append {name expression : String} (h : name ∈ referencedNames expression)
    {ending : String} (hending : ¬ HasInk ending.toList) :
    name ∈ referencedNames (expression ++ ending) := by
  rw [referencedNames, List.mem_eraseDups, List.mem_filter, List.mem_map] at h ⊢
  obtain ⟨⟨word, hword, hname⟩, hkept⟩ := h
  rw [String.toList_append]
  exact ⟨⟨word, mem_words_append hword hending, hname⟩, hkept⟩

/-- A string literal has no white space at its end. -/
theorem IsTextLiteral.eq_empty {expression ending : String} (h : IsTextLiteral (expression ++ ending))
    (hending : ¬ HasInk ending.toList) : ending = "" := by
  obtain ⟨text, htext⟩ := h
  refine eq_empty_of_getLast? expression hending ⟨'"', ?_, by decide⟩
  rw [htext, Json.renderText, Json.quote, String.toList_ofList, List.getLast?_concat]
  rfl

/-- What a line of a text looks up is looked up by the legible line it is the text of, with or without
the white space at its end. -/
theorem uses_of_looksUp {line : Line} (h : line.IsLegible) {name text ending : String}
    (htext : line.render = text ++ ending) (hending : ¬ HasInk ending.toList)
    (hname : LooksUp name text) : line.Uses name := by
  rcases hname with ⟨bound, expression, hread, hliteral, hname⟩ | ⟨member, type, hread, hname⟩
  · have hlonger := readBinding?_append hread ending
    rw [← htext, readBinding?_render h] at hlonger
    cases line with
    | bind name' expression' =>
      obtain ⟨rfl, rfl⟩ := Prod.mk.inj (Option.some.inj hlonger)
      refine ⟨fun hlong => hliteral ?_, mem_referencedNames_append hname hending⟩
      rwa [hlong.eq_empty hending, String.append_empty] at hlong
    | _ => cases hlonger
  · have hlonger := readMember?_append (by rw [hread]; rfl) ending
    rw [← htext, readMember?_render h] at hlonger
    cases line with
    | member name' type' =>
      -- a member ends with a comma, so nothing is left out behind it
      obtain rfl : ending = "" := by
        refine eq_empty_of_getLast? text hending ⟨',', ?_, by decide⟩
        rw [← htext, Line.render_member, String.toList_append, List.getLast?_append]
        rfl
      rw [String.append_empty] at htext
      rw [← htext, readMember?_render h] at hread
      obtain ⟨rfl, rfl⟩ := Prod.mk.inj (Option.some.inj hread)
      exact hname
    | _ => cases hlonger

/-- A name that a legible line binds is bound by its text. -/
theorem bindsName_render {line : Line} (h : line.IsLegible) {name : String}
    (hname : name ∈ line.binders) : BindsName name line.render := by
  rw [BindsName, readBinding?_render h, readClass?_render h]
  cases line with
  | bind name' expression =>
    obtain rfl := List.mem_singleton.mp hname
    exact .inl ⟨expression, rfl⟩
  | openClass name' =>
    obtain rfl := List.mem_singleton.mp hname
    exact .inr rfl
  | _ => cases hname

/-- The lines of the text of legible lines define names before they use them if the lines do. -/
theorem definesBeforeUse_of_trims {below : List Line} (hbelow : LegibleLines below)
    (hdefined : DefinedAfter [] below) {shown : List String}
    (hshown : Trims (below.map Line.render) shown) : DefinesBeforeUse shown := by
  rintro before text after name rfl hname
  obtain ⟨ending, rest, hlines, hending⟩ := hshown.exists_line
  obtain ⟨first, last, rfl, rfl, hlast⟩ := List.map_eq_append_iff.mp hlines
  obtain ⟨line, last, rfl, htext, -⟩ := List.map_eq_cons_iff.mp hlast
  have huses := uses_of_looksUp (hbelow line (by simp)) htext hending hname
  have hbound := hdefined.mem_binders huses
  rw [List.nil_append, binders, List.mem_flatMap] at hbound
  obtain ⟨earlier, hearlier, hbinds⟩ := hbound
  exact ⟨earlier.render, List.mem_map_of_mem hearlier,
    bindsName_render (hbelow earlier (by simp [hearlier])) hbinds⟩

/-- **Definition before use.**  Every name that a binding or a layout of a generated module looks up is
bound by a line above it that is not a remark.  If the module is legible, every line of its text below
the introduction that looks up a name has a line above it, below the introduction as well, that binds
the name. -/
theorem generate_defined_before_use {library : String} {maxSlots : Int} {project : Project}
    {text : String} {log : Log} (h : generate library maxSlots project = (.ok text, log)) :
    ∃ lines w,
      (moduleLines ⟨library, maxSlots, enumNames project⟩ project).run .start = (.ok lines, w) ∧
      text = renderLines lines ∧
      (∀ before line after name, lines = before ++ line :: after → line.Uses name →
        ∃ earlier ∈ before, name ∈ earlier.binders ∧ earlier.isRemark = false) ∧
      (IsLegible library project → ∃ shown,
        textLines text = introductionLines library project ++ shown ++ [""] ∧
          DefinesBeforeUse shown) := by
  obtain ⟨lines, w, hrun, rfl⟩ := generate_ok h
  have hdefined := (established_moduleLines hrun).defined
  refine ⟨lines, w, hrun, rfl, ?_, fun hlegible => ?_⟩
  · rintro before line after name rfl huses
    have hbound := hdefined.mem_binders huses
    rw [List.nil_append, binders, List.mem_flatMap] at hbound
    obtain ⟨earlier, hearlier, hbinds⟩ := hbound
    refine ⟨earlier, hearlier, hbinds, ?_⟩
    cases line with
    | bind _ expression => exact isRemark_eq_false hbinds huses.2
    | member _ type => exact isRemark_eq_false hbinds huses
    | _ => exact huses.elim
  · obtain ⟨below, rfl, hbelow, hregistered⟩ := isLegible_moduleLines hlegible.headers hrun
    obtain ⟨shown, hshown, htext⟩ := exists_shown hbelow hregistered
    have hinert : (introduction library project).all Line.isInert = true := rfl
    have hafter := hdefined.of_append
    rw [binders_eq_nil hinert, List.append_nil] at hafter
    exact ⟨shown, htext, definesBeforeUse_of_trims hbelow hafter hshown⟩

/-- A header with two constants, the second of which refers to the first one, an alias, an
enumeration and a struct with members of both types. -/
def shapeHeader : Header :=
  { Header.empty "shape.h" with
    macros := [⟨"SIDE", .ofNumber 4 "4"⟩, ⟨"AREA", .ofRaw "SIDE * SIDE"⟩],
    aliases := [⟨"LENGTH", "DWORD"⟩],
    enums := [⟨"COLOR", [⟨"RED", .ofRaw "AREA + 1"⟩]⟩],
    structs := [⟨"SHAPE", [.plain "side" { CType.basic "LENGTH" with expr := "LENGTH" },
      .plain "color" { CType.basic "COLOR" with expr := "COLOR" }], "", none, none⟩] }

/-- The header is legible. -/
theorem legibleHeader_shape : LegibleHeader shapeHeader :=
  ⟨by decide, by decide +kernel, by decide +kernel, by decide +kernel, by decide +kernel,
    by decide +kernel, by decide +kernel⟩

/-- The module of a header whose lines depend on each other, and its text. -/
theorem generate_defined_before_use_shape :
    ∃ text log, generate "shape.dll" 12 [shapeHeader] = (.ok text, log) ∧
      ∃ lines w,
        (moduleLines ⟨"shape.dll", 12, enumNames [shapeHeader]⟩ [shapeHeader]).run .start =
          (.ok lines, w) ∧
        text = renderLines lines ∧
        (∀ before line after name, lines = before ++ line :: after → line.Uses name →
          ∃ earlier ∈ before, name ∈ earlier.binders ∧ earlier.isRemark = false) ∧
        ∃ shown, textLines text = introductionLines "shape.dll" [shapeHeader] ++ shown ++ [""] ∧
          DefinesBeforeUse shown := by
  have hok : (generate "shape.dll" 12 [shapeHeader]).1.isOk = true := by decide +kernel
  have hlegible : IsLegible "shape.dll" [shapeHeader] :=
    ⟨by decide, List.forall_mem_singleton.mpr legibleHeader_shape⟩
  obtain ⟨text, log, hgenerate⟩ := exists_text_of_isOk hok
  obtain ⟨lines, w, hrun, htext, hdefined, hshown⟩ := generate_defined_before_use hgenerate
  exact ⟨text, log, hgenerate, lines, w, hrun, htext, hdefined, hshown hlegible⟩

/-- What lines of a text bind is bound to an expression or opened as a class. -/
theorem exists_bindsName_iff {lines : List String} {name : String} :
    (∃ line ∈ lines, BindsName name line) ↔ name ∈ boundNames lines ∨ name ∈ classNames lines := by
  simp only [boundNames, classNames, BindsName, List.mem_filterMap, Option.map_eq_some_iff, Prod.exists,
    exists_and_right, exists_eq_right]
  constructor
  · rintro ⟨line, hline, hname | hname⟩
    · exact .inl ⟨line, hline, hname⟩
    · exact .inr ⟨line, hline, hname⟩
  · rintro (⟨line, hline, hname⟩ | ⟨line, hline, hname⟩)
    · exact ⟨line, hline, .inl hname⟩
    · exact ⟨line, hline, .inr hname⟩

/-- An enumeration whose constant has a string literal with a line end in its text, behind a backslash. -/
def spilledHeader : Header :=
  { Header.empty "test.h" with enums := [⟨"E", [⟨"A", .ofRaw "1 + \"\\\nB = C #\""⟩]⟩] }

/-- A text with a line end leaves its remark: what comes behind the line end is a binding, and it looks up
a name that no line above it binds. -/
theorem generate_spilledBinding :
    ∃ text log before after, generate "d3d11.dll" 12 [spilledHeader] = (.ok text, log) ∧
      textLines text =
        introductionLines "d3d11.dll" [spilledHeader] ++ before ++ "B = C #\"" :: after ∧
      LooksUp "C" "B = C #\"" ∧
      ∀ earlier ∈ introductionLines "d3d11.dll" [spilledHeader] ++ before, ¬ BindsName "C" earlier := by
  have hlines : (((moduleLines ⟨"d3d11.dll", 12, enumNames [spilledHeader]⟩ [spilledHeader]).run
      .start).1.toOption.map fun lines => (lines.drop 10).flatMap fun line => textLines line.render) =
        some (["_register_hresults(globals())", "", "", "# Enums: test.h", "E = ctypes.c_uint32",
          "# A = 1 + \"\\"] ++ "B = C #\"" :: ["", ""]) := by
    decide +kernel
  obtain ⟨text, log, after, hgenerate, htext⟩ := exists_textLines hlines ⟨'"', by decide, by decide⟩
  refine ⟨text, log, _, after, hgenerate, htext, .inl ⟨"B", "C #\"", by decide +kernel, ?_,
    by decide +kernel⟩, ?_⟩
  · rintro ⟨text, htext⟩
    have hfirst : some 'C' = some '"' := by
      rw [show some 'C' = "C #\"".toList.head? from rfl, htext, Json.renderText, Json.quote,
        String.toList_ofList, List.cons_append]
      rfl
    cases hfirst
  · intro earlier hearlier hbinds
    have hlibrary : IsInline "d3d11.dll" := by decide
    have hfiles : ∀ h ∈ [spilledHeader], IsInline h.file := by decide
    obtain ⟨hbound, hclasses, -⟩ := introductionLines_read hlibrary hfiles
    have hname := exists_bindsName_iff.mp ⟨earlier, hearlier, hbinds⟩
    rw [boundNames_append, classNames_append, hbound, hclasses] at hname
    revert hname
    decide +kernel

end SdkBindings.Module
