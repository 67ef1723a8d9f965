import SdkBindings.Proofs.Module.Marshalling
import SdkBindings.Proofs.Transform.TypeNames

/-!
# The types that wrappers refer to

The body of a wrapper makes objects of the types of its parameters: outputs, and arrays of elements.  A
module binds types in three sections, which open the classes, bind the aliases whose target is known by
then and bind the enumerations.  Layouts and aliases look only at names that are bound this way: where one
is not, they are written differently.  Wrappers are written without looking.

So what a wrapper looks up is bound exactly if the headers of the project declare it
(`generate_typeNames`).  Which names these are is computed from the headers alone (`projectTypes`), and
the names that a body looks up are those of the declared types of its parameters, whatever the passes have
made of the types.
-/

namespace SdkBindings.Module

open Transform

/-! ## The types that a project declares -/

/-- The names that aliases bind in turn where some types are known: an alias that stands for itself and
one with an unknown target are passed over. -/
def aliasTypes (enums known : List String) : List Alias → List String
  | [] => []
  | a :: rest =>
    let target := aliasTarget enums a.target
    if a.ident = target ∨ unknownNames known target ≠ [] then aliasTypes enums known rest
    else a.ident :: aliasTypes enums (addName a.ident known) rest

/-- The types that the headers of a project declare: the classes of structs and of their tables, the
aliases of known types, and the enumerations. -/
def projectTypes (project : Project) : List String :=
  let classes := shapeNames (classShapes [] (projectStructs project))
  classes ++ aliasTypes (enumNames project) classes (project.flatMap Header.aliases) ++
    enumNames project

/-- Names that are added one after the other. -/
def addNames (names known : List String) : List String :=
  names.foldl (fun known name => addName name known) known

/-- Aliases in a row bind what the first ones bind, and then what the others do. -/
theorem aliasTypes_append (enums known : List String) (xs ys : List Alias) :
    aliasTypes enums known (xs ++ ys) =
      aliasTypes enums known xs ++ aliasTypes enums (addNames (aliasTypes enums known xs) known) ys := by
  induction xs generalizing known with
  | nil => rfl
  | cons a rest ih =>
    rw [List.cons_append, aliasTypes, aliasTypes]
    split
    · exact ih known
    · rw [ih, List.cons_append]
      rfl

/-! ## The sections that bind types -/

/-- The lines of the three sections that bind types. -/
structure TypeLines where
  /-- The class statements. -/
  classes : List Line
  /-- The aliases. -/
  aliases : List Line
  /-- The enumerations. -/
  enums : List Line

/-- Writes the sections that bind types. -/
def typeLines (ctx : Context) (project : Project) : Writing TypeLines := do
  let classes ← project.mapM fun h => do
    let opened ← headerClasses ctx h
    pure (h, opened)
  let aliases ← project.mapM (aliasesSection ctx)
  let enums ← project.mapM enumsSection
  pure ⟨classes.flatMap fun (h, opened) => classesSection h opened, aliases.flatten, enums.flatten⟩

/-- The sections bind a type: a class statement opens it, the line of an alias binds it and is no remark,
or the line of an enumeration of the project binds it. -/
def TypeLines.Binds (project : Project) (t : TypeLines) (name : String) : Prop :=
  name ∈ openedClasses t.classes ∨ name ∈ binders t.aliases ∨
    (name ∈ enumNames project ∧ .bind name uint32Expr ∈ t.enums)

/-- The line of an alias binds what the alias binds. -/
theorem aliasLine_binds {ctx : Context} {file : String} {a : Alias} {w w' : Written} {lines : List Line}
    (h : (aliasLine ctx file a).run w = (.ok lines, w')) :
    binders lines = aliasTypes ctx.enums w.types [a] ∧
      w'.types = addNames (aliasTypes ctx.enums w.types [a]) w.types := by
  unfold aliasLine at h
  rw [aliasTypes, aliasTypes, aliasTypes]
  dsimp only at h ⊢
  by_cases hself : a.ident = aliasTarget ctx.enums a.target
  · rw [if_pos hself] at h
    obtain ⟨rfl, rfl⟩ := run_pure_ok h
    rw [if_pos (.inl hself)]
    exact ⟨rfl, rfl⟩
  rw [if_neg hself] at h
  obtain ⟨_, _, hget, h⟩ := run_bind_ok h
  cases hget
  split at h
  · rename_i hunknown
    cases h
    rw [if_pos (.inr hunknown)]
    exact ⟨rfl, rfl⟩
  · rename_i hknown
    cases h
    rw [if_neg (not_or.mpr ⟨hself, hknown⟩)]
    exact ⟨rfl, rfl⟩

/-- Steps in a row bind the aliases of all of them in turn, if each step binds its own. -/
theorem mapM_binds {α : Type} {enums : List String} {f : α → Writing (List Line)}
    (aliases : α → List Alias)
    (hf : ∀ x w w' lines, (f x).run w = (.ok lines, w') →
      binders lines = aliasTypes enums w.types (aliases x) ∧
        w'.types = addNames (aliasTypes enums w.types (aliases x)) w.types)
    {xs : List α} {w w' : Written} {parts : List (List Line)}
    (h : (xs.mapM f).run w = (.ok parts, w')) :
    binders parts.flatten = aliasTypes enums w.types (xs.flatMap aliases) ∧
      w'.types = addNames (aliasTypes enums w.types (xs.flatMap aliases)) w.types := by
  induction xs generalizing w parts with
  | nil =>
    obtain ⟨rfl, rfl⟩ := run_pure_ok h
    exact ⟨rfl, rfl⟩
  | cons x xs ih =>
    rw [List.mapM_cons] at h
    obtain ⟨lines, w₁, hlines, h⟩ := run_bind_ok h
    obtain ⟨rest, w₂, hrest, h⟩ := run_bind_ok h
    obtain ⟨rfl, rfl⟩ := run_pure_ok h
    obtain ⟨hbinders, htypes⟩ := hf x w w₁ lines hlines
    obtain ⟨hbinders', htypes'⟩ := ih hrest
    rw [htypes] at hbinders' htypes'
    rw [List.flatten_cons, binders_append, List.flatMap_cons, aliasTypes_append, hbinders, hbinders',
      htypes']
    exact ⟨rfl, by rw [addNames, addNames, addNames, List.foldl_append]⟩

/-- The aliases of a header. -/
theorem aliasesSection_binds {ctx : Context} (h : Header) (w w' : Written) (lines : List Line)
    (hrun : (aliasesSection ctx h).run w = (.ok lines, w')) :
    binders lines = aliasTypes ctx.enums w.types h.aliases ∧
      w'.types = addNames (aliasTypes ctx.enums w.types h.aliases) w.types := by
  obtain ⟨parts, w₁, hparts, hrun⟩ := run_bind_ok hrun
  obtain ⟨rfl, rfl⟩ := run_pure_ok hrun
  have hbinds := mapM_binds (fun a => [a]) (fun a _ _ _ => aliasLine_binds) hparts
  rw [List.flatMap_singleton'] at hbinds
  obtain ⟨heading, ending, hheading, hending, heq⟩ := underHeading_eq
    [.comment ("Type aliases: " ++ h.file)] parts.flatten [.blank, .blank] rfl rfl
  rwa [heq, binders_append, binders_append, binders_eq_nil hheading, binders_eq_nil hending,
    List.nil_append, List.append_nil]

/-- An enumeration is bound in the section of its header. -/
theorem bind_mem_enumsSection {h : Header} {w w' : Written} {lines : List Line}
    (hrun : (enumsSection h).run w = (.ok lines, w')) {e : Enumeration} (he : e ∈ h.enums) :
    .bind e.ident uint32Expr ∈ lines := by
  obtain ⟨parts, w₁, hparts, hrun⟩ := run_bind_ok hrun
  obtain ⟨rfl, rfl⟩ := run_pure_ok hrun
  obtain ⟨before, after, henums⟩ := List.append_of_mem he
  rw [henums] at hparts
  obtain ⟨-, part, w₂, w₃, -, hpart, hmem⟩ := run_mapM_append_cons hparts
  unfold enumLines at hpart
  obtain ⟨_, w₄, -, hpart⟩ := run_bind_ok hpart
  obtain ⟨members, w₅, -, hpart⟩ := run_bind_ok hpart
  obtain ⟨rfl, rfl⟩ := run_pure_ok hpart
  refine (infix_underHeading _ _ _).subset (List.mem_flatten.mpr ⟨_, hmem, ?_⟩)
  exact List.mem_append_left _ List.mem_cons_self

/-- **Types of a project.**  The sections that bind types bind those that the headers declare, and no
other ones. -/
theorem typeLines_binds_iff {ctx : Context} {project : Project} (henums : ctx.enums = enumNames project)
    {w w' : Written} (hnone : w.types = []) {t : TypeLines}
    (hrun : (typeLines ctx project).run w = (.ok t, w')) (name : String) :
    t.Binds project name ↔ name ∈ projectTypes project := by
  obtain ⟨classes, w₁, hclasses, hrun⟩ := run_bind_ok hrun
  obtain ⟨aliases, w₂, haliases, hrun⟩ := run_bind_ok hrun
  obtain ⟨enums, w₃, henumLines, hrun⟩ := run_bind_ok hrun
  obtain ⟨rfl, rfl⟩ := run_pure_ok hrun
  have hopens := headers_opens hclasses
  have htypes := hopens.types
  rw [hnone] at hopens htypes
  have hopened := openedClasses_of_headings hopens.headings
  have hbinders := (mapM_binds Header.aliases aliasesSection_binds haliases).1
  rw [htypes, henums, List.nil_append] at hbinders
  have hbound : name ∈ enumNames project → .bind name uint32Expr ∈ enums.flatten := by
    intro hname
    obtain ⟨h, hh, hname⟩ := List.mem_flatMap.mp hname
    obtain ⟨e, he, rfl⟩ := List.mem_map.mp hname
    obtain ⟨before, after, rfl⟩ := List.append_of_mem hh
    obtain ⟨-, part, w₄, w₅, -, hpart, hmem⟩ := run_mapM_append_cons henumLines
    exact List.mem_flatten.mpr ⟨part, hmem, bind_mem_enumsSection hpart he⟩
  rw [TypeLines.Binds, projectTypes, List.mem_append, List.mem_append, hopened, hbinders,
    and_iff_left_of_imp hbound, or_assoc]

/-- The text of the module of a project has the sections that bind types, behind its constants. -/
def HasTypeLines (library : String) (maxSlots : Int) (project : Project) (text : String)
    (t : TypeLines) : Prop :=
  let ctx : Context := ⟨library, maxSlots, enumNames project⟩
  ∃ lines constants below written w w',
    (moduleLines ctx project).run .start = (.ok lines, written) ∧ text = renderLines lines ∧
      (project.mapM constantsSection).run .start = (.ok constants, w) ∧
      (typeLines ctx project).run w = (.ok t, w') ∧
      lines = introduction library project ++ constants.flatten ++
        [.text "_register_hresults(globals())", .blank, .blank] ++
        (t.classes ++ t.aliases ++ t.enums) ++ below

/-- A module that is written has these sections, and they bind the types of its project. -/
theorem exists_typeLines {library : String} {maxSlots : Int} {project : Project} {text : String}
    {log : Log} (hgenerate : generate library maxSlots project = (.ok text, log)) :
    ∃ t, HasTypeLines library maxSlots project text t ∧
      ∀ name, t.Binds project name ↔ name ∈ projectTypes project := by
  obtain ⟨lines, written, hrun, rfl⟩ := generate_ok hgenerate
  obtain ⟨constants, w₁, hconstants, classes, w₂, hclasses, aliases, w₃, haliases, enums, w₄,
    henums, layouts, w₅, -, functions, -, rfl⟩ := moduleLines_ok hrun
  have hsections : (typeLines ⟨library, maxSlots, enumNames project⟩ project).run w₁ =
      (.ok ⟨classes.flatMap fun (h, opened) => classesSection h opened, aliases.flatten,
        enums.flatten⟩, w₄) := by
    rw [typeLines, run_bind, hclasses]
    dsimp only
    rw [run_bind, haliases]
    dsimp only
    rw [run_bind, henums]
    rfl
  have hstart : Remembers .start [] := ⟨fun name => by simp [Written.start], rfl⟩
  obtain ⟨_, -, -, -, -, hremembers⟩ := constants_inTurn hconstants hstart
  refine ⟨_, ⟨_, constants, layouts.flatten ++ functions.flatten, _, w₁, w₄, hrun, rfl,
    hconstants, hsections, ?_⟩, fun name => typeLines_binds_iff rfl hremembers.types hsections name⟩
  simp only [List.append_assoc]

/-! ## The types in the body of a wrapper -/

/-- What a local variable is for a parameter: an object of its type, made anew or from the argument, or
what holds the argument, for which no type is needed. -/
def IsMadeFor (f : Field) (value : String) : Prop :=
  match bodyType? f with
  | some type => value = type ++ "()" ∨
      value = "_array_of(" ++ type ++ ", " ++ safeName f.name ++ ")" ∨
      value = "_fixed_array_of(" ++ type ++ ", " ++ safeName f.name ++ ")"
  | none => value = "_pointer_arg(" ++ safeName f.name ++ ")"

/-- The local variables that a parameter brings are made for it. -/
theorem isMadeFor_of_mem_setup {enums : List String} {f : Field} {binding : String × String}
    (h : binding ∈ (marshal enums f).setup) : IsMadeFor f binding.2 := by
  unfold marshal at h
  unfold IsMadeFor bodyType?
  cases hpassing : Passing.ofField f with
  | output type =>
    obtain rfl := List.mem_singleton.mp (hpassing ▸ h)
    exact .inl rfl
  | array type =>
    obtain rfl := List.mem_singleton.mp (hpassing ▸ h)
    exact .inr (.inl rfl)
  | fixedArray type =>
    obtain rfl := List.mem_singleton.mp (hpassing ▸ h)
    exact .inr (.inr rfl)
  | buffered =>
    obtain rfl := List.mem_singleton.mp (hpassing ▸ h)
    rfl
  | _ =>
    rw [hpassing] at h
    cases h

/-- What a pointer expression points to. -/
theorem pointee_pointerExpr (base : String) : pointee (pointerExpr base) = base := by
  rw [pointee, pointerExpr, String.toList_append, String.toList_append, List.append_assoc,
    ← String.length_toList, List.drop_left]
  show String.ofList (base.toList ++ [')']).dropLast = base
  rw [List.dropLast_concat, String.ofList_toList]

/-- If the expression of indirections to a declared type starts as that of a pointer, it is that of a
pointer to one indirection less. -/
theorem innerPointer_eq_pointerExpr {prefixes : List String} {u : CType} {depth : Int}
    (hdepth : 0 < depth) (hu : u.IsDeclared) (h : isPointerExpr (innerPointer prefixes u depth) = true) :
    innerPointer prefixes u depth = pointerExpr (innerPointer prefixes u (depth - 1)) := by
  rw [innerPointer, if_pos hdepth] at h ⊢
  by_cases harray : u.shape = .array
  · rw [if_pos harray, isPointerExpr_wrapDimensions _ (hu.array harray)] at h
    cases h
  rw [if_neg harray] at h ⊢
  rw [innerPointer, if_neg harray]
  cases hshortcut : pointerShortcut? u.ident with
  | none =>
    have hcount : depth.toNat = (depth - 1).toNat + 1 := by omega
    rw [ite_self, hcount]
    rfl
  | some shortcut =>
    rw [hshortcut] at h
    by_cases hmore : 0 < depth - 1
    · have hcount : (depth - 1).toNat = (depth - 1 - 1).toNat + 1 := by omega
      rw [if_pos hmore, hcount]
      rfl
    · -- the only indirection has an expression of its own
      have hnone : (depth - 1).toNat = 0 := by omega
      dsimp only at h
      rw [hnone, wrapPointers, isPointerExpr_shortcut hshortcut] at h
      cases h

section

variable {prefixes : List String} {xs : List Field} {i : Nat} {d f : Field}

/-- The type of an output that a wrapper allocates looks up the names of the declared type. -/
theorem referencedNames_pointee (hd : d.type.All CType.IsDeclared Field.IsUnpaired)
    (hshape : d.type.shape = .pointer) (hprepared : IsPrepared prefixes xs i d f)
    (hspelled : referencedNames f.type.expr ⊆ referencedNames (resolveName prefixes d.type.ident))
    (hallocated : isAllocatedOutput f = true) :
    referencedNames (pointee f.type.expr) ⊆ referencedNames (resolveName prefixes d.type.ident) := by
  obtain ⟨u, hu, hdeclared⟩ := exists_inner_of_all hd hshape
  obtain ⟨hdepth, -⟩ := (CType.all_iff.mp hd).1.pointer hshape
  have hexpr := hprepared.expr (isUnpaired_of_isAllocatedOutput hallocated).1 u hu
  have hpointer : isPointerExpr f.type.expr = true := (Bool.and_eq_true_iff.mp hallocated).2
  rw [hexpr] at hpointer
  rw [hexpr, innerPointer_eq_pointerExpr (by omega) hdeclared hpointer] at hspelled ⊢
  rw [pointee_pointerExpr]
  exact fun n hn => hspelled (mem_referencedNames_pointerExpr.mpr hn)

/-- The type that the body of a wrapper passes a parameter with looks up the names of the declared
type. -/
theorem referencedNames_bodyType (hd : d.type.All CType.IsDeclared Field.IsUnpaired)
    (hkeeps : Keeps d.type f.type) (hspelled : IsSpelled prefixes f.type)
    (harray : f.isArray = true → f.type.shape = .pointer)
    (hprepared : d.type.shape = .pointer → IsPrepared prefixes xs i d f) {type : String}
    (htype : bodyType? f = some type) :
    referencedNames type ⊆ referencedNames (resolveName prefixes d.type.ident) := by
  have hnames : f.type.shape = .pointer ∨ f.type.shape = .array →
      referencedNames f.type.expr ⊆ referencedNames (resolveName prefixes d.type.ident) :=
    hkeeps.2.1 ▸ hspelled.names
  unfold bodyType? Passing.ofField at htype
  by_cases hallocated : isAllocatedOutput f = true
  · rw [if_pos hallocated] at htype
    cases htype
    have hshape : f.type.shape = .pointer := by
      simp only [isAllocatedOutput, Bool.and_eq_true] at hallocated
      exact of_decide_eq_true hallocated.1.2
    have hdshape := hkeeps.1.symm.trans hshape
    exact referencedNames_pointee hd hdshape (hprepared hdshape) (hnames (.inl hshape)) hallocated
  rw [if_neg hallocated] at htype
  split_ifs at htype with hlength hpaired hsized hreference hfixed hobject
  · cases htype
    exact hnames (.inl (harray hpaired))
  · cases htype
    exact hnames (.inr (of_decide_eq_true (Bool.and_eq_true_iff.mp hfixed).1))

/-- A parameter with a type in the body has a local variable. -/
theorem exists_mem_setup (enums : List String) {type : String} (h : bodyType? f = some type) :
    ∃ binding ∈ (marshal enums f).setup, IsMadeFor f binding.2 := by
  have hsome : (marshal enums f).setup ≠ [] := by
    unfold bodyType? at h
    unfold marshal
    cases hpassing : Passing.ofField f <;> simp [hpassing] at h ⊢
  obtain ⟨binding, hbinding⟩ := List.exists_mem_of_ne_nil _ hsome
  exact ⟨binding, hbinding, isMadeFor_of_mem_setup hbinding⟩

end

/-! ## Whole modules -/

section

variable {strict : Bool} {file source : String} {s : Grammar.Session} {h : Header}
  {prefixes : List String} {library : String} {maxSlots : Int} {earlier later : Project}
  {text : String} {log : Log} {callee : Callee} {ds : List Field}

/-- **Types of wrappers.**  In a module that is written, the local variables of the wrapper of a function
or method are made for its parameters.  The type that one is made with looks up no names but those of the
declared type of the parameter, and each of these is bound by the sections of the module that bind types
exactly if the headers of the project declare it. -/
theorem generate_typeNames
    (hread : (Grammar.readHeader strict file source s).1 = .ok h)
    (htransform : (transform prefixes h).failure = none)
    (hgenerate : generate library maxSlots (earlier ++ (transform prefixes h).value :: later) =
      (.ok text, log))
    (hds : h.parameters? callee = some ds)
    (hwritten : callee.IsWritten earlier (transform prefixes h).value) :
    ∃ ps w t, (transform prefixes h).value.parameters? callee = some ps ∧
      IsWrapperOf library maxSlots (earlier ++ (transform prefixes h).value :: later) text
        (transform prefixes h).value callee w ∧
      HasTypeLines library maxSlots (earlier ++ (transform prefixes h).value :: later) text t ∧
      (∀ binding ∈ w.setup, ∃ i f, callee.first ≤ i ∧ ps[i]? = some f ∧ IsMadeFor f binding.2) ∧
      ∀ i f type, callee.first ≤ i → ps[i]? = some f → bodyType? f = some type →
        (∃ binding ∈ w.setup, IsMadeFor f binding.2) ∧
          ∃ d, ds[i]? = some d ∧ ∀ n ∈ referencedNames type,
            n ∈ referencedNames (resolveName prefixes d.type.ident) ∧
              (t.Binds (earlier ++ (transform prefixes h).value :: later) n ↔
                n ∈ projectTypes (earlier ++ (transform prefixes h).value :: later)) := by
  have hdeclared : h.IsDeclared := Grammar.isDeclared_of_readHeader hread
  obtain ⟨xs, ps, -, hps, hprepared⟩ := exists_prepared hdeclared htransform hds
  obtain ⟨ps', hps', hspelled⟩ := exists_spelled hdeclared htransform hds
  cases hps.symm.trans hps'
  obtain ⟨w, hw, hmarshals⟩ := exists_wrapper hgenerate hps hwritten
  obtain ⟨t, ht, hbinds⟩ := exists_typeLines hgenerate
  refine ⟨ps, w, t, hps, hw, ht, fun binding hbinding => ?_, fun i f type hi hf htype => ⟨?_, ?_⟩⟩
  · obtain ⟨i, f, hi, hf, hbinding⟩ := hmarshals.origin binding hbinding
    exact ⟨i, f, hi, hf, isMadeFor_of_mem_setup hbinding⟩
  · obtain ⟨binding, hbinding, hmade⟩ := exists_mem_setup _ htype
    exact ⟨binding, hmarshals.setup i f hi hf binding hbinding, hmade⟩
  · obtain ⟨d, hd, hkeeps, hspelled, harray⟩ := hspelled i f hf
    have hall : d.type.All CType.IsDeclared Field.IsUnpaired :=
      (Field.all_iff.mp (Field.allOf_iff.mp (areDeclared_parameters? hdeclared hds) d
        (List.mem_of_getElem? hd))).2
    have hpointer (hshape : d.type.shape = .pointer) : IsPrepared prefixes xs i d f := by
      obtain ⟨f', hf', hprepared⟩ := hprepared i d hd hshape
      cases hf.symm.trans hf'
      exact hprepared
    exact ⟨d, hd, fun n hn =>
      ⟨referencedNames_bodyType hall hkeeps hspelled harray hpointer htype hn, hbinds n⟩⟩

/-- A function with an output of an alias, an array with its length, an array of a fixed size and an
output of a type that is not declared. -/
def boxesSource : String :=
  "typedef struct BOX\n\x7b\n    UINT Side;\n\x7d BOX;\ntypedef BOX CRATE;\n" ++
    "HRESULT WINAPI F( __out CRATE *pBox, UINT NumViews, __in_ecount(NumViews) BOX *pViews, " ++
    "FLOAT Colors[ 4 ], __out WIDGET *pW );\n"

/-- The types that the wrapper of that function is written with, as `generate_typeNames` says. -/
theorem generate_typeNames_boxes :
    ∃ h text log ds, IsGenerated boxesSource h text log ∧
      (Callee.function 0).IsWritten [] (transform [] h).value ∧
      h.parameters? (.function 0) = some ds ∧
      ds.map (fun d => d.type.ident) = ["CRATE", "UINT", "BOX", "FLOAT", "WIDGET"] ∧
      ∃ ps w t, (transform [] h).value.parameters? (.function 0) = some ps ∧
        IsWrapperOf "d3d11.dll" 12 ([] ++ (transform [] h).value :: []) text (transform [] h).value
          (.function 0) w ∧
        HasTypeLines "d3d11.dll" 12 ([] ++ (transform [] h).value :: []) text t ∧
        (∀ binding ∈ w.setup, ∃ i f, (Callee.function 0).first ≤ i ∧ ps[i]? = some f ∧
          IsMadeFor f binding.2) ∧
        ∀ i f type, (Callee.function 0).first ≤ i → ps[i]? = some f → bodyType? f = some type →
          (∃ binding ∈ w.setup, IsMadeFor f binding.2) ∧
            ∃ d, ds[i]? = some d ∧ ∀ n ∈ referencedNames type,
              n ∈ referencedNames (resolveName [] d.type.ident) ∧
                (t.Binds ([] ++ (transform [] h).value :: []) n ↔
                  n ∈ projectTypes ([] ++ (transform [] h).value :: [])) := by
  have hsource : boxesSource.toList = _ :=
    Lexer.toList_append_eq (Lexer.toList_append_eq String.toList_ofList String.toList_ofList)
      String.toList_ofList
  obtain ⟨h, text, log, ds, -, hh, hwritten, hds, -, hidents⟩ :=
    exists_isGenerated boxesSource (.function 0) (fun ds _ =>
      decide (ds.map (fun d => d.type.ident) = ["CRATE", "UINT", "BOX", "FLOAT", "WIDGET"])) (by
        -- evaluated from the characters of the text, so that the kernel builds no bytes
        rw [Grammar.readHeader, Grammar.header, Lexer.lex, hsource]
        decide +kernel)
  exact ⟨h, text, log, ds, hh, hwritten, hds, of_decide_eq_true hidents,
    generate_typeNames hh.isRead hh.isTransformed hh.isWritten hds hwritten⟩

/-- A function with an output of a type that no header declares. -/
def widgetSource : String :=
  "HRESULT WINAPI F( __out WIDGET *pW );\n"

/-- Its wrapper looks the type up, and no line of the module binds it. -/
theorem wrapper_widget :
    ∃ h text log ds w lines written, IsGenerated widgetSource h text log ∧
      h.parameters? (.function 0) = some ds ∧
      IsWrapperOf "d3d11.dll" 12 ([] ++ (transform [] h).value :: []) text (transform [] h).value
        (.function 0) w ∧
      w.setup = [("pW", "WIDGET()")] ∧ referencedNames "WIDGET" = ["WIDGET"] ∧
      (moduleLines ⟨"d3d11.dll", 12, enumNames ([] ++ (transform [] h).value :: [])⟩
        ([] ++ (transform [] h).value :: [])).run .start = (.ok lines, written) ∧
      text = renderLines lines ∧ binders lines = [] := by
  obtain ⟨h, text, log, ds, w, hh, -, hds, hw, hsetup⟩ :=
    exists_isGenerated widgetSource (.function 0)
      (fun _ w => decide (w.setup = [("pW", "WIDGET()")])) (by
        have hsource : widgetSource.toList = _ := String.toList_ofList
        rw [Grammar.readHeader, Grammar.header, Lexer.lex, hsource]
        decide +kernel)
  obtain ⟨lines, written, hrun, htext, -⟩ := hw.lines
  have hbinders : ((Grammar.readHeader false "test.h" widgetSource .start).1.toOption.bind fun h =>
      ((moduleLines ⟨"d3d11.dll", 12, enumNames ([] ++ (transform [] h).value :: [])⟩
        ([] ++ (transform [] h).value :: [])).run .start).1.toOption.map binders) = some [] := by
    have hsource : widgetSource.toList = _ := String.toList_ofList
    rw [Grammar.readHeader, Grammar.header, Lexer.lex, hsource]
    decide +kernel
  rw [hh.isRead, Except.toOption, Option.bind_some, hrun] at hbinders
  exact ⟨h, text, log, ds, w, lines, written, hh, hds, hw, of_decide_eq_true hsetup,
    by decide +kernel, hrun, htext, Option.some.inj hbinders⟩

end

end SdkBindings.Module
