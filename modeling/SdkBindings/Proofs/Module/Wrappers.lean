import SdkBindings.Proofs.Module.Declarations
import SdkBindings.Proofs.Transform.Callees

/-!
# Every callee has its wrapper in the module

A module that is written has the lines of one wrapper for each function of its headers, and for each
method of a struct whose class it opens (`exists_wrapper`).  Which classes are opened depends on the
headers and structs in front, since a struct is skipped if its name is taken by then
(`Callee.IsWritten`).

The proof goes down to the callee: a run of steps in a row has run the one that the callee belongs to
(`run_mapM_append_cons`), and its lines are a stretch of the lines of everything around them.
-/

namespace SdkBindings

open SdkBindings.Module

/-! ## Wrappers of callees -/

/-- The wrapper of a callee, if there is such a callee. -/
def Header.wrapper? (h : Header) (ctx : Context) : Callee → Option (Except Module.Error Wrapper)
  | .function place => h.functions[place]?.map (functionWrapper ctx)
  | .method place entry => (h.method? place entry).map fun (s, f) => methodWrapper ctx s.ident f

namespace Callee

/-- The place of the first parameter that the wrapper does not find by itself: the receiver of a method
comes before it. -/
def first : Callee → Nat
  | .function _ => 0
  | .method _ _ => 1

/-- The level of indentation of the wrapper. -/
def level : Callee → Nat
  | .function _ => 0
  | .method _ _ => 1

end Callee

/-- The names of the classes that are opened in front of the struct at a place of a header, where some
headers come before that one. -/
def classesBefore (earlier : Project) (h : Header) (place : Nat) : List String :=
  shapeNames (classShapes []
    (projectStructs earlier ++ (h.structs.take place).map fun s => (h, s)))

/-- A wrapper is written for the callee: a function always has one, and a method has one unless the
class of its struct is opened in front of the struct already. -/
def Callee.IsWritten (earlier : Project) (h : Header) : Callee → Prop
  | .function _ => True
  | .method place _ => ∀ s ∈ h.structs[place]?, s.ident ∉ classesBefore earlier h place

instance (earlier : Project) (h : Header) (callee : Callee) : Decidable (callee.IsWritten earlier h) :=
  match callee with
  | .function _ => inferInstanceAs (Decidable True)
  | .method place _ =>
    inferInstanceAs (Decidable (∀ s ∈ h.structs[place]?, s.ident ∉ classesBefore earlier h place))

namespace Module

/-! ## What a wrapper is made of -/

/-- The parts of a wrapper are those of its parameters: each has its slot, in its place from `first`
on, and brings its parameter and its local variables. -/
structure Wrapper.Marshals (enums : List String) (first : Nat) (parameters : List Field) (w : Wrapper) :
    Prop where
  /-- The receiver has the first slot, if there is one. -/
  receiver : ∀ i < first, w.slots[i]? = some .receiver
  /-- Each parameter has its slot. -/
  slot : ∀ i f, first ≤ i → parameters[i]? = some f → w.slots[i]? = some (marshal enums f).slot
  /-- It is a parameter of the wrapper if that needs it. -/
  signature : ∀ i f, first ≤ i → parameters[i]? = some f →
    ∀ name ∈ (marshal enums f).signature, name ∈ w.signature
  /-- It has its local variable. -/
  setup : ∀ i f, first ≤ i → parameters[i]? = some f →
    ∀ binding ∈ (marshal enums f).setup, binding ∈ w.setup
  /-- There are no other local variables. -/
  origin : ∀ binding ∈ w.setup, ∃ i f, first ≤ i ∧ parameters[i]? = some f ∧
    binding ∈ (marshal enums f).setup

/-- The wrapper of what is called, in parts. -/
theorem Wrapper.of_ok {enums : List String} {limit : Int} {c : Callable} {w : Wrapper}
    (h : Wrapper.of enums limit c = .ok w) :
    w.signature = (if c.hasReceiver then ["self"] else []) ++
        (c.parameters.map (marshal enums)).flatMap Marshalled.signature ∧
      w.setup = (c.parameters.map (marshal enums)).flatMap Marshalled.setup ∧
      ∃ zeros, w.slots = (if c.hasReceiver then [Slot.receiver] else []) ++
        (c.parameters.map (marshal enums)).map Marshalled.slot ++ zeros := by
  unfold Wrapper.of at h
  obtain ⟨helper, -, h⟩ := bind_eq_ok h
  obtain ⟨_, -, h⟩ := bind_eq_ok h
  cases h
  exact ⟨rfl, rfl, _, rfl⟩

/-- The wrapper of what is called has the parts of its parameters, behind the receiver if there is
one. -/
theorem Wrapper.marshals_of_ok {enums : List String} {limit : Int} {c : Callable} {w : Wrapper}
    (h : Wrapper.of enums limit c = .ok w) (receivers : List Field)
    (hreceivers : receivers.length = if c.hasReceiver then 1 else 0) :
    w.Marshals enums receivers.length (receivers ++ c.parameters) := by
  obtain ⟨hsignature, hsetup, zeros, hslots⟩ := Wrapper.of_ok h
  have hplace {i : Nat} {f : Field} (hi : receivers.length ≤ i)
      (hf : (receivers ++ c.parameters)[i]? = some f) :
      c.parameters[i - receivers.length]? = some f := by
    rwa [List.getElem?_append_right hi] at hf
  have hmem {i : Nat} {f : Field} (hi : receivers.length ≤ i)
      (hf : (receivers ++ c.parameters)[i]? = some f) :
      marshal enums f ∈ c.parameters.map (marshal enums) :=
    List.mem_map_of_mem (List.mem_of_getElem? (hplace hi hf))
  refine ⟨fun i hi => ?_, fun i f hi hf => ?_, fun i f hi hf name hname => ?_,
    fun i f hi hf binding hbinding => ?_, fun binding hbinding => ?_⟩
  · rw [hreceivers] at hi
    cases hreceiver : c.hasReceiver with
    | false => simp [hreceiver] at hi
    | true =>
      obtain rfl : i = 0 := by simpa [hreceiver] using hi
      rw [hslots, hreceiver]
      rfl
  · have hlength : (if c.hasReceiver then [Slot.receiver] else []).length = receivers.length := by
      rw [hreceivers]
      cases c.hasReceiver <;> rfl
    have hslot : ((c.parameters.map (marshal enums)).map Marshalled.slot)[i - receivers.length]? =
        some (marshal enums f).slot := by
      rw [List.getElem?_map, List.getElem?_map, hplace hi hf]
      rfl
    obtain ⟨hlt, -⟩ := List.getElem?_eq_some_iff.mp hslot
    rw [hslots, List.append_assoc, List.getElem?_append_right (hlength ▸ hi), hlength,
      List.getElem?_append_left hlt, hslot]
  · rw [hsignature]
    exact List.mem_append_right _ (List.mem_flatMap.mpr ⟨_, hmem hi hf, hname⟩)
  · rw [hsetup]
    exact List.mem_flatMap.mpr ⟨_, hmem hi hf, hbinding⟩
  · rw [hsetup, List.mem_flatMap] at hbinding
    obtain ⟨part, hpart, hbinding⟩ := hbinding
    obtain ⟨f, hf, rfl⟩ := List.mem_map.mp hpart
    obtain ⟨i, hf⟩ := List.mem_iff_getElem?.mp hf
    refine ⟨receivers.length + i, f, Nat.le_add_right .., ?_, hbinding⟩
    rwa [List.getElem?_append_right (Nat.le_add_right ..), Nat.add_sub_cancel_left]

/-- The wrapper of a callee marshals the parameters of the callee. -/
theorem marshals_of_wrapper? {h : Header} {ctx : Context} {callee : Callee} {parameters : List Field}
    (hparameters : h.parameters? callee = some parameters) {w : Wrapper}
    (hw : h.wrapper? ctx callee = some (.ok w)) : w.Marshals ctx.enums callee.first parameters := by
  cases callee with
  | function place =>
    obtain ⟨f, hf, rfl⟩ := Option.map_eq_some_iff.mp hparameters
    rw [Header.wrapper?, hf, Option.map_some] at hw
    exact Wrapper.marshals_of_ok (Option.some.inj hw) [] rfl
  | method place entry =>
    obtain ⟨⟨s, f⟩, hmethod, rfl⟩ := Option.map_eq_some_iff.mp hparameters
    rw [Header.wrapper?, hmethod, Option.map_some] at hw
    have hof := Option.some.inj hw
    dsimp only at hof ⊢
    unfold methodWrapper at hof
    split at hof
    · rename_i receiver rest hreceiver
      split at hof
      · rw [hreceiver]
        exact Wrapper.marshals_of_ok hof [receiver] rfl
      · cases hof
    · cases hof

/-! ## Steps in a row -/

/-- In a run of steps in a row each has been run, after those in front of it. -/
theorem run_mapM_append_cons {α β : Type} {f : α → Writing β} {xs : List α} {x : α} {ys : List α}
    {w w' : Written} {parts : List β} (h : ((xs ++ x :: ys).mapM f).run w = (.ok parts, w')) :
    ∃ before part w₁ w₂, (xs.mapM f).run w = (.ok before, w₁) ∧ (f x).run w₁ = (.ok part, w₂) ∧
      part ∈ parts := by
  rw [List.mapM_append, List.mapM_cons] at h
  obtain ⟨before, w₁, hbefore, h⟩ := run_bind_ok h
  obtain ⟨rest, w₂, hrest, h⟩ := run_bind_ok h
  obtain ⟨rfl, rfl⟩ := run_pure_ok h
  obtain ⟨part, w₃, hpart, hrest⟩ := run_bind_ok hrest
  obtain ⟨others, w₄, -, hrest⟩ := run_bind_ok hrest
  obtain ⟨rfl, rfl⟩ := run_pure_ok hrest
  exact ⟨before, part, w₁, w₃, hbefore, hpart, List.mem_append_right _ List.mem_cons_self⟩

/-- In a run of steps in a row the one at a place has been run, after those in front of it. -/
theorem run_mapM_getElem? {α β : Type} {f : α → Writing β} {xs : List α} {i : Nat} {x : α}
    (hx : xs[i]? = some x) {w w' : Written} {parts : List β}
    (h : (xs.mapM f).run w = (.ok parts, w')) :
    ∃ before part w₁ w₂, ((xs.take i).mapM f).run w = (.ok before, w₁) ∧
      (f x).run w₁ = (.ok part, w₂) ∧ part ∈ parts := by
  obtain ⟨hi, rfl⟩ := List.getElem?_eq_some_iff.mp hx
  rw [← List.take_append_drop i xs, List.drop_eq_getElem_cons hi] at h
  exact run_mapM_append_cons h

/-! ## Functions -/

/-- A function has its wrapper in its section. -/
theorem wrapper_functionsSection {ctx : Context} {h : Header} {w w' : Written} {lines : List Line}
    (hrun : (functionsSection ctx h).run w = (.ok lines, w')) {place : Nat} {f : Function}
    (hf : h.functions[place]? = some f) :
    ∃ wrapper, functionWrapper ctx f = .ok wrapper ∧ wrapper.lines 0 <:+: lines := by
  obtain ⟨parts, w₁, hparts, hrun⟩ := run_bind_ok hrun
  obtain ⟨rfl, rfl⟩ := run_pure_ok hrun
  obtain ⟨-, part, w₂, w₃, -, hpart, hmem⟩ := run_mapM_getElem? hf hparts
  obtain ⟨wrapper, w₄, hwrapper, hpart⟩ := run_bind_ok hpart
  obtain ⟨rfl, rfl⟩ := run_pure_ok hpart
  refine ⟨wrapper, (ofExcept_ok hwrapper).1, ?_⟩
  have hlines : wrapper.lines 0 <:+: wrapper.lines 0 ++ [.blank, .blank] :=
    (List.prefix_append _ _).isInfix
  exact hlines.trans ((List.infix_of_mem_flatten hmem).trans (infix_underHeading ..))

/-! ## Methods -/

/-- A method has its wrapper among the lines of the methods of its table. -/
theorem wrapper_methodLines {ctx : Context} {ident : String} {isFirst : Bool} {fields : List Field}
    {lines : List Line} (h : methodLines ctx ident isFirst fields = .ok lines) {entry : Nat} {f : Field}
    (hf : fields[entry]? = some f) (hshape : f.type.shape = .functionPointer) :
    ∃ wrapper, methodWrapper ctx ident f = .ok wrapper ∧ wrapper.lines 1 <:+: lines := by
  induction fields generalizing isFirst lines entry with
  | nil => cases hf
  | cons g rest ih =>
    rw [methodLines] at h
    cases entry with
    | zero =>
      cases hf
      rw [if_pos hshape] at h
      obtain ⟨wrapper, hwrapper, h⟩ := bind_eq_ok h
      obtain ⟨tail, -, h⟩ := bind_eq_ok h
      cases h
      exact ⟨wrapper, hwrapper, List.infix_append ..⟩
    | succ entry =>
      split at h
      · obtain ⟨_, -, h⟩ := bind_eq_ok h
        obtain ⟨tail, htail, h⟩ := bind_eq_ok h
        cases h
        obtain ⟨wrapper, hwrapper, hinfix⟩ := ih htail hf
        exact ⟨wrapper, hwrapper, hinfix.trans (List.suffix_append _ _).isInfix⟩
      · exact ih h hf

/-- A method has its wrapper in the body of the class of its struct. -/
theorem wrapper_structBody {ctx : Context} {s : Struct} {t : Vtable} {lines : List Line}
    (h : structBody ctx s (some t) = .ok lines) {entry : Nat} {f : Field}
    (hf : t.fields[entry]? = some f) (hshape : f.type.shape = .functionPointer) :
    ∃ wrapper, methodWrapper ctx s.ident f = .ok wrapper ∧ wrapper.lines 1 <:+: lines := by
  have hbehind {guid methods : List Line}
      (hmethods : methodLines ctx s.ident (decide (guid = [])) t.fields = .ok methods) :
      ∃ wrapper, methodWrapper ctx s.ident f = .ok wrapper ∧ wrapper.lines 1 <:+: guid ++ methods := by
    obtain ⟨wrapper, hwrapper, hinfix⟩ := wrapper_methodLines hmethods hf hshape
    exact ⟨wrapper, hwrapper, hinfix.trans (List.suffix_append _ _).isInfix⟩
  unfold structBody at h
  dsimp only at h
  split at h
  · obtain ⟨guid, -, h⟩ := bind_eq_ok h
    obtain ⟨methods, hmethods, h⟩ := bind_eq_ok h
    cases h
    exact hbehind hmethods
  · obtain ⟨guid, -, h⟩ := bind_eq_ok h
    obtain ⟨methods, hmethods, h⟩ := bind_eq_ok h
    cases h
    exact hbehind hmethods

/-- The body of a class is a stretch of its lines. -/
theorem infix_openClass {ident : String} {fields : List Field} {body : List Line} {w w' : Written}
    {c : OpenedClass} (h : (openClass ident fields body).run w = (.ok c, w')) : body <:+: c.lines := by
  unfold openClass at h
  cases hfields : fields.isEmpty <;> rw [hfields] at h
  · cases h
    split
    · rename_i hnone
      exact hnone ▸ List.nil_infix
    · exact ⟨[.openClass ident], [.blank, .blank], rfl⟩
  · cases h

/-- A method has its wrapper in a class of its struct, if the name of the struct is not taken. -/
theorem wrapper_structClasses {ctx : Context} {h : Header} {s : Struct} {w w' : Written}
    {classes : List OpenedClass} (hrun : (structClasses ctx h s).run w = (.ok classes, w'))
    (hnew : s.ident ∉ w.types) {t : Vtable} (ht : h.vtable? s = some t) {entry : Nat} {f : Field}
    (hf : t.fields[entry]? = some f) (hshape : f.type.shape = .functionPointer) :
    ∃ wrapper, methodWrapper ctx s.ident f = .ok wrapper ∧
      ∃ c ∈ classes, wrapper.lines 1 <:+: c.lines := by
  unfold structClasses at hrun
  obtain ⟨taken, w₁, htaken, hrun⟩ := run_bind_ok hrun
  cases htaken
  rw [if_neg (by rwa [List.contains_iff_mem]), ht] at hrun
  obtain ⟨body, w₁, hpassed, hrun⟩ := run_bind_ok hrun
  obtain ⟨hbody, -⟩ := ofExcept_ok hpassed
  obtain ⟨wrapper, hwrapper, hinfix⟩ := wrapper_structBody hbody hf hshape
  obtain ⟨own, w₂, hown, hrun⟩ := run_bind_ok hrun
  refine ⟨wrapper, hwrapper, own, ?_, hinfix.trans (infix_openClass hown)⟩
  -- the class of the struct is the first one, whether the table has a class of its own or not
  obtain ⟨taken, w₃, htaken, hrun⟩ := run_bind_ok hrun
  split at hrun
  · obtain ⟨rfl, -⟩ := run_pure_ok hrun
    exact List.mem_singleton_self own
  · obtain ⟨second, w₄, -, hrun⟩ := run_bind_ok hrun
    obtain ⟨rfl, -⟩ := run_pure_ok hrun
    exact List.mem_cons_self

/-- A method has its wrapper in a class of its header, if a wrapper is written for it there. -/
theorem wrapper_headerClasses {ctx : Context} {earlier : Project} {h : Header} {w w' : Written}
    (hw : w.types = shapeNames (classShapes [] (projectStructs earlier))) {classes : List OpenedClass}
    (hrun : (headerClasses ctx h).run w = (.ok classes, w')) {place entry : Nat}
    (hwritten : (Callee.method place entry).IsWritten earlier h) {s : Struct} {f : Field}
    (hmethod : h.method? place entry = some (s, f)) :
    ∃ wrapper, methodWrapper ctx s.ident f = .ok wrapper ∧
      ∃ c ∈ classes, wrapper.lines 1 <:+: c.lines := by
  obtain ⟨parts, w₁, hparts, hrun⟩ := run_bind_ok hrun
  obtain ⟨rfl, rfl⟩ := run_pure_ok hrun
  obtain ⟨hs, i, t, hi, ht, hf, hshape⟩ := Header.method?_eq_some_iff.mp hmethod
  obtain ⟨before, part, w₂, w₃, hbefore, hpart, hmem⟩ := run_mapM_getElem? hs hparts
  have htypes : w₂.types = classesBefore earlier h place := by
    rw [(structs_opens hbefore).types, hw, classesBefore, classShapes_append, shapeNames_append,
      List.nil_append]
  have hnew : s.ident ∉ w₂.types := htypes ▸ hwritten s hs
  have htable : h.vtable? s = some t := by
    rw [Header.vtable?, hi, Option.bind_some, ht]
  obtain ⟨wrapper, hwrapper, c, hc, hinfix⟩ := wrapper_structClasses hpart hnew htable hf hshape
  exact ⟨wrapper, hwrapper, c, List.mem_flatten.mpr ⟨part, hmem, hc⟩, hinfix⟩

/-- The lines of a class are a stretch of the section of its header. -/
theorem infix_classesSection {h : Header} {classes : List OpenedClass} {c : OpenedClass}
    (hc : c ∈ classes) : c.lines <:+: classesSection h classes :=
  (List.infix_of_mem_flatten (List.mem_map_of_mem hc)).trans (infix_underHeading ..)

/-! ## Whole modules -/

/-- The lines of a module have the wrapper of each callee for which one is written. -/
theorem wrapper_moduleLines {ctx : Context} {earlier later : Project} {h : Header} {lines : List Line}
    {w : Written}
    (hrun : (moduleLines ctx (earlier ++ h :: later)).run .start = (.ok lines, w)) {callee : Callee}
    {parameters : List Field} (hparameters : h.parameters? callee = some parameters)
    (hwritten : callee.IsWritten earlier h) :
    ∃ wrapper, h.wrapper? ctx callee = some (.ok wrapper) ∧ wrapper.lines callee.level <:+: lines := by
  obtain ⟨constants, w₁, hconstants, classes, w₂, hclasses, aliases, w₃, -, enums, w₄, -,
    layouts, w₅, -, functions, hfunctions, rfl⟩ := moduleLines_ok hrun
  cases callee with
  | function place =>
    obtain ⟨f, hf, rfl⟩ := Option.map_eq_some_iff.mp hparameters
    obtain ⟨-, part, w₇, w₈, -, hpart, hmem⟩ := run_mapM_append_cons hfunctions
    obtain ⟨wrapper, hwrapper, hinfix⟩ := wrapper_functionsSection hpart hf
    refine ⟨wrapper, by rw [Header.wrapper?, hf, Option.map_some, hwrapper], ?_⟩
    exact hinfix.trans ((List.infix_of_mem_flatten hmem).trans (List.suffix_append _ _).isInfix)
  | method place entry =>
    obtain ⟨⟨s, f⟩, hmethod, rfl⟩ := Option.map_eq_some_iff.mp hparameters
    have hstart : Remembers .start [] := ⟨fun name => by simp [Written.start], rfl⟩
    obtain ⟨_, -, -, -, -, hw₁⟩ := constants_inTurn hconstants hstart
    obtain ⟨before, part, w₇, w₈, hbefore, hpart, hmem⟩ := run_mapM_append_cons hclasses
    have htypes : w₇.types = shapeNames (classShapes [] (projectStructs earlier)) := by
      rw [(headers_opens hbefore).types, hw₁.types, List.nil_append]
    obtain ⟨opened, w₉, hopened, hpart⟩ := run_bind_ok hpart
    obtain ⟨rfl, rfl⟩ := run_pure_ok hpart
    obtain ⟨wrapper, hwrapper, c, hc, hinfix⟩ :=
      wrapper_headerClasses htypes hopened hwritten hmethod
    refine ⟨wrapper, by rw [Header.wrapper?, hmethod, Option.map_some, ← hwrapper], ?_⟩
    have hsection : classesSection h opened <:+:
        classes.flatMap fun p => classesSection p.1 p.2 :=
      List.infix_of_mem_flatten (List.mem_map.mpr ⟨(h, opened), hmem, rfl⟩)
    refine hinfix.trans ((infix_classesSection hc).trans (hsection.trans ?_))
    refine ⟨introduction ctx.library (earlier ++ h :: later) ++ constants.flatten ++
      [.text "_register_hresults(globals())", .blank, .blank],
      aliases.flatten ++ enums.flatten ++ layouts.flatten ++ functions.flatten, ?_⟩
    simp only [List.append_assoc]

/-- The text of the module of a project has the wrapper of a callee of a header. -/
structure IsWrapperOf (library : String) (maxSlots : Int) (project : Project) (text : String)
    (h : Header) (callee : Callee) (w : Wrapper) : Prop where
  /-- The callee has this wrapper. -/
  wrapper : h.wrapper? ⟨library, maxSlots, enumNames project⟩ callee = some (.ok w)
  /-- Its lines are a stretch of the lines of the module. -/
  lines : ∃ lines written,
    (moduleLines ⟨library, maxSlots, enumNames project⟩ project).run .start = (.ok lines, written) ∧
      text = renderLines lines ∧ w.lines callee.level <:+: lines

/-- **Wrappers.**  A module that is written has the wrapper of each callee for which one is written, and
the wrapper marshals the parameters of the callee. -/
theorem exists_wrapper {library : String} {maxSlots : Int} {earlier later : Project} {h : Header}
    {text : String} {log : Log}
    (hgenerate : generate library maxSlots (earlier ++ h :: later) = (.ok text, log)) {callee : Callee}
    {parameters : List Field} (hparameters : h.parameters? callee = some parameters)
    (hwritten : callee.IsWritten earlier h) :
    ∃ w, IsWrapperOf library maxSlots (earlier ++ h :: later) text h callee w ∧
      w.Marshals (enumNames (earlier ++ h :: later)) callee.first parameters := by
  obtain ⟨lines, written, hrun, rfl⟩ := generate_ok hgenerate
  obtain ⟨w, hw, hinfix⟩ := wrapper_moduleLines hrun hparameters hwritten
  exact ⟨w, ⟨hw, lines, written, hrun, rfl, hinfix⟩, marshals_of_wrapper? hparameters hw⟩

end Module

end SdkBindings
