import SdkBindings.Proofs.Run.Parts
import SdkBindings.Run.CommandLine

/-!
# What a failing run leaves alone

A run that does not exit with 0 leaves every module as it was, with one exception: if it gets as far as
writing its own module and the writing fails, a beginning of the text may be left in the file of that
module.  One that fails while the headers are read and transformed leaves the dumps as they were as well
(`run_failing_untouched`).  This is not said of one output directory: the module of any directory and
name is untouched, and so is the dump of any header.  It holds for every host and for every library that
loads files of assignments and only reads files (`Loader.OnlyReads`).

The argument is about endings.  Up to the module a run writes only its log and its dumps, whose names
end otherwise than that of a module, and it makes directories, but only where nothing is
(`Tree.Spares`).  The module comes last: where it is written nothing can fail any more, so that the run
exits with 0, and where the writing fails it concerns the one location that its path leads to.
-/

namespace SdkBindings

open SdkBindings.Tree

variable {α β : Type} {P : Location → Prop}

/-! ## Reading and checking what a run is about -/

/-- A computation that may fail, after another one. -/
theorem Tree.Spares.run_bind {ε : Type} {m : ExceptT ε (StateM Tree) α}
    {k : α → ExceptT ε (StateM Tree) β} (hm : Spares P m.run) (hk : ∀ a, Spares P (k a).run) :
    Spares P (m >>= k).run := by
  rw [ExceptT.run_bind]
  refine hm.bind fun result => ?_
  cases result with
  | ok a => exact hk a
  | error e => exact .pure _

/-- Sorting out paths by looking at them changes no file. -/
theorem spares_filterM {ε : Type} {p : α → ExceptT ε (StateM Tree) Bool}
    (hp : ∀ x, Spares P (p x).run) (xs : List α) : Spares P (xs.filterM p).run := by
  have haux (done : List α) : Spares P (xs.filterAuxM p done).run := by
    induction xs generalizing done with
    | nil => exact .pure _
    | cons x xs ih => exact Spares.run_bind (hp x) fun b => ih _
  exact Spares.run_bind (haux []) fun _ => .pure _

/-- Checking a configuration changes no file. -/
theorem Configuration.spares_check (config : Configuration) :
    Spares P (config.check access).run := by
  have hholds (kind : FileKind) (path : Path) : Spares P (ExceptT.mk
      ((·.mapError Configuration.Error.file) <$> access.holds kind path)).run :=
    (spares_holds kind path).map _
  have hstop (e : Configuration.Error) (k : PUnit → ExceptT Configuration.Error (StateM Tree) String) :
      Spares P (throw e >>= k).run := Spares.pure (Except.error e)
  have hmissing (path : Path) : Spares P (do
      let found ← ExceptT.mk ((·.mapError Configuration.Error.file) <$> access.holds .file path)
      pure !found : ExceptT Configuration.Error (StateM Tree) Bool).run :=
    Spares.run_bind (hholds _ path) fun _ => .pure _
  have hend : Spares P (do
      let missing ← config.headerPaths.filterM fun path => do
        let found ← ExceptT.mk ((·.mapError Configuration.Error.file) <$> access.holds .file path)
        pure !found
      if missing ≠ [] then throw (Configuration.Error.missingHeaders missing)
      ExceptT.mk (pure (checkModuleName config.moduleName)) :
        ExceptT Configuration.Error (StateM Tree) String).run := by
    refine Spares.run_bind (spares_filterM hmissing _) fun missing => ?_
    split
    · exact hstop _ _
    · exact .pure _
  unfold Configuration.check
  refine Spares.run_bind (hholds _ _) fun held => ?_
  dsimp only
  split
  · exact hstop _ _
  split
  · exact hstop _ _
  · exact hend

/-! ## Endings of files -/

theorem isEnding_py : IsEnding ".py" := ⟨by decide, by decide, by decide⟩

theorem isEnding_json : IsEnding ".json" := ⟨by decide, by decide, by decide⟩

theorem isEnding_log : IsEnding ".log" := ⟨by decide, by decide, by decide⟩

/-- The path of a log leads to a location whose name ends as that of a log. -/
theorem endsIn_log {t : Tree} {directory : Path} {moment : String} {location : Location}
    (h : t.locate (directory.child (Console.fileName moment)) = .ok location) :
    EndsIn ".log" location :=
  endsIn_of_locate_child isEnding_log h

/-- The file of an open log is named for the moment. -/
theorem Console.file_openLog {directory : Path} {moment : String} {verbose : Bool} {t : Tree}
    {console : Console} (h : (Console.openLog access directory moment verbose t).1 = .ok console) :
    console.file = directory.child (fileName moment) := by
  unfold Console.openLog at h
  rw [bind_apply] at h
  rcases hmade : access.ensureDirectories directory t with ⟨e | _, t'⟩ <;> rw [hmade] at h
  · cases h
  dsimp only at h
  rw [bind_apply] at h
  rcases hopened : access.append (directory.child (fileName moment)) [] t' with ⟨fault | _, t''⟩ <;>
    rw [hopened] at h <;> cases h
  rfl

/-- Opening a log spares everything but files of logs. -/
theorem Console.spares_openLog (hlog : ∀ location, EndsIn ".log" location → ¬ P location)
    (directory : Path) (moment : String) (verbose : Bool) :
    Spares P (Console.openLog access directory moment verbose) := by
  refine (spares_ensureDirectories directory).bind fun made => ?_
  split
  · exact .pure _
  · refine (spares_append [] fun t location hlocate => ?_).bind fun opened => ?_
    · exact hlog location (endsIn_log hlocate)
    · split <;> exact .pure _

namespace Run

namespace Job

/-! ## The parts of a generation -/

theorem looks_parse (reader : Grammar.Session → Except Grammar.Failure Header × Grammar.Session) :
    Looks (parse reader : Action (StateM Tree) Header) := by
  refine looks_get.bind fun j => ?_
  rcases reader ⟨j.symbols, []⟩ with ⟨result, session⟩
  refine Looks.bind (fun _ _ => rfl) fun _ => ?_
  cases result with
  | ok header => exact .pure header
  | error e => exact .throw _

theorem looks_transform (job : Job) (header : Header) :
    Looks (job.transform header : Action (StateM Tree) Header) := by
  refine (looks_report _).bind fun _ => ?_
  split
  · exact .pure _
  · exact .throw _

theorem looks_process (job : Job) (name : String) {parsing : Action (StateM Tree) Header}
    (h : Looks parsing) : Looks (job.process name parsing) :=
  (h.stage.bind fun _ => (looks_transform job _).stage.bind fun _ =>
    (looks_advance _).bind fun _ => .pure _).file

theorem keeps_openOutput (job : Job) : Keeps P (job.openOutput access) := by
  unfold openOutput
  split
  · exact (Looks.throw _).keeps
  · exact (keeps_attempt (spares_ensureDirectories _)).bind fun _ => (Looks.pure _).keeps

theorem looks_emit (job : Job) (project : Project) :
    Looks (job.emit project : Action (StateM Tree) String) := by
  refine Looks.stage ?_
  refine (looks_report _).bind fun _ => ?_
  split
  · exact .pure _
  · exact .throw _

/-- An emitted module is the text that is generated. -/
theorem yields_emit (job : Job) (project : Project) :
    Yields (fun text => (Module.generate job.config.library job.settings.maxCallSlots project).1 =
      .ok text) (job.emit project : Action (StateM Tree) String) := by
  refine Yields.stage ?_
  rcases Module.generate job.config.library job.settings.maxCallSlots project with ⟨result, log⟩
  refine (Yields.any _).bind fun _ _ => ?_
  cases result with
  | ok text => exact .pure rfl
  | error e => exact .throw _

/-- The output directory of a run is the configured one. -/
theorem yields_openOutput (job : Job) :
    Yields (fun output => job.config.outputDirectory = some output) (job.openOutput access) := by
  unfold openOutput
  cases job.config.outputDirectory with
  | none => exact .throw _
  | some output => exact (Yields.any _).bind fun _ _ => .pure rfl

/-- A module is emitted if it can be generated. -/
theorem on_emit {job : Job} {project : Project} {text : String} (j : Journal) (t : Tree)
    (h : (Module.generate job.config.library job.settings.maxCallSlots project).1 = .ok text) :
    ∃ j', Action.on (job.emit project) j t = ((.ok text, j'), t) := by
  rcases hgenerate : Module.generate job.config.library job.settings.maxCallSlots project with
    ⟨result, log⟩
  rw [hgenerate] at h
  obtain rfl : result = .ok text := h
  have hinside : Action.on (report log >>= fun _ => Pure.pure text)
      ⟨j.log ++ (j.progress.enterStage "emit").2.1, (j.progress.enterStage "emit").2.2, j.symbols⟩ t =
        ((.ok text, ⟨j.log ++ (j.progress.enterStage "emit").2.1 ++ log,
          (j.progress.enterStage "emit").2.2, j.symbols⟩), t) := rfl
  unfold emit
  rw [hgenerate]
  exact on_stage hinside (by simp [Progress.enterStage])

/-- A module that is not written: its text is known, and a beginning of it is in the file that the path
of the module leads to. -/
structure IsBegun (job : Job) (project : Project) (output : Path) (text : String) (location : Location)
    (n : Nat) (t : Tree) : Prop where
  /-- The output directory is the configured one. -/
  configured : job.config.outputDirectory = some output
  /-- The text is that of the module. -/
  emitted : (Module.generate job.config.library job.settings.maxCallSlots project).1 = .ok text
  /-- The path of the module leads to the file. -/
  leads : t.locate (job.modulePath output) = .ok location
  /-- The file has that much of the text. -/
  file : t.node? location = some (.file ((Text.bytes text).take n))

/-- A run that fails with a project at hand leaves the locations untouched, but for a module that is not
written. -/
def LeavesBut (P : Location → Prop) (job : Job) (project : Project) (e : Failure) (t t' : Tree) :
    Prop :=
  (∀ location, P location → Untouched location t t') ∨
    ∃ output text fault location n, job.IsBegun project output text location n t' ∧
      e = .unwritten (job.modulePath output) fault ∧ (∀ f, fault ≠ .creation f) ∧
      ∀ other, other ≠ location → P other → Untouched other t t'

/-- What comes first and leaves the locations untouched in any case makes no difference. -/
theorem LeavesBut.after {job : Job} {project : Project} {e : Failure} {t t' t'' : Tree}
    (h : LeavesBut P job project e t' t'') (hfirst : ∀ location, P location → Untouched location t t') :
    LeavesBut P job project e t t'' := by
  obtain huntouched | ⟨output, text, fault, location, n, hbegun, rfl, hfault, hothers⟩ := h
  · exact .inl fun location hlocation =>
      (hfirst location hlocation).trans (huntouched location hlocation)
  · exact .inr ⟨output, text, fault, location, n, hbegun, rfl, hfault, fun other hne hother =>
      (hfirst other hother).trans (hothers other hne hother)⟩

variable [Host]

theorem looks_parseFile (job : Job) (path : Path) : Looks (job.parseFile access path) :=
  ((looks_attemptAt fun _ => rfl).bind fun _ => looks_parse _).timed

theorem looks_processAll (job : Job) (total done : Nat) (paths : List Path) :
    Looks (job.processAll access total done paths) := by
  induction paths generalizing done with
  | nil => exact .pure _
  | cons path rest ih =>
    exact (looks_report _).bind fun _ => (looks_process job _ (looks_parseFile job path)).bind
      fun _ => (ih _).bind fun _ => .pure _

/-- Reading and transforming headers changes no file. -/
theorem looks_buildProject (job : Job) : Looks (job.buildProject access) :=
  ((looks_process job _ (looks_parse _)).bind fun _ =>
    (looks_processAll job _ _ _).bind fun _ => .pure _).timed

/-- Writing a dump leaves alone what its path does not lead to. -/
theorem keeps_writeDump {job : Job} {output : Path} {header : Header}
    (h : ∀ (t : Tree) location, t.locate (job.dumpPath output header.file) = .ok location →
      ¬ P location) : Keeps P (job.writeDump access output header) :=
  (keeps_attempt (spares_ensureDirectories _)).bind fun _ =>
    (keeps_attemptWith (spares_writeText _ h)).bind fun _ => (looks_report _).keeps

/-- Writing several dumps leaves alone what each of them does. -/
theorem keeps_forM_writeDump {job : Job} {output : Path} {headers : List Header}
    (h : ∀ header ∈ headers, Keeps P (job.writeDump access output header)) :
    Keeps P (headers.forM (job.writeDump access output)) := by
  induction headers with
  | nil => exact (Looks.pure _).keeps
  | cons header rest ih =>
    exact (h header List.mem_cons_self).bind fun _ =>
      ih fun other hother => h other (List.mem_cons_of_mem header hother)

/-- Dumps are written to files of dumps. -/
theorem keeps_writeDumps (hdump : ∀ location, EndsIn ".json" location → ¬ P location) (job : Job)
    (output : Path) (project : Project) : Keeps P (job.writeDumps access output project) := by
  have hall : Keeps P (project.forM (job.writeDump access output)) :=
    keeps_forM_writeDump fun header _ => keeps_writeDump fun t location hlocate =>
      hdump location (endsIn_of_locate_child isEnding_json hlocate)
  exact (hall.bind fun _ => (looks_report _).keeps).stage

/-- The module comes last: where writing it succeeds nothing fails behind it. -/
theorem leavesBut_emission {job : Job} {project : Project} {output : Path} {dumps : Option Path}
    {e : Failure} {j j' : Journal} {t t' : Tree} (houtput : job.config.outputDirectory = some output)
    (h : Action.on (do
      let text ← job.emit project
      let path := job.modulePath output
      write access path text
      report [info ("Wrote bindings module " ++ path.render)]
      let j ← getThe Journal
      report [j.progress.summary]
      pure (⟨project, path, dumps⟩ : Product)) j t = ((.error e, j'), t')) :
    LeavesBut P job project e t t' := by
  obtain hfailed | ⟨text, j₁, t₁, hemitted, hwriting⟩ := on_bind_error h
  · obtain rfl := (looks_emit job project).tree_eq hfailed
    exact .inl fun location _ => .refl location _
  have htext := yields_emit job project _ _ _ _ _ hemitted
  obtain rfl := (looks_emit job project).tree_eq hemitted
  obtain hfailed | ⟨_, j₂, t₂, _, hending⟩ := on_bind_error hwriting
  · obtain ⟨fault, rfl, huntouched | ⟨hfault, location, n, hholds⟩⟩ := on_write_error hfailed
    · exact .inl fun location _ => huntouched location
    · exact .inr ⟨output, text, fault, location, n, ⟨houtput, htext, hholds.leads, hholds.file⟩, rfl,
        hfault, fun other hne _ => hholds.others other hne⟩
  · cases hending

/-- What a run carries along when it starts to read headers. -/
def readingStart : Journal :=
  { Journal.start with log := Journal.start.log ++ [starting "BindgenGenerator.generate"] }

/-- A generation that fails leaves the locations untouched, but for a module that it does not write. -/
theorem generate_error (hdump : ∀ location, EndsIn ".json" location → ¬ P location) {job : Job}
    {e : Failure} {j' : Journal} {t t' : Tree}
    (h : Action.on (job.generate access) .start t = ((.error e, j'), t')) :
    (∀ location, P location → Untouched location t t') ∨
      ∃ project j t₁, Action.on (job.buildProject access) readingStart t = ((.ok project, j), t₁) ∧
        LeavesBut P job project e t t' := by
  obtain ⟨j₀, hinside⟩ := exists_of_on_timed h
  obtain hfailed | ⟨_, _, _, hstart, hreading⟩ := on_bind_error hinside
  · cases hfailed
  cases hstart
  obtain hfailed | ⟨project, j₁, t₁, hread, hrest⟩ := on_bind_error hreading
  · obtain rfl := (looks_buildProject job).tree_eq hfailed
    exact .inl fun location _ => .refl location _
  refine .inr ⟨project, j₁, t₁, hread, ?_⟩
  obtain rfl := (looks_buildProject job).tree_eq hread
  have hopening := keeps_openOutput (P := P) job j₁ t₁
  obtain hfailed | ⟨output, j₂, t₂, hopened, hrest⟩ := on_bind_error hrest
  · rw [hfailed] at hopening
    exact .inl hopening
  rw [hopened] at hopening
  have houtput := yields_openOutput job _ _ _ _ _ hopened
  refine LeavesBut.after ?_ hopening
  by_cases hdumps : job.config.dumps = true
  · simp only [if_pos hdumps] at hrest
    have hdumping := keeps_writeDumps hdump job output project j₂ t₂
    obtain hfailed | ⟨_, j₃, t₃, hdumped, hemission⟩ := on_bind_error hrest
    · rw [hfailed] at hdumping
      exact .inl hdumping
    · rw [hdumped] at hdumping
      exact (leavesBut_emission houtput hemission).after hdumping
  · simp only [if_neg hdumps] at hrest
    exact leavesBut_emission houtput hrest

/-- A generation without dumps fails if its module can be emitted and not be written. -/
theorem on_generate_of_writeText {job : Job} {project : Project} {output : Path} {text : String}
    {fault : WriteFault} {j : Journal} {t t' t'' : Tree} (hdumps : job.config.dumps = false)
    (hread : Action.on (job.buildProject access) readingStart t = ((.ok project, j), t))
    (houtput : job.config.outputDirectory = some output)
    (hopen : access.ensureDirectories output t = (.ok (), t'))
    (htext : (Module.generate job.config.library job.settings.maxCallSlots project).1 = .ok text)
    (hwrite : access.writeText (job.modulePath output) text t' = (.error fault, t'')) :
    ∃ j', Action.on (job.generate access) .start t =
      ((.error (.unwritten (job.modulePath output) fault), j'), t'') := by
  have hmade := on_attemptWith .file j hopen
  have hopened : Action.on (job.openOutput access) j t = ((.ok output, j), t') := by
    unfold openOutput
    rw [houtput]
    dsimp only
    rw [attempt, on_bind_of_ok hmade]
    rfl
  obtain ⟨j', hemitted⟩ := on_emit j t' htext
  have hwritten := on_attemptWith (.unwritten (job.modulePath output)) j' hwrite
  have hstart : Action.on (advance fun _ => .start : Action (StateM Tree) Unit)
      { Journal.start with log := Journal.start.log ++ [starting "BindgenGenerator.generate"] } t =
    ((.ok (), readingStart), t) := rfl
  unfold generate
  refine on_timed (?_ : _ = ((_, j'), _))
  rw [on_bind_of_ok hstart, on_bind_of_ok hread, on_bind_of_ok hopened]
  simp only [hdumps, Bool.false_eq_true, if_false]
  rw [on_bind_of_ok hemitted]
  exact on_bind_of_error hwritten

end Job

end Run

/-- The declarations of the platform are the header of their text. -/
theorem Grammar.readPlatform_eq (strict : Bool) :
    readPlatform strict = (header strict platformFile platformSource).run :=
  funext fun _ => rfl

/-- The text of a module is not empty. -/
theorem Module.ne_empty_of_generate {library text : String} {slots : Int} {project : Project}
    (h : (generate library slots project).1 = .ok text) : text ≠ "" := by
  unfold generate at h
  dsimp only at h
  split at h <;> cases h
  simp [renderLines]

namespace CommandLine

/-! ## The command line -/

/-- The library that loads files of assignments changes no file. -/
def Loader.OnlyReads (load : Loader (StateM Tree)) : Prop :=
  ∀ path environment t, (load path environment t).2 = t

/-- Completing an environment changes no file. -/
theorem spares_completed {load : Loader (StateM Tree)} (hload : load.OnlyReads)
    (environment : Environment) : Spares P (completed access load environment) := by
  refine (spares_find _).bind fun found => ?_
  split
  · exact .pure _
  · exact .pure _
  · intro t location _
    rw [hload]
    exact .refl location t

/-- The run gets as far as reading headers: its arguments ask for a generation, the assignments are
loaded, the configuration is accepted and the log is open. -/
structure Begins (load : Loader (StateM Tree)) (environment : Environment) (moment : String)
    (arguments : List String) (t : Tree) (choices : Choices) (loaded : Environment) (job : Run.Job)
    (console : Console) (t' : Tree) : Prop where
  /-- The arguments ask for a generation. -/
  arguments : Arguments.read arguments = .ok (.generate choices)
  /-- The assignments are loaded. -/
  loading : (completed access load environment t).1.2 = .ok loaded
  /-- What the run is about follows from the environment and the choices. -/
  config : job.config = (Configuration.ofEnvironment loaded).choose choices
  /-- So do its settings. -/
  settings : job.settings = .ofEnvironment loaded
  /-- The configuration is accepted. -/
  checking : ((job.config.check access).run (completed access load environment t).2).1 =
    .ok job.moduleName
  /-- The log is open. -/
  opening : Console.openLog access Configuration.logDirectory moment job.config.verbose
    ((job.config.check access).run (completed access load environment t).2).2 = (.ok console, t')

section

variable {load : Loader (StateM Tree)} {environment : Environment} {moment : String}
  {arguments : List String} {t t' : Tree} {choices : Choices} {loaded : Environment} {job : Run.Job}
  {console : Console}

/-- A run gets as far as reading headers in one way. -/
theorem Begins.unique {choices' : Choices} {loaded' : Environment} {job' : Run.Job}
    {console' : Console} {t'' : Tree}
    (h : Begins load environment moment arguments t choices loaded job console t')
    (h' : Begins load environment moment arguments t choices' loaded' job' console' t'') :
    job' = job ∧ t'' = t' := by
  obtain ⟨config, moduleName, settings⟩ := job
  obtain ⟨config', moduleName', settings'⟩ := job'
  obtain ⟨harguments, hloading, rfl, rfl, hchecking, hopening⟩ := h
  obtain ⟨harguments', hloading', rfl, rfl, hchecking', hopening'⟩ := h'
  cases harguments.symm.trans harguments'
  cases hloading.symm.trans hloading'
  cases hchecking.symm.trans hchecking'
  cases hopening.symm.trans hopening'
  exact ⟨rfl, rfl⟩

/-- Up to the headers a run spares everything but files of logs. -/
theorem Begins.untouched
    (h : Begins load environment moment arguments t choices loaded job console t')
    (hload : load.OnlyReads) (hlog : ∀ location, EndsIn ".log" location → ¬ P location)
    {location : Location} (hlocation : P location) : Untouched location t t' := by
  have hopening := Console.spares_openLog hlog Configuration.logDirectory moment job.config.verbose
    ((job.config.check access).run (completed access load environment t).2).2 location hlocation
  rw [h.opening] at hopening
  exact (spares_completed hload environment t location hlocation).trans
    ((Configuration.spares_check job.config _ location hlocation).trans hopening)

variable [Host]

/-- A run with an open log ends as its generation does, and keeps its log. -/
theorem generate_on {job : Run.Job} (console : Console) {t t' : Tree} {j : Run.Journal}
    {result : Except Run.Failure Run.Product}
    (h : Run.Action.on (job.generate access) .start t = ((result, j), t')) :
    ∃ log, generate access job console t =
      (((conclude result).1, log), (console.keep access log t').2) := by
  refine ⟨console.greeting ++ openingEntries job ++ j.log ++ (conclude result).2, ?_⟩
  unfold generate
  rw [bind_apply]
  have hrun : (job.generate access).run .start t = ((result, j), t') := h
  rw [hrun]
  rfl

/-- A run whose configuration is accepted and whose log is open is a generation. -/
theorem execute_eq (loaded : Environment) {config : Configuration} {moduleName : String} {t₁ : Tree}
    (hchecking : ((config.check access).run t₁).1 = .ok moduleName)
    (hopening : Console.openLog access Configuration.logDirectory moment config.verbose
      ((config.check access).run t₁).2 = (.ok console, t')) :
    ∃ output, execute access loaded moment config t₁ =
      (⟨(generate access ⟨config, moduleName, .ofEnvironment loaded⟩ console t').1.1, output, []⟩,
        (generate access ⟨config, moduleName, .ofEnvironment loaded⟩ console t').2) := by
  unfold execute
  rw [bind_apply, hchecking]
  dsimp only
  rw [bind_apply, hopening]
  dsimp only
  rw [bind_apply]
  rcases generate access _ console t' with ⟨⟨ending, log⟩, t''⟩
  exact ⟨_, rfl⟩

/-- A run whose arguments ask for a generation and whose assignments are loaded is a run with the
configuration that follows. -/
theorem run_eq_execute {notices : List String} {t₁ : Tree}
    (harguments : Arguments.read arguments = .ok (.generate choices))
    (hload : completed access load environment t = ((notices, .ok loaded), t₁)) {report : Report}
    (hexecute : execute access loaded moment ((Configuration.ofEnvironment loaded).choose choices)
      t₁ = (report, t')) :
    run access load environment moment arguments t = (report.after notices, t') := by
  unfold run
  rw [harguments]
  dsimp only
  rw [bind_apply, hload]
  dsimp only
  rw [bind_apply, hexecute]
  rfl

/-- From there on a run is a generation with an open log. -/
theorem Begins.run_eq
    (h : Begins load environment moment arguments t choices loaded job console t') :
    ∃ output errors, run access load environment moment arguments t =
      (⟨(generate access job console t').1.1, output, errors⟩, (generate access job console t').2) := by
  obtain ⟨config, moduleName, settings⟩ := job
  obtain ⟨harguments, hloading, rfl, rfl, hchecking, hopening⟩ := h
  rcases hload : completed access load environment t with ⟨⟨notices, result⟩, t₁⟩
  rw [hload] at hloading hchecking hopening
  dsimp only at hloading hchecking hopening
  subst hloading
  obtain ⟨output, hexecute⟩ := execute_eq loaded hchecking hopening
  -- what the generation comes to plays no part in what follows
  generalize generate access _ console t' = generation at hexecute ⊢
  obtain ⟨⟨ending, log⟩, t''⟩ := generation
  exact ⟨_, _, run_eq_execute harguments hload hexecute⟩

/-- A run with a configuration that does not get as far as reading headers spares everything but files
of logs. -/
theorem execute_untouched_or (hlog : ∀ location, EndsIn ".log" location → ¬ P location)
    (loaded : Environment) (moment : String) (config : Configuration) (t : Tree) :
    (∀ location, P location → Untouched location t (execute access loaded moment config t).2) ∨
      ∃ moduleName console t', ((config.check access).run t).1 = .ok moduleName ∧
        Console.openLog access Configuration.logDirectory moment config.verbose
          ((config.check access).run t).2 = (.ok console, t') := by
  have hchecking := Configuration.spares_check (P := P) config t
  rcases hchecked : (config.check access).run t with ⟨e | moduleName, t₁⟩ <;>
    rw [hchecked] at hchecking
  · left
    have hexecute : execute access loaded moment config t = (refuse e, t₁) := by
      unfold execute
      rw [bind_apply, hchecked]
      rfl
    rwa [hexecute]
  have hopening := Console.spares_openLog hlog Configuration.logDirectory moment config.verbose t₁
  rcases hopened : Console.openLog access Configuration.logDirectory moment config.verbose t₁ with
    ⟨e | console, t₂⟩ <;> rw [hopened] at hopening
  · left
    have hexecute : execute access loaded moment config t = (escape (.file e), t₂) := by
      unfold execute
      rw [bind_apply, hchecked]
      dsimp only
      rw [bind_apply, hopened]
      rfl
    rw [hexecute]
    exact fun location h => (hchecking location h).trans (hopening location h)
  · exact .inr ⟨moduleName, console, t₂, rfl, rfl⟩

/-- A run that does not get as far as reading headers spares everything but files of logs. -/
theorem untouched_or_begins (hload : load.OnlyReads)
    (hlog : ∀ location, EndsIn ".log" location → ¬ P location) (environment : Environment)
    (moment : String) (arguments : List String) (t : Tree) :
    (∀ location, P location →
        Untouched location t (run access load environment moment arguments t).2) ∨
      ∃ choices loaded job console t',
        Begins load environment moment arguments t choices loaded job console t' := by
  have hcompleting := spares_completed (P := P) hload environment t
  rcases hcompleted : completed access load environment t with ⟨⟨notices, e | loaded⟩, t₁⟩ <;>
    rw [hcompleted] at hcompleting
  all_goals rcases harguments : Arguments.read arguments with e' | _ | choices
  all_goals try
    left
    unfold run
    rw [harguments]
    exact fun location _ => .refl location t
  · left
    have hrun : run access load environment moment arguments t =
        ((refuseAssignments e).after notices, t₁) := by
      unfold run
      rw [harguments]
      dsimp only
      rw [bind_apply, hcompleted]
      rfl
    rwa [hrun]
  · obtain huntouched | ⟨moduleName, console, t₂, hchecking, hopening⟩ := execute_untouched_or hlog
      loaded moment ((Configuration.ofEnvironment loaded).choose choices) t₁
    · left
      rw [run_eq_execute harguments hcompleted rfl]
      exact fun location h => (hcompleting location h).trans (huntouched location h)
    · refine .inr ⟨choices, loaded, ⟨_, moduleName, .ofEnvironment loaded⟩, console, t₂, harguments, ?_,
        rfl, rfl, ?_, ?_⟩
      all_goals rw [hcompleted]
      · exact hchecking
      · exact hopening

/-- Keeping entries spares everything but files of logs. -/
theorem spares_keep (hlog : ∀ location, EndsIn ".log" location → ¬ P location) {directory : Path}
    (hfile : console.file = directory.child (Console.fileName moment)) (log : Log) :
    Spares P (console.keep access log) := by
  refine spares_append _ fun t location hlocate => ?_
  rw [hfile] at hlocate
  exact hlog location (endsIn_log hlocate)

/-- A generation that fails while the headers are read fails as they do, with the files as they are
then. -/
theorem generate_of_buildProject {f : Run.Failure} {j : Run.Journal} {t₁ t₂ : Tree}
    (h : Run.Action.on (job.buildProject access) Run.Job.readingStart t₁ = ((.error f, j), t₂)) :
    ∃ j', Run.Action.on (job.generate access) .start t₁ = ((.error f, j'), t₂) := by
  have hinside (k : Project → Run.Action (StateM Tree) Run.Product) :
      Run.Action.on (do
        Run.advance fun _ => .start
        let project ← job.buildProject access
        k project) Run.Job.readingStart t₁ = ((.error f, j), t₂) := by
    rw [Run.on_bind]
    show Run.Action.on (job.buildProject access >>= k) Run.Job.readingStart t₁ = _
    rw [Run.on_bind, h]
  exact Run.on_timed (hinside _)

end

/-- **What a failing run leaves alone.**  A run that does not exit with 0 leaves the module of every
output directory and name as it was, unless it gets through its headers, emits its module and fails to
write the text: then a beginning of it may be in the file of that module.  If the run fails while headers
are read and transformed, it ends with that failure and leaves the dump of every header as it was as
well. -/
theorem run_failing_untouched [Host] {load : Loader (StateM Tree)} (hload : load.OnlyReads)
    {environment : Environment} {moment : String} {arguments : List String} {t t' : Tree}
    {report : Report} (h : run access load environment moment arguments t = (report, t')) :
    (report.ending ≠ .exit 0 →
      ∀ (output : Path) (moduleName : String) (location : Location),
        (t.locate (output.child (FileName.moduleFile moduleName)) = .ok location ∨
          t'.locate (output.child (FileName.moduleFile moduleName)) = .ok location) →
        Untouched location t t' ∨
          ∃ choices loaded job console t₁ project j t₂ directory text fault n,
            Begins load environment moment arguments t choices loaded job console t₁ ∧
            Run.Action.on (job.buildProject access) Run.Job.readingStart t₁ = ((.ok project, j), t₂) ∧
            job.IsBegun project directory text location n t' ∧
            (∀ f, fault ≠ .creation f) ∧
            report.ending = (conclude (.error (.unwritten (job.modulePath directory) fault))).1) ∧
    ∀ choices loaded job console t₁ f j t₂,
      Begins load environment moment arguments t choices loaded job console t₁ →
      Run.Action.on (job.buildProject access) Run.Job.readingStart t₁ = ((.error f, j), t₂) →
      report.ending = (conclude (.error f)).1 ∧
        ∀ (directory : Path) (header : String) (location : Location),
          (t.locate (directory.child (FileName.dump header)) = .ok location ∨
            t'.locate (directory.child (FileName.dump header)) = .ok location) →
          Untouched location t t' := by
  constructor
  · intro hending output moduleName location hleads
    have hlog : ∀ location, EndsIn ".log" location → ¬ EndsIn ".py" location :=
      fun _ hends => not_endsIn hends isEnding_log isEnding_py (by decide)
    have hdump : ∀ location, EndsIn ".json" location → ¬ EndsIn ".py" location :=
      fun _ hends => not_endsIn hends isEnding_json isEnding_py (by decide)
    have hlocation : EndsIn ".py" location :=
      hleads.elim (endsIn_of_locate_child isEnding_py) (endsIn_of_locate_child isEnding_py)
    obtain huntouched | ⟨choices, loaded, job, console, t₁, hbegins⟩ :=
      untouched_or_begins hload hlog environment moment arguments t
    · rw [h] at huntouched
      exact .inl (huntouched location hlocation)
    have hfirst := hbegins.untouched hload hlog hlocation
    obtain ⟨_, _, hreport⟩ := hbegins.run_eq
    rcases hgenerate : Run.Action.on (job.generate access) .start t₁ with ⟨⟨e | product, j⟩, t₂⟩ <;>
      obtain ⟨log, hrun⟩ := generate_on console hgenerate <;> rw [hrun, h] at hreport <;>
      cases hreport
    · have hlast := spares_keep hlog (Console.file_openLog (by rw [hbegins.opening])) log t₂
        location hlocation
      obtain hspared | ⟨project, j', t₃, hread, hspared | ⟨directory, text, fault, spoiled, n, hbegun,
        rfl, hfault, hothers⟩⟩ := Run.Job.generate_error hdump hgenerate
      · exact .inl (hfirst.trans ((hspared location hlocation).trans hlast))
      · exact .inl (hfirst.trans ((hspared location hlocation).trans hlast))
      by_cases hspoiled : location = spoiled
      · subst hspoiled
        have hkept : job.IsBegun project directory text location n
            (console.keep access log t₂).2 :=
          ⟨hbegun.configured, hbegun.emitted, locate_append _ hbegun.leads,
            hlast.kept _ hbegun.file⟩
        exact .inr ⟨choices, loaded, job, console, t₁, project, j', t₃, directory, text, fault, n,
          hbegins, hread, hkept, hfault, rfl⟩
      · exact .inl (hfirst.trans ((hothers location hspoiled hlocation).trans hlast))
    · exact absurd rfl hending
  · intro choices loaded job console t₁ f j t₂ hbegins hbuild
    obtain ⟨j', hgenerate⟩ := generate_of_buildProject hbuild
    obtain ⟨log, hrun⟩ := generate_on console hgenerate
    obtain ⟨output, errors, hreport⟩ := hbegins.run_eq
    rw [hrun, h] at hreport
    cases hreport
    refine ⟨rfl, fun directory header location hleads => ?_⟩
    have hlog : ∀ location, EndsIn ".log" location → ¬ EndsIn ".json" location :=
      fun _ hends => not_endsIn hends isEnding_log isEnding_json (by decide)
    have hlocation : EndsIn ".json" location :=
      hleads.elim (endsIn_of_locate_child isEnding_json) (endsIn_of_locate_child isEnding_json)
    have hkeeping := spares_keep hlog (Console.file_openLog (by rw [hbegins.opening])) log t₂
      location hlocation
    obtain rfl := (Run.Job.looks_buildProject job).tree_eq hbuild
    exact (hbegins.untouched hload hlog hlocation).trans hkeeping

/-- A working directory with a header that ends too early, and with the module and the dump of an
earlier run. -/
def failingTree : Tree where
  home := ["home"]
  nodes := [(["home"], .directory), (["inc", "home"], .directory),
    (["a.h", "inc", "home"], .file (Text.bytes "typedef enum E \x7b A = 1")),
    (["dist", "home"], .directory), (["d3d11.py", "dist", "home"], .file (Text.bytes "old\n")),
    (["data", "dist", "home"], .directory),
    (["a.json", "data", "dist", "home"], .file (Text.bytes "old\n"))]

/-- A library that adds nothing, as for a file without assignments. -/
def addsNothing : Loader (StateM Tree) := fun _ environment => pure ([], .ok environment)

theorem onlyReads_addsNothing : addsNothing.OnlyReads := fun _ _ _ => rfl

/-- The header is chosen on the command line. -/
def failingChoices : Choices :=
  { includeDirectory := some (.ofString "inc"), headers := some ["a.h"] }

/-- What a run for the header is about. -/
def failingJob : Run.Job :=
  ⟨(Configuration.ofEnvironment []).choose failingChoices, "d3d11", .ofEnvironment []⟩

/-- The files when the header is read. -/
def failingFiles : Tree :=
  (Console.openLog access Configuration.logDirectory "now" failingJob.config.verbose
    ((failingJob.config.check access).run (completed access addsNothing [] failingTree).2).2).2

/-- The run for the header gets as far as reading it. -/
theorem begins_failing : Begins addsNothing [] "now" ["inc", "--headers", "a.h"] failingTree
    failingChoices [] failingJob ⟨.ofString "logs/com_header_bindgen_now.log", false⟩
    failingFiles := by
  have harguments : (Arguments.read ["inc", "--headers", "a.h"]).toOption =
      some (.generate failingChoices) := by
    decide +kernel
  have hloading : (completed access addsNothing [] failingTree).1.2.toOption = some [] := by
    decide +kernel
  have hchecking : ((failingJob.config.check access).run
      (completed access addsNothing [] failingTree).2).1.toOption = some failingJob.moduleName := by
    decide +kernel
  have hopening : (Console.openLog access Configuration.logDirectory "now" failingJob.config.verbose
      ((failingJob.config.check access).run
        (completed access addsNothing [] failingTree).2).2).1.toOption =
          some ⟨.ofString "logs/com_header_bindgen_now.log", false⟩ := by
    decide +kernel
  exact ⟨eq_ok_of_toOption harguments, eq_ok_of_toOption hloading, rfl, rfl,
    eq_ok_of_toOption hchecking, Prod.ext (eq_ok_of_toOption hopening) rfl⟩

/-- Reading the header fails. -/
theorem buildProject_failing : ∃ f j t₂,
    Run.Action.on (failingJob.buildProject access) Run.Job.readingStart failingFiles =
      ((.error f, j), t₂) := by
  have hnone : (Run.Action.on (failingJob.buildProject access) Run.Job.readingStart
      failingFiles).1.1.toOption.isNone = true := by
    -- evaluated from the lines of the platform, so that their text is not put together first
    rw [Run.Job.buildProject, Grammar.readPlatform_eq, Grammar.header, Lexer.lex, Grammar.platformSource,
      String.toList_intercalate]
    decide +kernel
  generalize Run.Action.on (failingJob.buildProject access) Run.Job.readingStart failingFiles = outcome
    at hnone ⊢
  obtain ⟨⟨result, j⟩, t₂⟩ := outcome
  obtain ⟨f, rfl⟩ := exists_error_of_toOption hnone
  exact ⟨f, j, t₂, rfl⟩

/-- The module and the dump of the earlier run are untouched by the run for the header. -/
theorem run_failing_untouched_failing : addsNothing.OnlyReads ∧ ∃ report t',
    run access addsNothing [] "now" ["inc", "--headers", "a.h"] failingTree = (report, t') ∧
      report.ending ≠ .exit 0 ∧
      Untouched ["d3d11.py", "dist", "home"] failingTree t' ∧
      Untouched ["a.json", "data", "dist", "home"] failingTree t' := by
  obtain ⟨f, j, t₂, hbuild⟩ := buildProject_failing
  rcases hrun : run access addsNothing [] "now" ["inc", "--headers", "a.h"] failingTree with
    ⟨report, t'⟩
  obtain ⟨hmodule, hdumps⟩ := run_failing_untouched onlyReads_addsNothing hrun
  obtain ⟨hreport, hdump⟩ := hdumps _ _ _ _ _ f j t₂ begins_failing hbuild
  have hending : report.ending ≠ .exit 0 := by
    rw [hreport, conclude]
    split <;> simp
  have hmodulePath : (failingTree.locate ((Path.ofString "dist").child
      (FileName.moduleFile "d3d11"))).toOption = some ["d3d11.py", "dist", "home"] := by
    decide +kernel
  have hdumpPath : (failingTree.locate ((Path.ofString "dist/data").child
      (FileName.dump "a.h"))).toOption = some ["a.json", "data", "dist", "home"] := by
    decide +kernel
  refine ⟨onlyReads_addsNothing, report, t', rfl, hending, ?_,
    hdump _ _ _ (.inl (eq_ok_of_toOption hdumpPath))⟩
  obtain huntouched | ⟨_, _, _, _, _, _, _, _, _, _, _, _, hbegins, hread, _⟩ :=
    hmodule hending _ _ _ (.inl (eq_ok_of_toOption hmodulePath))
  · exact huntouched
  · -- the run does not get through its headers
    obtain ⟨rfl, rfl⟩ := begins_failing.unique hbegins
    rw [hbuild] at hread
    cases hread

/-- A working directory with an empty header and with the module of an earlier run, whose file has no
room. -/
def fullTree : Tree where
  home := ["home"]
  nodes := [(["home"], .directory), (["inc", "home"], .directory),
    (["a.h", "inc", "home"], .file []), (["dist", "home"], .directory),
    (["d3d11.py", "dist", "home"], .file (Text.bytes "old\n"))]
  capacity location := if location = ["d3d11.py", "dist", "home"] then some 0 else none

/-- The header is chosen on the command line, and no dumps are wanted. -/
def fullChoices : Choices :=
  { includeDirectory := some (.ofString "inc"), headers := some ["a.h"], dumps := some false }

/-- What a run for the header is about. -/
def fullJob : Run.Job :=
  ⟨(Configuration.ofEnvironment []).choose fullChoices, "d3d11", .ofEnvironment []⟩

/-- The files when the header is read. -/
def fullFiles : Tree :=
  (Console.openLog access Configuration.logDirectory "now" fullJob.config.verbose
    ((fullJob.config.check access).run (completed access addsNothing [] fullTree).2).2).2

/-- The files when the module is written. -/
def fullOutput : Tree := (access.ensureDirectories (.ofString "dist") fullFiles).2

/-- The run for the empty header gets as far as reading it. -/
theorem begins_full : Begins addsNothing [] "now" ["inc", "--headers", "a.h", "--no-dump"] fullTree
    fullChoices [] fullJob ⟨.ofString "logs/com_header_bindgen_now.log", false⟩ fullFiles := by
  have harguments : (Arguments.read ["inc", "--headers", "a.h", "--no-dump"]).toOption =
      some (.generate fullChoices) := by
    decide +kernel
  have hloading : (completed access addsNothing [] fullTree).1.2.toOption = some [] := by
    decide +kernel
  have hchecking : ((fullJob.config.check access).run
      (completed access addsNothing [] fullTree).2).1.toOption = some fullJob.moduleName := by
    decide +kernel
  have hopening : (Console.openLog access Configuration.logDirectory "now" fullJob.config.verbose
      ((fullJob.config.check access).run
        (completed access addsNothing [] fullTree).2).2).1.toOption =
          some ⟨.ofString "logs/com_header_bindgen_now.log", false⟩ := by
    decide +kernel
  exact ⟨eq_ok_of_toOption harguments, eq_ok_of_toOption hloading, rfl, rfl,
    eq_ok_of_toOption hchecking, Prod.ext (eq_ok_of_toOption hopening) rfl⟩

/-- The module of the header is emitted. -/
theorem exists_module_full : ∃ project j text,
    Run.Action.on (fullJob.buildProject access) Run.Job.readingStart fullFiles =
      ((.ok project, j), fullFiles) ∧
    (Module.generate fullJob.config.library fullJob.settings.maxCallSlots project).1 = .ok text := by
  have hsome : ((Run.Action.on (fullJob.buildProject access) Run.Job.readingStart
      fullFiles).1.1.toOption.bind fun project => (Module.generate fullJob.config.library
        fullJob.settings.maxCallSlots project).1.toOption).isSome = true := by
    -- evaluated from the lines of the platform, so that their text is not put together first
    rw [Run.Job.buildProject, Grammar.readPlatform_eq, Grammar.header, Lexer.lex, Grammar.platformSource,
      String.toList_intercalate]
    decide +kernel
  rcases houtcome : Run.Action.on (fullJob.buildProject access) Run.Job.readingStart fullFiles with
    ⟨⟨e | project, j⟩, t⟩ <;> rw [houtcome] at hsome
  · cases hsome
  · obtain ⟨text, htext⟩ := Option.isSome_iff_exists.mp hsome
    obtain rfl := (Run.Job.looks_buildProject fullJob).tree_eq houtcome
    exact ⟨project, j, text, rfl, eq_ok_of_toOption htext⟩

/-- A run that is reported as failed has emptied the module of the earlier run. -/
theorem run_full_empties : ∃ report t',
    run access addsNothing [] "now" ["inc", "--headers", "a.h", "--no-dump"] fullTree =
      (report, t') ∧
    report.ending = .exit 1 ∧
    fullTree.node? ["d3d11.py", "dist", "home"] = some (.file (Text.bytes "old\n")) ∧
    t'.node? ["d3d11.py", "dist", "home"] = some (.file []) := by
  obtain ⟨project, j, text, hread, htext⟩ := exists_module_full
  have hopen : (access.ensureDirectories (.ofString "dist") fullFiles).1.toOption = some () := by
    decide +kernel
  have hlocate : (fullOutput.locate (fullJob.modulePath (.ofString "dist"))).toOption =
      some ["d3d11.py", "dist", "home"] := by
    decide +kernel
  have hfile : fullOutput.node? ["d3d11.py", "dist", "home"] =
      some (.file (Text.bytes "old\n")) := by
    decide +kernel
  have hcapacity : fullOutput.capacity ["d3d11.py", "dist", "home"] = some 0 := by
    decide +kernel
  obtain ⟨t₁, hwrite, hempty⟩ := writeText_noRoom (eq_ok_of_toOption hlocate) hfile hcapacity
    (Module.ne_empty_of_generate htext)
  obtain ⟨j', hgenerate⟩ := Run.Job.on_generate_of_writeText rfl hread rfl
    (Prod.ext (eq_ok_of_toOption hopen) rfl) htext hwrite
  obtain ⟨log, hrun⟩ :=
    generate_on ⟨.ofString "logs/com_header_bindgen_now.log", false⟩ hgenerate
  obtain ⟨output, errors, hreport⟩ := begins_full.run_eq
  rw [hrun] at hreport
  have hlog : ∀ location, EndsIn ".log" location → ¬ EndsIn ".py" location :=
    fun _ hends => not_endsIn hends isEnding_log isEnding_py (by decide)
  have hending : EndsIn ".py" ["d3d11.py", "dist", "home"] :=
    ⟨"d3d11.py", rfl, ⟨"d3d11".toList, by decide⟩⟩
  have hkept := spares_keep hlog (Console.file_openLog (by rw [begins_full.opening])) log t₁ _ hending
  exact ⟨_, _, hreport, rfl, by decide +kernel, hkept.kept _ hempty⟩
end CommandLine

end SdkBindings
