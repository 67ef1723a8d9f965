import SdkBindings.Declaration.Document
import SdkBindings.Environment
import SdkBindings.Files.Name
import SdkBindings.Grammar.Platform
import SdkBindings.Module.Generate
import SdkBindings.Run.Configuration
import SdkBindings.Run.Stages
import SdkBindings.Text.Utf8
import SdkBindings.Transform.Pipeline

/-!
# Generating a module from headers

A run reads and transforms the declarations of the platform and then the headers one after the other,
so that constants of a header are known in those after it.  Nothing is written before all of them are
through.  Then the dumps are written, if they are wanted, and at last the module.  Each of these files is
emptied before its text is written, so that a failure at this point does not leave it as it was.
-/

namespace SdkBindings.Run

variable [Host] {m : Type → Type} [Monad m]

/-- What a run is about. -/
structure Job where
  /-- What it reads and writes. -/
  config : Configuration
  /-- The name of the module, which has been checked. -/
  moduleName : String
  /-- How its stages are tuned. -/
  settings : Settings

/-- What a run has produced. -/
structure Product where
  /-- The transformed headers. -/
  project : Project
  /-- Where the module is. -/
  modulePath : Path
  /-- Where the dumps are, if there are any. -/
  dumpDirectory : Option Path

namespace Job

/-- The directory of the dumps in an output directory. -/
def dumpDirectory (job : Job) (output : Path) : Path :=
  output.child job.settings.dumpDirectory

/-- The path of the dump of a header in an output directory. -/
def dumpPath (job : Job) (output : Path) (header : String) : Path :=
  (job.dumpDirectory output).child (FileName.dump header)

/-- The path of the module in an output directory. -/
def modulePath (job : Job) (output : Path) : Path :=
  output.child (FileName.moduleFile job.moduleName)

/-- Reads a header in the session of a run. -/
def parse (reader : Grammar.Session → Except Grammar.Failure Header × Grammar.Session) :
    Action m Header := do
  let j ← getThe Journal
  let (result, session) := reader ⟨j.symbols, []⟩
  modifyThe Journal fun j => { j with log := j.log ++ session.log, symbols := session.symbols }
  match result with
  | .ok header => pure header
  | .error e => throw (.header e)

/-- Reads the header in a file. -/
def parseFile (files : FileAccess m) (job : Job) (path : Path) : Action m Header :=
  timed "DeclarationParser.parse_file" do
    let bytes ← attemptAt path (files.read path)
    parse (Grammar.readHeader job.settings.strictGuids path.name (Text.readText bytes))

/-- Brings a header into shape. -/
def transform (job : Job) (header : Header) : Action m Header := do
  let change := Transform.transform job.settings.stripPrefixes header
  report (change.notes.map Transform.Note.logEntry)
  match change.failure with
  | none => pure change.value
  | some e => throw (.transform e)

/-- Reads a header and brings it into shape. -/
def process (job : Job) (name : String) (parsing : Action m Header) : Action m Header :=
  file name do
    let header ← stage ("parse " ++ name) parsing
    let header ← stage ("transform " ++ name) (job.transform header)
    advance fun p => p.count header.count
    pure header

/-- Processes the headers at paths, of which some number came before. -/
def processAll (files : FileAccess m) (job : Job) (total done : Nat) :
    List Path → Action m (List Header)
  | [] => pure []
  | path :: rest => do
    report [info ("[" ++ toString (done + 1) ++ "/" ++ toString total ++ "] Processing " ++ path.name)]
    let header ← job.process path.name (job.parseFile files path)
    let more ← job.processAll files total (done + 1) rest
    pure (header :: more)

/-- Processes the declarations of the platform and all headers. -/
def buildProject (files : FileAccess m) (job : Job) : Action m Project :=
  timed "BindgenGenerator.build_project" do
    let platform ← job.process Grammar.platformFile
      (parse (Grammar.readPlatform job.settings.strictGuids))
    let paths := job.config.headerPaths
    let headers ← job.processAll files paths.length 0 paths
    pure (platform :: headers)

/-- Writes the dump of a header. -/
def writeDump (files : FileAccess m) (job : Job) (output : Path) (header : Header) :
    Action m Unit := do
  attempt (files.ensureDirectories (job.dumpDirectory output))
  let path := job.dumpPath output header.file
  write files path (header.dump job.settings.dumpIndent)
  report [debug ("Wrote IR dump " ++ path.render)]

/-- Writes the dumps of a project. -/
def writeDumps (files : FileAccess m) (job : Job) (output : Path) (project : Project) :
    Action m Unit :=
  stage "dump" do
    project.forM (job.writeDump files output)
    report [info ("Wrote " ++ toString project.length ++ " IR dumps to " ++
      (job.dumpDirectory output).render)]

/-- The text of the module of a project. -/
def emit (job : Job) (project : Project) : Action m String :=
  stage "emit" do
    let (result, log) := Module.generate job.config.library job.settings.maxCallSlots project
    report log
    match result with
    | .ok text => pure text
    | .error e => throw (.emission e)

/-- The output directory, made if it is missing. -/
def openOutput (files : FileAccess m) (job : Job) : Action m Path :=
  match job.config.outputDirectory with
  | none => throw (.withheld .outputDirectory)
  | some output => do
    attempt (files.ensureDirectories output)
    pure output

/-- Reads the headers and writes the dumps and the module. -/
def generate (files : FileAccess m) (job : Job) : Action m Product :=
  timed "BindgenGenerator.generate" do
    advance fun _ => .start
    let project ← job.buildProject files
    let output ← job.openOutput files
    if job.config.dumps then job.writeDumps files output project
    let text ← job.emit project
    let path := job.modulePath output
    write files path text
    report [info ("Wrote bindings module " ++ path.render)]
    let j ← getThe Journal
    report [j.progress.summary]
    pure ⟨project, path, if job.config.dumps then some (job.dumpDirectory output) else none⟩

end Job

end SdkBindings.Run
