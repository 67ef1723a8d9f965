import SdkBindings.Run.Arguments
import SdkBindings.Run.Console
import SdkBindings.Run.Generation

/-!
# The command line

A run begins with its arguments, adds what a file of assignments in the working directory says to the
environment and checks the configuration that follows.  Up to here nothing has been written, and what is
wrong is said on the error stream.  From then on everything is reported to a log, whose console is the
standard output, and the exit code says whether a module was written.

Files of assignments are read by a library of their own (`Loader`), which is a parameter of the run.
-/

namespace SdkBindings.CommandLine

/-- The name of the program. -/
def programName : String := "com-header-bindgen"

/-- How the program is called. -/
def usage : List String :=
  ["usage: com-header-bindgen [-h] [-o OUTPUT] [--headers FILES]",
   "                          [--module-name MODULE_NAME] [--dll-name DLL_NAME]",
   "                          [--no-dump] [-v]",
   "                          [include_dir]"]

/-- What the program does and what its options mean. -/
def help : List String :=
  usage ++
  ["",
   "Generate ctypes bindings from DirectX SDK style C headers",
   "",
   "positional arguments:",
   "  include_dir           Directory holding the headers (optional if using .env)",
   "",
   "options:",
   "  -h, --help            show this help message and exit",
   "  -o OUTPUT, --output OUTPUT",
   "                        Output directory for the bindings module and IR dumps",
   "                        (default: ./dist)",
   "  --headers FILES       Comma-separated header list, processed in the given",
   "                        order",
   "  --module-name MODULE_NAME",
   "                        Name of the generated Python module (default: d3d11)",
   "  --dll-name DLL_NAME   Library the exported functions are loaded from",
   "                        (default: d3d11.dll)",
   "  --no-dump             Do not write the JSON IR dump of each header",
   "  -v, --verbose         Enable verbose output with debug logs"]

/-- How a run ends. -/
inductive Ending where
  /-- With an exit code. -/
  | exit (code : Nat)
  /-- With a failure that is not foreseen. -/
  | escaped (f : Run.Failure)
  deriving DecidableEq, Repr

/-- What a run leaves behind besides files. -/
structure Report where
  /-- How it ends. -/
  ending : Ending
  /-- What it says on the standard output. -/
  output : List String
  /-- What it says on the error stream. -/
  errors : List String
  deriving DecidableEq, Repr

variable {m : Type → Type} [Monad m]

/-- Why a file of assignments cannot be loaded. -/
inductive LoadError where
  /-- An operation on a file failed. -/
  | file (e : FileError)
  /-- The file, or something it assigns, is refused in these words. -/
  | value (message : String)
  deriving DecidableEq, Repr

/-- A library that loads files of assignments.  For the file at a path and an environment it has
something to say on the error stream and gives the environment with the variables that the file adds. -/
abbrev Loader (m : Type → Type) :=
  Path → Environment → m (List String × Except LoadError Environment)

/-- The file of assignments that is looked for in the working directory. -/
def assignmentsPath : Path := .ofString ".env"

/-- The environment with what the file of assignments adds, if there is one. -/
def completed (files : FileAccess m) (load : Loader m) (environment : Environment) :
    m (List String × Except LoadError Environment) := do
  match ← files.find assignmentsPath with
  | .error e => pure ([], .error (.file e))
  | .ok none => pure ([], .ok environment)
  | .ok (some _) => load assignmentsPath environment

/-- What is reported before the headers are read. -/
def openingEntries (job : Run.Job) : Log :=
  let output := (job.config.outputDirectory.map Path.render).getD Configuration.withheldText
  [debug ("Include directory: " ++ job.config.includeDirectory.render),
   debug ("Output directory: " ++ output),
   info ("Generating " ++ job.moduleName ++ " from " ++ toString job.config.headers.length ++
    " header(s)")]

/-- A line across the console. -/
def rule : LogEntry :=
  info (String.ofList (List.replicate 70 '='))

/-- What is reported about what has been produced. -/
def successEntries (product : Run.Product) : Log :=
  [rule,
   info ("[SUCCESS] Generated: " ++ product.modulePath.render),
   info ("Files: " ++ toString product.project.length ++ ", declarations: " ++
    toString (product.project.foldl (fun n header => n + header.count) 0))] ++
  (product.dumpDirectory.map fun path => info ("IR dumps: " ++ path.render)).toList ++
  [rule]

/-- How a run ends with a result, and what is reported about it. -/
def conclude : Except Run.Failure Run.Product → Ending × Log
  | .ok product => (.exit 0, successEntries product)
  | .error f =>
    match f.report? with
    | some text => (.exit 1, [failure ("[FAILED] " ++ text)])
    | none => (.escaped f, [ended "main" (some f.message)])

/-- A run with a checked configuration and an open log. -/
def generate [Host] (files : FileAccess m) (job : Run.Job) (console : Console) : m (Ending × Log) := do
  let (result, journal) ← (job.generate files).run .start
  let (ending, closing) := conclude result
  let log := console.greeting ++ openingEntries job ++ journal.log ++ closing
  let _ ← console.keep files log
  pure (ending, log)

/-- What is said about a refused configuration. -/
def configurationError (message : String) : Report :=
  ⟨.exit 1, [], ["Configuration error: " ++ message]⟩

/-- The end of a run that is over before its log is open. -/
def escape (f : Run.Failure) : Report :=
  ⟨.escaped f, [], []⟩

/-- The end of a run whose configuration is refused. -/
def refuse : Configuration.Error → Report
  | .file e => escape (.file e)
  | .withheld value => escape (.withheld value)
  | e => configurationError e.message

/-- The end of a run whose file of assignments cannot be loaded. -/
def refuseAssignments : LoadError → Report
  | .file e => escape (.file e)
  | .value message => configurationError message

/-- A run with a configuration. -/
def execute [Host] (files : FileAccess m) (environment : Environment) (moment : String)
    (config : Configuration) : m Report := do
  match ← (config.check files).run with
  | .error e => pure (refuse e)
  | .ok moduleName => do
    match ← Console.openLog files Configuration.logDirectory moment config.verbose with
    | .error e => pure (escape (.file e))
    | .ok console => do
      let job : Run.Job := ⟨config, moduleName, .ofEnvironment environment⟩
      let (ending, log) ← generate files job console
      pure ⟨ending, (console.shown log).map LogEntry.render, []⟩

/-- A report after some errors have been named. -/
def Report.after (errors : List String) (report : Report) : Report :=
  { report with errors := errors ++ report.errors }

/-- A run with an environment and arguments, at a moment that names its log file. -/
def run [Host] (files : FileAccess m) (load : Loader m) (environment : Environment) (moment : String)
    (arguments : List String) : m Report := do
  match Arguments.read arguments with
  | .error e => pure ⟨.exit 2, [], usage ++ [programName ++ ": error: " ++ e.message]⟩
  | .ok .help => pure ⟨.exit 0, help, []⟩
  | .ok (.generate choices) => do
    let (notices, loaded) ← completed files load environment
    let report ← match loaded with
      | .error e => pure (refuseAssignments e)
      | .ok environment =>
        execute files environment moment ((Configuration.ofEnvironment environment).choose choices)
    pure (report.after notices)

end SdkBindings.CommandLine
