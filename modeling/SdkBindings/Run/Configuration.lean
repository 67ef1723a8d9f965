import SdkBindings.Environment
import SdkBindings.Files.Access
import SdkBindings.Text.IdentifierCharacter

/-!
# The configuration of a run

What a run reads and writes is chosen on the command line; what is not chosen there is taken from the
environment, and what is not said there has a default.  A configuration is checked before anything is
written: the directory of headers has to be there, some header has to be named, every header has to
be a file, and the module needs a name it can be imported under.

The output directory and the name of the module can be withheld: the command line names their options
but gives no value.  That is no default; such a configuration fails when the value is needed.
-/

namespace SdkBindings

/-- What a run reads and writes. -/
structure Configuration where
  /-- The directory that holds the headers. -/
  includeDirectory : Path
  /-- The directory of the module and of the dumps, unless it is withheld. -/
  outputDirectory : Option Path
  /-- The headers, in the order in which they are read. -/
  headers : List String
  /-- The name of the module, unless it is withheld. -/
  moduleName : Option String
  /-- The library that exports the functions. -/
  library : String
  /-- Whether details are shown. -/
  verbose : Bool
  /-- Whether dumps are written. -/
  dumps : Bool
  deriving DecidableEq, Repr

/-- What is chosen on the command line. -/
structure Choices where
  /-- The directory that holds the headers. -/
  includeDirectory : Option Path := none
  /-- The directory of the module and of the dumps; it can be chosen to withhold it. -/
  outputDirectory : Option (Option Path) := none
  /-- The headers; an empty list chooses none. -/
  headers : Option (List String) := none
  /-- The name of the module; it can be chosen to withhold it. -/
  moduleName : Option (Option String) := none
  /-- The library that exports the functions. -/
  library : Option String := none
  /-- Whether details are shown. -/
  verbose : Option Bool := none
  /-- Whether dumps are written. -/
  dumps : Option Bool := none
  deriving DecidableEq, Repr

namespace Configuration

/-- The headers that are read if none are named. -/
def defaultHeaders : List String :=
  ["D3D11.h", "DXGI.h", "DXGIType.h", "D3Dcommon.h", "DXGIFormat.h", "D3D11SDKLayers.h",
    "D3D11Shader.h", "D3Dcompiler.h"]

/-- The directory of the log files. -/
def logDirectory : Path := .ofString "logs"

/-- A value that can be withheld. -/
inductive Withheld where
  /-- The output directory. -/
  | outputDirectory
  /-- The name of the module. -/
  | moduleName
  deriving DecidableEq, Repr

/-- What is said when the value is needed. -/
def Withheld.message : Withheld → String
  | .outputDirectory => "'list' object has no attribute 'mkdir'"
  | .moduleName => "'list' object has no attribute 'isidentifier'"

/-- How a value that is withheld is written. -/
def withheldText : String := "[]"

/-- The value of a variable, or its default. -/
def variableOr (environment : Environment) (name default : String) : String :=
  (environment.lookup name).getD default

/-- The configuration that an environment asks for. -/
def ofEnvironment (environment : Environment) : Configuration :=
  let value := variableOr environment
  let headers := value "BINDGEN_HEADERS" ""
  { includeDirectory := .ofString (value "BINDGEN_INCLUDE_DIR" "DXSDK_Jun10/include")
    outputDirectory := some (.ofString (value "BINDGEN_OUTPUT_DIR" "dist"))
    headers := if headers = "" then defaultHeaders else Text.splitList headers
    moduleName := some (value "BINDGEN_MODULE_NAME" "d3d11")
    library := value "BINDGEN_DLL_NAME" "d3d11.dll"
    verbose := Text.isSetFlag (value "BINDGEN_VERBOSE" "false")
    dumps := Text.isSetFlag (value "BINDGEN_DUMP_IR" "true") }

/-- A configuration with what was chosen. -/
def choose (config : Configuration) (choices : Choices) : Configuration where
  includeDirectory := choices.includeDirectory.getD config.includeDirectory
  outputDirectory := choices.outputDirectory.getD config.outputDirectory
  headers :=
    match choices.headers with
    | none | some [] => config.headers
    | some headers => headers
  moduleName := choices.moduleName.getD config.moduleName
  library := choices.library.getD config.library
  verbose := choices.verbose.getD config.verbose
  dumps := choices.dumps.getD config.dumps

/-- Choosing nothing changes nothing. -/
theorem choose_nothing (config : Configuration) : config.choose {} = config := rfl

/-- The paths of the headers. -/
def headerPaths (config : Configuration) : List Path :=
  config.headers.map config.includeDirectory.child

/-- Why a configuration is refused. -/
inductive Error where
  /-- There is no directory of headers. -/
  | noIncludeDirectory (path : Path)
  /-- No header is named. -/
  | noHeaders
  /-- Some headers are no files. -/
  | missingHeaders (paths : List Path)
  /-- The module cannot be imported under its name. -/
  | badModuleName (name : String)
  /-- A value is needed and withheld. -/
  | withheld (value : Withheld)
  /-- A path cannot be looked at. -/
  | file (e : FileError)
  deriving DecidableEq, Repr

/-- The error as a message. -/
def Error.message : Error → String
  | .noIncludeDirectory path => "Include directory not found: " ++ path.render
  | .noHeaders => "No header files configured"
  | .missingHeaders paths =>
    "Header file(s) not found: " ++ ", ".intercalate (paths.map Path.render)
  | .badModuleName name => "Module name is not a valid Python identifier: " ++ name
  | .withheld value => value.message
  | .file e => e.message

/-- The name under which a module can be imported. -/
def checkModuleName : Option String → Except Error String
  | none => .error (.withheld .moduleName)
  | some name => if Text.isIdentifier name then .ok name else .error (.badModuleName name)

/-- Checks a configuration and gives the name of the module; the first reason to refuse it counts. -/
def check {m : Type → Type} [Monad m] (files : FileAccess m) (config : Configuration) :
    ExceptT Error m String := do
  let holds (kind : FileKind) (path : Path) : ExceptT Error m Bool :=
    ExceptT.mk ((·.mapError .file) <$> files.holds kind path)
  if !(← holds .directory config.includeDirectory) then
    throw (.noIncludeDirectory config.includeDirectory)
  if config.headers = [] then throw .noHeaders
  let missing ← config.headerPaths.filterM fun path => do
    let found ← holds .file path
    pure !found
  if missing ≠ [] then throw (.missingHeaders missing)
  ExceptT.mk (pure (checkModuleName config.moduleName))

end Configuration

end SdkBindings
