import SdkBindings.Run.CommandLine
import Std.Time.DateTime.Timestamp

/-!
# The program

The outermost layer: the files of the machine, its clock and its streams.  Everything else is decided
by the command line it calls.  The library that loads files of assignments is whatever the program is
started with.
-/

namespace SdkBindings.Machine

/-- What the machine says about a failed operation. -/
def faultOf (e : IO.Error) : FileFault :=
  match e with
  | .noFileOrDirectory _ _ _ => .notFound
  | .alreadyExists _ _ _ => .alreadyThere
  | .inappropriateType _ 21 _ => .isDirectory
  | .inappropriateType _ _ _ => .notDirectory
  | .invalidArgument _ 36 _ => .nameTooLong
  | e => .other 5 (toString e)

/-- An operation of the machine on a path with its failure as a value. -/
def trial {α : Type} (path : Path) (operation : IO α) : IO (Except FileFault α) := do
  if path.holdsNull then pure (.error .nullCharacter)
  else
    try
      let a ← operation
      pure (.ok a)
    catch e => pure (.error (faultOf e))

/-- The kind of what there is at a path. -/
def kind (path : Path) : IO FileKind := do
  let here ← IO.currentDir
  let data ← (here / path.render).metadata
  pure <| match data.type with
    | .dir => .directory
    | .file => .file
    | _ => .other

/-- Makes or empties a file. -/
def create (path : Path) : IO Unit := do
  let _ ← IO.FS.Handle.mk path.render .write

/-- Adds bytes to the end of a file. -/
def append (path : Path) (bytes : List UInt8) : IO Unit := do
  let handle ← IO.FS.Handle.mk path.render .append
  handle.write ⟨bytes.toArray⟩

/-- The files of the machine. -/
def files : FileAccess IO where
  kind path := trial path (kind path)
  read path := trial path ((fun bytes => bytes.toList) <$> IO.FS.readBinFile path.render)
  create path := trial path (create path)
  append path bytes := trial path (append path bytes)
  makeDirectory path := trial path (IO.FS.createDir path.render)

/-- A number with leading zeros. -/
def padded (width : Nat) (n : Int) : String :=
  let digits := toString n.toNat
  String.ofList (List.replicate (width - digits.length) '0') ++ digits

/-- The date of a day, counted from the first of January 1970: its year, month and day.  Years begin in
March here, so that a leap day is the last of its year, and 400 years have 146097 days. -/
def dateOf (day : Int) : Int × Int × Int :=
  let z := day + 719468
  let era := Int.fdiv z 146097
  let dayOfEra := z - era * 146097
  let yearOfEra := (dayOfEra - dayOfEra / 1460 + dayOfEra / 36524 - dayOfEra / 146096) / 365
  let dayOfYear := dayOfEra - (365 * yearOfEra + yearOfEra / 4 - yearOfEra / 100)
  let month := (5 * dayOfYear + 2) / 153
  let dayOfMonth := dayOfYear - (153 * month + 2) / 5 + 1
  let calendarMonth := if month < 10 then month + 3 else month - 9
  (yearOfEra + era * 400 + (if calendarMonth ≤ 2 then 1 else 0), calendarMonth, dayOfMonth)

example : dateOf 0 = (1970, 1, 1) ∧ dateOf 19782 = (2024, 2, 29) := by decide

/-- A moment in universal time, as digits. -/
def momentOf (seconds : Int) : String :=
  let (year, month, day) := dateOf (Int.fdiv seconds 86400)
  let second := Int.fmod seconds 86400
  padded 4 year ++ padded 2 month ++ padded 2 day ++ "_" ++
    padded 2 (second / 3600) ++ padded 2 (second / 60 % 60) ++ padded 2 (second % 60)

/-- The variables that tune a run. -/
def tuning : List String :=
  ["BINDGEN_INCLUDE_DIR", "BINDGEN_OUTPUT_DIR", "BINDGEN_HEADERS", "BINDGEN_VERBOSE",
   "BINDGEN_DUMP_IR", "BINDGEN_MODULE_NAME", "BINDGEN_DLL_NAME", "BINDGEN_STRIP_PREFIXES",
   "BINDGEN_DUMP_DIR", "BINDGEN_DUMP_INDENT", "BINDGEN_MAX_CALL_SLOTS", "BINDGEN_STRICT_GUIDS"]

/-- The environment of the machine, as far as a run looks at it. -/
def environment : IO Environment :=
  tuning.filterMapM fun name => do
    let value ← IO.getEnv name
    pure (value.map fun text => (name, text))

/-- Runs the program with a library that loads files of assignments. -/
def start (load : CommandLine.Loader IO) (arguments : List String) : IO UInt32 := do
  let now ← Std.Time.Timestamp.now
  let moment := momentOf now.toSecondsSinceUnixEpoch.val
  let environment ← environment
  let report ← CommandLine.run files load environment moment arguments
  for line in report.output do IO.println line
  for line in report.errors do IO.eprintln line
  match report.ending with
  | .exit code => pure code.toUInt32
  | .escaped f => do
    IO.eprintln f.message
    pure 1

end SdkBindings.Machine
