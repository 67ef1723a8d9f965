import SdkBindings.Files.Access
import SdkBindings.Log
import SdkBindings.Text.Utf8

/-!
# Where entries are shown

Once it is opened, a log shows entries on the console, with details only on request, and keeps all of
them in a file.  The file is named for the moment the log was opened.  A log that is open is not
opened again.  An entry that cannot be encoded is not kept; the others are.
-/

namespace SdkBindings

/-- An open log. -/
structure Console where
  /-- The file that keeps all entries. -/
  file : Path
  /-- Whether details are shown on the console. -/
  verbose : Bool
  deriving DecidableEq, Repr

/-- How much the levels matter. -/
def Level.rank : Level → Nat
  | .debug => 10
  | .info => 20
  | .warning => 30
  | .error => 40

namespace Console

/-- The least level that is shown on the console. -/
def level (console : Console) : Level :=
  if console.verbose then .debug else .info

/-- The least level that is kept in the file. -/
def fileLevel : Level := .debug

/-- The entries that are shown. -/
def shown (console : Console) (log : Log) : Log :=
  log.filter fun entry => console.level.rank ≤ entry.level.rank

/-- The name of the file of a log that is opened at a moment. -/
def fileName (moment : String) : String :=
  "com_header_bindgen_" ++ moment ++ ".log"

/-- How a truth value is written. -/
def truthName (b : Bool) : String :=
  if b then "True" else "False"

/-- What is reported when a log has been opened. -/
def greeting (console : Console) : Log :=
  [info ("Logging initialized. Log file: " ++ console.file.render),
   debug ("Verbose mode: " ++ truthName console.verbose)]

variable {m : Type → Type} [Monad m]

/-- Opens a log in a directory, which is made if it is missing. -/
def openLog (files : FileAccess m) (directory : Path) (moment : String) (verbose : Bool) :
    m (Except FileError Console) := do
  match ← files.ensureDirectories directory with
  | .error e => pure (.error e)
  | .ok () => do
    let file := directory.child (fileName moment)
    match ← files.append file [] with
    | .error fault => pure (.error ⟨fault, file⟩)
    | .ok () => pure (.ok ⟨file, verbose⟩)

/-- The bytes that are kept of entries. -/
def kept [Host] (log : Log) : List UInt8 :=
  (log.filterMap fun entry => (Text.encode (entry.render ++ "\n")).toOption).flatten

/-- Keeps entries in the file of a log. -/
def keep [Host] (files : FileAccess m) (console : Console) (log : Log) :
    m (Except FileFault Unit) :=
  files.append console.file (kept log)

end Console

end SdkBindings
