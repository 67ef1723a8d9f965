import SdkBindings.Grammar.Session
import SdkBindings.Module.Error
import SdkBindings.Run.Configuration
import SdkBindings.Transform.Error

/-!
# Why a run fails

A run fails in one of its stages, at a file or for want of a value.  Failures of the declarations and
of files are reported and end the run in an orderly way; the others are not foreseen and escape from
it.  Among these are a text that cannot be encoded when its file is already empty, and a stage that is
left when none is open.
-/

namespace SdkBindings.Run

/-- Why a run fails. -/
inductive Failure where
  /-- A header could not be read. -/
  | header (e : Grammar.Failure)
  /-- Declarations could not be brought into shape. -/
  | transform (e : TransformError)
  /-- The module could not be written. -/
  | emission (e : Module.Error)
  /-- An operation on a file failed. -/
  | file (e : FileError)
  /-- A text could not be written. -/
  | unwritten (path : Path) (fault : WriteFault)
  /-- A value is needed and withheld. -/
  | withheld (value : Configuration.Withheld)
  /-- A stage is left, but none is open. -/
  | noStage
  deriving DecidableEq, Repr

namespace Failure

/-- The failure as a message. -/
def message : Failure → String
  | .header e => e.message
  | .transform e => e.message
  | .emission e => e.message
  | .file e => e.message
  | .unwritten path fault => fault.message path
  | .withheld value => value.message
  | .noStage => "pop from empty list"

/-- What a run says when it ends at a file; nothing if the operating system was not even asked. -/
def reportAt? (fault : FileFault) (message : String) : Option String :=
  if fault = .nullCharacter then none else some ("I/O error: " ++ message)

/-- What a run says when it ends with the failure; nothing if the failure is not foreseen. -/
def report? : Failure → Option String
  | .header (.constant e) =>
    match e.class with
    | .unsupported | .malformed => some e.message
    | .value | .overflow | .memory => none
  | .header e => some e.message
  | .transform (.noInnerType _) => none
  | .transform e => some e.message
  | .emission e => some e.message
  | .file e => reportAt? e.fault e.message
  | .unwritten path (.creation fault) => reportAt? fault (FileError.message ⟨fault, path⟩)
  | .unwritten _ (.encoding _) => none
  | .unwritten _ (.device fault) => reportAt? fault fault.message
  | .withheld _ => none
  | .noStage => none

end Failure

end SdkBindings.Run
