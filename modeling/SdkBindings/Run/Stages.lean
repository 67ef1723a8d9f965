import SdkBindings.Constant.Value
import SdkBindings.Run.Failure
import SdkBindings.Run.Progress

/-!
# Stages of a run

A run is a computation that may fail, over what has been reported, how far it has come and the
constants known so far.  A stage is a part of it that is reported around: its start, and its end or
the failure that ended it.  A failure passes through a stage unchanged, unless leaving the stage fails
as well: then this later failure takes its place.
-/

namespace SdkBindings.Run

/-- What a run carries along. -/
structure Journal where
  /-- What has been reported. -/
  log : Log
  /-- How far the run has come. -/
  progress : Progress
  /-- The constants known so far. -/
  symbols : SymbolTable

/-- Nothing has happened. -/
def Journal.start : Journal := ⟨[], .start, .empty⟩

/-- A part of a run. -/
abbrev Action (m : Type → Type) := ExceptT Failure (StateT Journal m)

variable {m : Type → Type} [Monad m] {α : Type}

/-- Reports entries. -/
def report (entries : Log) : Action m Unit :=
  modifyThe Journal fun j => { j with log := j.log ++ entries }

/-- What a failure says. -/
def failureText : Except Failure α → Option String
  | .ok _ => none
  | .error e => some e.message

/-- What a part of a run comes to if its closing breaks, or does not. -/
def settled (result : Except Failure α) : Option Failure → Except Failure α
  | none => result
  | some e => .error e

/-- A part of a run between an opening and a closing, which learns of a failure and may break itself. -/
def around (opening : Journal → Journal)
    (closing : Option String → Journal → Option Failure × Journal) (body : Action m α) :
    Action m α :=
  ExceptT.mk do
    modifyThe Journal opening
    let result ← body.run
    let broken? ← modifyGetThe Journal (closing (failureText result))
    pure (settled result broken?)

/-- A stage that is timed. -/
def timed (stage : String) (body : Action m α) : Action m α :=
  around (fun j => { j with log := j.log ++ [starting stage] })
    (fun failed j => (none, { j with log := j.log ++ [ended stage failed] }))
    body

/-- Leaves a span: the journal afterwards, and the failure if there is nothing to be left. -/
def Journal.leave (span : Span) (failed : Option String) (j : Journal) : Option Failure × Journal :=
  match j.progress.leave span failed with
  | (log, some progress) => (none, { j with log := j.log ++ log, progress })
  | (log, none) => (some .noStage, { j with log := j.log ++ log })

/-- A part of a run between entering and leaving a span. -/
def within (enter : Progress → Span × Log × Progress) (body : Action m α) : Action m α := do
  let j ← getThe Journal
  let (span, log, progress) := enter j.progress
  around (fun j => { j with log := j.log ++ log, progress }) (Journal.leave span) body

/-- A stage whose progress is tracked. -/
def stage (name : String) (body : Action m α) : Action m α :=
  within (fun p => p.enterStage name) body

/-- The work on a file, whose progress is tracked. -/
def file (name : String) (body : Action m α) : Action m α :=
  within (fun p => p.enterFile name) body

/-- Changes how far the run has come. -/
def advance (f : Progress → Progress) : Action m Unit :=
  modifyThe Journal fun j => { j with progress := f j.progress }

/-- An operation outside of the run, with what its failure means for the run. -/
def attemptWith {ε : Type} (wrap : ε → Failure) (operation : m (Except ε α)) : Action m α :=
  ExceptT.mk do
    let result ← StateT.lift operation
    pure (result.mapError wrap)

/-- An operation on a file. -/
def attempt (operation : m (Except FileError α)) : Action m α :=
  attemptWith .file operation

/-- An operation on a file at a path. -/
def attemptAt (path : Path) (operation : m (Except FileFault α)) : Action m α :=
  attempt ((·.mapError fun fault => ⟨fault, path⟩) <$> operation)

/-- The writing of a text to a file. -/
def write [Host] (files : FileAccess m) (path : Path) (text : String) : Action m Unit :=
  attemptWith (.unwritten path) (files.writeText path text)

end SdkBindings.Run
