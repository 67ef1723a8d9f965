import SdkBindings.Log

/-!
# The progress of a run

A run enters and leaves stages, which nest, and files, and it counts the declarations it produces.
Entering and leaving are reported.  A stage is left by taking the innermost open one off, whatever it
is called; if there is none, the leaving is reported all the same and then fails.
-/

namespace SdkBindings

/-- How far a run has come. -/
structure Progress where
  /-- The files entered so far. -/
  files : Nat
  /-- The declarations produced so far. -/
  declarations : Int
  /-- The open stages, outermost first. -/
  stages : List String
  deriving DecidableEq, Repr

/-- What has been entered and can be left. -/
inductive Span where
  /-- A stage. -/
  | stage (name : String)
  /-- A file, with the declarations produced before it. -/
  | file (name : String) (before : Int)
  deriving DecidableEq, Repr

namespace Progress

/-- Nothing has been done. -/
def start : Progress := ⟨0, 0, []⟩

/-- The open stages in one line. -/
def context (p : Progress) : String :=
  if p.stages = [] then "idle" else " -> ".intercalate p.stages

/-- Enters a stage. -/
def enterStage (p : Progress) (name : String) : Span × Log × Progress :=
  let inside := { p with stages := p.stages ++ [name] }
  (.stage name, [debug ("Starting stage: " ++ inside.context)], inside)

/-- Enters a file. -/
def enterFile (p : Progress) (name : String) : Span × Log × Progress :=
  let inside := { p with files := p.files + 1 }
  (.file name p.declarations,
    [debug ("Processing file #" ++ toString inside.files ++ ": " ++ name)], inside)

/-- What is reported when a span is left, by itself or by a failure. -/
def leavingEntry (p : Progress) (failed : Option String) : Span → LogEntry
  | .stage name =>
    match failed with
    | none => debug ("Completed stage: " ++ name ++ " in " ++ elapsed)
    | some message => failure ("Failed stage: " ++ name ++ " after " ++ elapsed ++ ": " ++ message)
  | .file name before =>
    match failed with
    | none =>
      debug (name ++ " completed in " ++ elapsed ++ " (" ++ toString (p.declarations - before) ++
        " declarations)")
    | some message => failure (name ++ " failed after " ++ elapsed ++ ": " ++ message)

/-- Leaves a span.  There is no progress after leaving a stage when none is open. -/
def leave (p : Progress) (span : Span) (failed : Option String) : Log × Option Progress :=
  ([p.leavingEntry failed span],
    match span with
    | .file _ _ => some p
    | .stage _ => if p.stages = [] then none else some { p with stages := p.stages.dropLast })

/-- Counts declarations. -/
def count (p : Progress) (n : Int) : Progress :=
  { p with declarations := p.declarations + n }

/-- What is reported at the end of a run. -/
def summary (p : Progress) : LogEntry :=
  info ("Processing complete: " ++ toString p.files ++ " files, " ++ toString p.declarations ++
    " declarations in " ++ elapsed ++ " (avg: " ++ elapsed ++ "/file)")

/-- A stage that has just been entered can be left, and the stages are then as before. -/
theorem leave_enterStage (p : Progress) (name : String) (failed : Option String) :
    let (span, _, inside) := p.enterStage name
    (inside.leave span failed).2 = some p := by
  simp [enterStage, leave]

end Progress

end SdkBindings
