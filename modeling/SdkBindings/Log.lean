/-!
# Log entries

What a run reports about its progress is a list of entries.  Nothing here writes them anywhere: an
operation returns its entries next to its result, and they are shown or stored at the very end.
-/

namespace SdkBindings

/-- How much an entry matters. -/
inductive Level where
  /-- Details for an audit of a run. -/
  | debug
  /-- The normal course of a run. -/
  | info
  /-- Something was left out or degraded. -/
  | warning
  /-- An operation failed. -/
  | error
  deriving DecidableEq, Repr

/-- The level as it is written in front of a message. -/
def Level.name : Level → String
  | .debug => "DEBUG"
  | .info => "INFO"
  | .warning => "WARNING"
  | .error => "ERROR"

/-- One reported message. -/
structure LogEntry where
  /-- How much it matters. -/
  level : Level
  /-- What is reported. -/
  message : String
  deriving DecidableEq, Repr

/-- What has been reported so far, in order. -/
abbrev Log := List LogEntry

namespace LogEntry

/-- An entry as shown on the console. -/
def render (entry : LogEntry) : String :=
  entry.level.name ++ ": " ++ entry.message

end LogEntry

/-- Details for an audit of a run. -/
def debug (message : String) : LogEntry := ⟨.debug, message⟩

/-- The normal course of a run. -/
def info (message : String) : LogEntry := ⟨.info, message⟩

/-- Something was left out or degraded. -/
def warning (message : String) : LogEntry := ⟨.warning, message⟩

/-- An operation failed. -/
def failure (message : String) : LogEntry := ⟨.error, message⟩

/-- How long a stage took.  The stages are functions of their input and no clock is read while they
run, so every duration is given as nothing. -/
def elapsed : String := "0.000s"

/-- What is reported when a stage starts. -/
def starting (stage : String) : LogEntry :=
  debug ("Starting " ++ stage)

/-- What is reported when a stage has ended, by itself or by a failure. -/
def ended (stage : String) (failed : Option String) : LogEntry :=
  match failed with
  | none => debug ("Completed " ++ stage ++ " in " ++ elapsed)
  | some message => failure ("Failed " ++ stage ++ " after " ++ elapsed ++ ": " ++ message)

/-- What is reported around a stage: its start, what it reported itself, and its end. -/
def timed (stage : String) (log : Log) (failed : Option String) : Log :=
  starting stage :: log ++ [ended stage failed]

end SdkBindings
