import SdkBindings.Constant.Evaluation
import SdkBindings.Grammar.Reader

/-!
# Reading a header in a session

Headers are read one after the other in a session that keeps the symbols defined so far and what has
been reported.  Both outlive a header that fails: the symbols it defined before its failure stay.  A
statement of a header is a step that moves a cursor, may change the session and may fail.
-/

namespace SdkBindings.Grammar

/-- What is kept between headers. -/
structure Session where
  /-- The constants known so far. -/
  symbols : SymbolTable
  /-- What has been reported. -/
  log : Log
  deriving Repr

/-- Nothing is known and nothing reported. -/
def Session.start : Session := ⟨.empty, []⟩

/-- A step in a session. -/
abbrev InSession := ExceptT Failure (StateM Session)

/-- A step in a session that moves a cursor. -/
abbrev Statement := StateT Cursor InSession

/-- Reports entries. -/
def report (entries : Log) : InSession Unit :=
  modifyThe Session fun s => { s with log := s.log ++ entries }

/-- Gives a name a value. -/
def define (name : String) (value : Value) : InSession Unit :=
  modifyThe Session fun s => { s with symbols := s.symbols.insert name value }

/-- The symbols known at this point. -/
def symbols : InSession SymbolTable := do
  let s ← getThe Session
  pure s.symbols

/-- A reader as a statement. -/
def read {α : Type} (reader : Reader α) : Statement α := fun c =>
  match reader c with
  | .ok result => pure result
  | .error f => throw f

/-- The value of an expression; nothing if it is of a kind that is left alone, in which case `note`
says so. -/
def evaluated (notes : Log) (result : Except Constant.Error Value) (note : Constant.Error → LogEntry) :
    InSession (Option Value) := do
  report notes
  match result with
  | .ok v => pure (some v)
  | .error e =>
    if e.class = .unsupported then do
      report [note e]
      pure none
    else throw (.constant e)

end SdkBindings.Grammar
