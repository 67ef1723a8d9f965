import SdkBindings.Transform.Duplicates
import SdkBindings.Transform.Erasure
import SdkBindings.Transform.Guid
import SdkBindings.Transform.Pairing

/-!
# The passes in their order

Six passes bring the declarations of a header into the shape that is written: names are normalized,
types resolved, arrays paired, pointers erased, identifiers decomposed and duplicate constants
dropped.  Pairing replaces the resolved type of an array by that of its elements, so it comes after
resolution.
-/

namespace SdkBindings.Transform

/-- A pass over a header. -/
inductive Pass where
  /-- Removes vendor prefixes. -/
  | normalize
  /-- Gives every type its expression. -/
  | resolve
  /-- Pairs arrays with lengths. -/
  | pair
  /-- Marks pointers without a static type. -/
  | erase
  /-- Decomposes interface identifiers. -/
  | decompose
  /-- Drops duplicate constants. -/
  | dedup
  deriving DecidableEq, Repr

/-- Something noted during a pass. -/
inductive Note where
  /-- A length and its array. -/
  | pairing (p : Pairing)
  /-- A reported entry. -/
  | entry (e : LogEntry)
  deriving DecidableEq, Repr

/-- What a note reports. -/
def Note.logEntry : Note → LogEntry
  | .pairing p => p.entry
  | .entry e => e

/-- Whether a note counts a finished pair. -/
def Note.isPair : Note → Bool
  | .pairing p => p.isComplete
  | .entry _ => false

/-- The same change with other notes. -/
def withNotes {ν : Type} (f : ν → Note) (c : Change TransformError ν Header) :
    Change TransformError Note Header :=
  ⟨c.value, c.notes.map f, c.failure⟩

/-- A pass without notes. -/
def silent (c : Change TransformError Unit Header) : Change TransformError Note Header :=
  ⟨c.value, [], c.failure⟩

/-- Applies one pass. -/
def Pass.apply (prefixes : List String) : Pass → Header → Change TransformError Note Header
  | .normalize, h => .done (normalizeHeader prefixes h)
  | .resolve, h => silent (resolveHeader prefixes h)
  | .pair, h => withNotes .pairing (pairHeader prefixes h)
  | .erase, h => .done (eraseHeader h)
  | .decompose, h => silent (decomposeHeader h)
  | .dedup, h => withNotes .entry (dedupHeader h)

/-- The order in which the passes are applied. -/
def Pass.order : List Pass := [.normalize, .resolve, .pair, .erase, .decompose, .dedup]

/-- Applies passes one after the other, up to a failure. -/
def applyAll (prefixes : List String) : List Pass → Header → Change TransformError Note Header
  | [], h => .done h
  | pass :: rest, h => (pass.apply prefixes h).andThen (applyAll prefixes rest) id

/-- Applies all passes in their order. -/
def transform (prefixes : List String) (h : Header) : Change TransformError Note Header :=
  (applyAll prefixes Pass.order h).andThen
    (fun h => ⟨h, [.entry (debug ("Transformed " ++ h.file))], none⟩) id

/-- The number of finished pairs among notes. -/
def pairCount (notes : List Note) : Nat :=
  notes.countP Note.isPair

/-- The headers of a project in order, up to the first failure. -/
def transformProject (prefixes : List String) (project : Project) :
    Change TransformError Note Project :=
  Change.each (transform prefixes) project

end SdkBindings.Transform
