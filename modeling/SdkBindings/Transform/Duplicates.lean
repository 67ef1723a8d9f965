import SdkBindings.Log
import SdkBindings.Transform.Change
import SdkBindings.Transform.Error

/-!
# One constant per name

Within a header the first constant of a name stays and later ones are dropped.  A later constant with
another known value is a failure; what came before its enumeration has been dealt with by then.
-/

namespace SdkBindings.Transform

/-- The constants kept so far, by name. -/
abbrev Seen := List (String × Enumerator)

/-- Whether two values are known to differ. -/
def differ (a b : Value) : Bool :=
  a.isResolved && b.isResolved && a.resolve != b.resolve

/-- What is reported about a dropped constant. -/
def droppedEntry (file ident : String) : LogEntry :=
  debug (file ++ ": dropping duplicate enum constant " ++ ident)

/-- The outcome of looking through the constants of one enumeration. -/
structure Kept where
  /-- The constants that stay. -/
  enumerators : List Enumerator
  /-- Everything kept so far. -/
  seen : Seen
  /-- What was reported. -/
  notes : Log
  /-- A redefinition. -/
  failure : Option TransformError

/-- Looks through the constants of the enumeration `enum`. -/
def keepFirst (file enum : String) (seen : Seen) : List Enumerator → Kept
  | [] => ⟨[], seen, [], none⟩
  | c :: rest =>
    match seen.lookup c.ident with
    | none =>
      let k := keepFirst file enum (seen ++ [(c.ident, c)]) rest
      { k with enumerators := c :: k.enumerators }
    | some first =>
      if differ first.value c.value then
        ⟨[], seen, [],
          some (.redefined file c.ident enum c.value.resolve first.value.resolve)⟩
      else
        let k := keepFirst file enum seen rest
        { k with notes := droppedEntry file c.ident :: k.notes }

/-- Looks through enumerations in order; one with a redefinition and all after it stay as they are. -/
def dedupEnums (file : String) (seen : Seen) :
    List Enumeration → Change TransformError LogEntry (List Enumeration)
  | [] => .done []
  | e :: rest =>
    let k := keepFirst file e.ident seen e.enumerators
    match k.failure with
    | some failure => ⟨e :: rest, k.notes, some failure⟩
    | none =>
      let c := dedupEnums file k.seen rest
      ⟨⟨e.ident, k.enumerators⟩ :: c.value, k.notes ++ c.notes, c.failure⟩

/-- All enumerations of a header. -/
def dedupHeader (h : Header) : Change TransformError LogEntry Header :=
  (dedupEnums h.file [] h.enums).map fun enums => { h with enums }

end SdkBindings.Transform
