import SdkBindings.Constant.Error
import SdkBindings.Text.Quoted

/-!
# Why declarations cannot be brought into shape

A pass stops at a declaration it has no rule for.
-/

namespace SdkBindings

/-- Why an interface identifier cannot be decomposed. -/
inductive GuidError where
  /-- It has not the length, or not the dashes, of the written form. -/
  | notCanonical (guid : String)
  /-- It does not have 32 digits. -/
  | malformed (guid : String)
  /-- Its digits are no number in base sixteen. -/
  | notHexadecimal (guid digits : String)
  deriving DecidableEq, Repr

/-- The error as a message. -/
def GuidError.message : GuidError → String
  | .notCanonical guid => "GUID is not in canonical form: " ++ Text.quote guid
  | .malformed guid =>
    "Invalid GUID " ++ Text.quote guid ++ ": badly formed hexadecimal UUID string"
  | .notHexadecimal guid digits =>
    "Invalid GUID " ++ Text.quote guid ++ ": " ++ Constant.Error.invalidIntegerMessage 16 digits

/-- Why a pass stops. -/
inductive TransformError where
  /-- A pointer without a type it points to. -/
  | noInnerType (ident : String)
  /-- An array parameter with more indirections than there is a rule for. -/
  | pointerDepth (owner : String) (depth : Int) (parameter : String)
  /-- An interface identifier that cannot be decomposed. -/
  | guid (e : GuidError)
  /-- A constant that is defined twice with different values. -/
  | redefined (file ident enum new old : String)
  deriving DecidableEq, Repr

/-- The error as a message. -/
def TransformError.message : TransformError → String
  | .noInnerType ident => "Pointer type " ++ ident ++ " has no inner type"
  | .pointerDepth owner depth parameter =>
    owner ++ ": unhandled pointer depth " ++ toString depth ++ " for array parameter " ++ parameter
  | .guid e => e.message
  | .redefined file ident enum new old =>
    file ++ ": enum constant " ++ ident ++ " in " ++ enum ++ " redefined as " ++ new ++
      " (first defined as " ++ old ++ ")"

end SdkBindings
