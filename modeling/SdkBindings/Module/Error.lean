import SdkBindings.Token.Basic

/-!
# Why a module cannot be written

The declarations handed over are incomplete, or a call needs more slots than there are.
-/

namespace SdkBindings.Module

/-- Why a module cannot be written. -/
inductive Error where
  /-- A struct has nothing to lay out. -/
  | noFields (ident : String)
  /-- An interface identifier has not been decomposed. -/
  | guidNotDecomposed (ident : String)
  /-- A method does not take its receiver first. -/
  | noReceiver (method : String)
  /-- No call helper has enough slots. -/
  | tooManyParameters (total : Int)
  /-- A type has no expression. -/
  | unresolvedType (owner parameter : String)
  /-- The text of a constant cannot be cut into tokens. -/
  | expression (e : SyntaxError)
  deriving DecidableEq, Repr

/-- The error as a message. -/
def Error.message : Error → String
  | .noFields ident => "Found struct with no fields: " ++ ident
  | .guidNotDecomposed ident => "GUID of " ++ ident ++ " was not decomposed"
  | .noReceiver method => "Expected first parameter of " ++ method ++ " to be This"
  | .tooManyParameters total => "Parameter count too big: " ++ toString total
  | .unresolvedType owner parameter =>
    "Expecting a resolved type for " ++ owner ++ " parameter " ++ parameter
  | .expression e => e.message

end SdkBindings.Module
