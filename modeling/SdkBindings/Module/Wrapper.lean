import SdkBindings.Declaration.Type
import SdkBindings.Module.Error
import SdkBindings.Module.Line
import SdkBindings.Module.Name
import SdkBindings.PlatformType
import SdkBindings.Transform.Resolve

/-!
# Wrappers of native functions

A wrapper is a function of the generated module that marshals each of its parameters into one slot of
a native call.  How a parameter is passed follows from its annotations, its shape and its type: an
output of a single value is allocated by the wrapper and returned, a length is taken from its array,
an array is built from a sequence, and other parameters are passed by address, by reference or by
value.
-/

namespace SdkBindings.Module

/-! ## Call helpers

The generated module calls native code through helpers with a fixed number of slots.  A call takes
the smallest helper that holds its arguments and fills the remaining slots with zeros.
-/

/-- The sizes of the call helpers. -/
def helperSizes : List Nat := [3, 6, 9, 12]

/-- A call helper and the number of slots a call leaves unused. -/
structure CallHelper where
  /-- Its number of slots. -/
  slots : Nat
  /-- The slots to be filled with zeros. -/
  padding : Nat
  deriving DecidableEq, Repr

/-- The name of a helper in the generated module. -/
def CallHelper.name (helper : CallHelper) : String :=
  "_syscall" ++ toString helper.slots

/-- The smallest helper that holds a number of arguments and is not larger than a limit. -/
def selectHelper (total limit : Int) : Except Error CallHelper :=
  match helperSizes.find? fun (size : Nat) => total ≤ (size : Int) with
  | some size =>
    if (size : Int) ≤ limit then .ok ⟨size, ((size : Int) - total).toNat⟩
    else .error (.tooManyParameters total)
  | none => .error (.tooManyParameters total)

/-! ## How parameters are passed -/

/-- The way a parameter is passed. -/
inductive Passing where
  /-- A variable of a type is allocated and returned. -/
  | output (type : String)
  /-- The length of an array. -/
  | length
  /-- A sequence becomes a native array of a given element type. -/
  | array (type : String)
  /-- An argument that may need a buffer of its own. -/
  | buffered
  /-- The address of the variable that holds a pointer. -/
  | reference
  /-- A sequence becomes a native array of a given type. -/
  | fixedArray (type : String)
  /-- The address of an object. -/
  | address
  /-- A plain value. -/
  | value
  deriving DecidableEq, Repr

/-- Whether a field is an output that the wrapper allocates. -/
def isAllocatedOutput (f : Field) : Bool :=
  f.isOut && !f.isErased && !f.isArray && !f.isLength && f.type.isPointer &&
    Transform.pointerOpening.toList.isPrefixOf f.type.expr.toList

/-- What a pointer expression points to: the text between the opening and the closing parenthesis. -/
def pointee (expr : String) : String :=
  String.ofList (expr.toList.drop Transform.pointerOpening.length).dropLast

/-- Whether a field is a platform type of the size of an address. -/
def isPointerSized (f : Field) : Bool :=
  f.type.shape = .basic && (platformType? f.type.ident).any PlatformType.isPointerSized

/-- How a parameter is passed. -/
def Passing.ofField (f : Field) : Passing :=
  if isAllocatedOutput f then .output (pointee f.type.expr)
  else if f.isLength then .length
  else if f.isArray then .array f.type.expr
  else if isPointerSized f then .buffered
  else if f.isErased && decide (1 < f.type.depth) then .reference
  else if f.type.shape = .array && !f.isErased then .fixedArray f.type.expr
  else if f.isErased || f.type.isPointer || f.type.expr = guidExpr then .address
  else .value

/-- An argument slot of a native call. -/
inductive Slot where
  /-- The address of the receiver. -/
  | receiver
  /-- The address of an allocated output. -/
  | output (name : String)
  /-- The length of a sequence. -/
  | length (name : String)
  /-- The address of an object. -/
  | address (name : String)
  /-- The address of the variable that holds a pointer. -/
  | reference (name : String)
  /-- A plain value. -/
  | value (name : String)
  /-- An unused slot. -/
  | zero
  deriving DecidableEq, Repr

/-- The expression of a slot. -/
def Slot.render : Slot → String
  | .receiver => "self.address()"
  | .output name => "ctypes.addressof(" ++ name ++ ")"
  | .length name => "len(" ++ name ++ " or ())"
  | .address name => "_address_of(" ++ name ++ ")"
  | .reference name => "_reference_of(" ++ name ++ ")"
  | .value name => "_value(" ++ name ++ ")"
  | .zero => "0"

/-- What one parameter adds to a wrapper. -/
structure Marshalled where
  /-- The parameter of the wrapper, unless the wrapper finds the argument itself. -/
  signature : List String
  /-- A local variable and its value. -/
  setup : List (String × String)
  /-- The slot of the call. -/
  slot : Slot
  /-- What the wrapper returns of it. -/
  outputs : List String
  deriving DecidableEq, Repr

/-- Whether a variable of a type gives its value through an attribute. -/
def isSimpleType (enums : List String) (type : String) : Bool :=
  "ctypes.c_".toList.isPrefixOf type.toList || enums.contains type

/-- What a parameter adds to a wrapper; `enums` are the enumerations of the project. -/
def marshal (enums : List String) (f : Field) : Marshalled :=
  let name := safeName f.name
  let returned (object : String) : List String := if f.isOut then [object] else []
  match Passing.ofField f with
  | .output type =>
    ⟨[], [(name, type ++ "()")], .output name,
      [if isSimpleType enums type then name ++ ".value" else name]⟩
  | .length => ⟨[], [], .length name, []⟩
  | .array type =>
    let object := name ++ "_array"
    ⟨[name], [(object, "_array_of(" ++ type ++ ", " ++ name ++ ")")], .address object,
      returned object⟩
  | .buffered =>
    let object := name ++ "_ref"
    ⟨[name], [(object, "_pointer_arg(" ++ name ++ ")")], .address object, []⟩
  | .reference => ⟨[name], [], .reference name, []⟩
  | .fixedArray type =>
    let object := name ++ "_array"
    ⟨[name], [(object, "_fixed_array_of(" ++ type ++ ", " ++ name ++ ")")], .address object,
      returned object⟩
  | .address => ⟨[name], [], .address name, []⟩
  | .value => ⟨[name], [], .value name, []⟩

/-! ## Wrappers -/

/-- What a wrapper does with the result of the native call. -/
inductive ResultUse where
  /-- It is checked for failure. -/
  | checked
  /-- It is dropped. -/
  | dropped
  /-- It is returned. -/
  | returned
  deriving DecidableEq, Repr

/-- What becomes of a result of a type. -/
def ResultUse.ofType (type : String) : ResultUse :=
  if type = "" ∨ type = "HRESULT" then .checked
  else if type = "void" then .dropped
  else .returned

/-- A wrapper as data. -/
structure Wrapper where
  /-- Its name. -/
  name : String
  /-- Its parameters. -/
  signature : List String
  /-- Local variables and their values. -/
  setup : List (String × String)
  /-- The call helper. -/
  helper : CallHelper
  /-- The expression of the address that is called. -/
  target : String
  /-- The number of arguments. -/
  total : Nat
  /-- The slots of the call. -/
  slots : List Slot
  /-- What becomes of the result. -/
  result : ResultUse
  /-- What is returned besides. -/
  outputs : List String
  deriving DecidableEq, Repr

/-- What is wrapped. -/
structure Callable where
  /-- The name of the wrapper. -/
  name : String
  /-- The parameters without the receiver. -/
  parameters : List Field
  /-- The expression of the address that is called. -/
  target : String
  /-- Whether there is a receiver. -/
  hasReceiver : Bool
  /-- The result type. -/
  result : String
  /-- What messages call it. -/
  owner : String

/-- Checks that every parameter has an expression for its type. -/
def checkTypes (owner : String) : List Field → Except Error Unit
  | [] => .ok ()
  | f :: rest => if f.type.expr = "" then .error (.unresolvedType owner f.name) else checkTypes owner rest

/-- The wrapper of a function or method. -/
def Wrapper.of (enums : List String) (limit : Int) (c : Callable) : Except Error Wrapper := do
  let total := c.parameters.length + (if c.hasReceiver then 1 else 0)
  let helper ← selectHelper total limit
  checkTypes c.owner c.parameters
  let parts := c.parameters.map (marshal enums)
  pure {
    name := c.name
    signature := (if c.hasReceiver then ["self"] else []) ++ parts.flatMap Marshalled.signature
    setup := parts.flatMap Marshalled.setup
    helper
    target := c.target
    total
    slots := (if c.hasReceiver then [Slot.receiver] else []) ++ parts.map Marshalled.slot ++
      List.replicate helper.padding .zero
    result := .ofType c.result
    outputs := parts.flatMap Marshalled.outputs }

/-- What a wrapper returns. -/
def Wrapper.returns (w : Wrapper) : List String :=
  if w.result = .returned then "ret" :: w.outputs else w.outputs

/-- The lines of the body of a wrapper. -/
def Wrapper.body (w : Wrapper) : List String :=
  w.setup.map (fun (name, value) => name ++ " = " ++ value) ++
    ["ret = " ++ w.helper.name ++ "(", indentation 1 ++ w.target ++ ",",
      indentation 1 ++ toString w.total ++ ","] ++
    w.slots.map (fun slot => indentation 1 ++ slot.render ++ ",") ++ [")"] ++
    (if w.result = .checked then ["_check(ret)"] else []) ++
    (if w.returns = [] then [] else ["return " ++ ", ".intercalate w.returns])

/-- The lines of a wrapper at a level of indentation. -/
def Wrapper.lines (level : Nat) (w : Wrapper) : List Line :=
  .body level ("def " ++ w.name ++ "(" ++ ", ".intercalate w.signature ++ "):") ::
    w.body.map (.body (level + 1))

end SdkBindings.Module
