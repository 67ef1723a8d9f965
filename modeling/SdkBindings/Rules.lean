/-!
# Rules by name

The headers are read with a handful of rules that go by names: which macros are no constants, which
parameters carry the length of a neighbouring array, and which pointers give up their static type.
They stand together here so that they can be checked at a glance.
-/

namespace SdkBindings.Rules

/-! ## Macros that are no constants -/

/-- Macros that are left out by name: paths of libraries, and a pointer cast used as a sentinel. -/
def skippedMacros : List String :=
  ["D3DCOMPILER_DLL_W", "D3DCOMPILER_DLL_A", "D3DCOMPILER_DLL", "D3D_COMPILE_STANDARD_FILE_INCLUDE"]

/-- How the names of version guards end. -/
def versionGuardSuffix : String := "_H_VERSION__"

/-- Whether a name is that of a version guard. -/
def isVersionGuard (ident : String) : Bool :=
  versionGuardSuffix.toList.isSuffixOf ident.toList

/-- Whether a macro is left out: by name, as a version guard, or because it stands for itself. -/
def isSkippedMacro (ident : String) (body : List String) : Bool :=
  skippedMacros.contains ident || isVersionGuard ident || body = [ident]

/-! ## Lengths of arrays -/

/-- On which side of its length an array stands. -/
inductive Side where
  /-- Right after the length. -/
  | next
  /-- Right before the length. -/
  | previous
  deriving DecidableEq, Repr

/-- Where the array stands whose length a parameter of this name may carry. -/
def arrayOf? (parameter : String) : Option Side :=
  if "Num".toList.isPrefixOf parameter.toList then some .next
  else if parameter = "FeatureLevels" then some .previous
  else none

/-! ## Pointers without a static type -/

/-- The types that a pointer of depth two may not fix. -/
def erasedAtDepthTwo : List String := ["void", "IUnknown"]

/-- The base interfaces in whose place any derived one may be passed. -/
def erasedAtDepthOne : List String :=
  ["ID3D11Resource", "ID3D11View", "ID3D11Asynchronous", "IDXGIObject", "IDXGIResource"]

/-- Whether a pointer of a depth to a type gives up its static type. -/
def isErasedPointer (ident : String) (depth : Int) : Bool :=
  (depth = 2 && erasedAtDepthTwo.contains ident) || (depth = 1 && erasedAtDepthOne.contains ident)

end SdkBindings.Rules
