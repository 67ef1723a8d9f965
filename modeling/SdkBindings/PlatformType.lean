/-!
# Types of the platform

The types that headers use without declaring them, with the expression that the generated module
uses and their native size in bytes; `ptr` stands for the size of an address.
-/

namespace SdkBindings

/-- What is known of a platform type. -/
structure PlatformType where
  /-- The expression of the generated module. -/
  expr : String
  /-- The native size. -/
  size : String
  deriving DecidableEq, Repr

/-- Whether the type has the size of an address and is passed as one. -/
def PlatformType.isPointerSized (t : PlatformType) : Bool :=
  t.size = "ptr"

/-- The expression of an untyped address. -/
def voidPointer : String := "ctypes.c_void_p"

/-- The expression of an unsigned integer of 32 bits, which enumerations are as well. -/
def uint32Expr : String := "ctypes.c_uint32"

/-- The name under which the generated module declares interface identifiers. -/
def guidExpr : String := "GUID"

/-- The platform types. -/
def platformTypes : List (String × PlatformType) :=
  [("REFGUID", ⟨voidPointer, "ptr"⟩),
   ("REFIID", ⟨voidPointer, "ptr"⟩),
   ("INT", ⟨"ctypes.c_int32", "4"⟩),
   ("int", ⟨"ctypes.c_int32", "4"⟩),
   ("UINT", ⟨uint32Expr, "4"⟩),
   ("UINT8", ⟨"ctypes.c_uint8", "1"⟩),
   ("UINT16", ⟨"ctypes.c_uint16", "2"⟩),
   ("UINT64", ⟨"ctypes.c_uint64", "8"⟩),
   ("INT8", ⟨"ctypes.c_int8", "1"⟩),
   ("INT16", ⟨"ctypes.c_int16", "2"⟩),
   ("INT64", ⟨"ctypes.c_int64", "8"⟩),
   ("BYTE", ⟨"ctypes.c_ubyte", "1"⟩),
   ("BOOLEAN", ⟨"ctypes.c_ubyte", "1"⟩),
   ("char", ⟨"ctypes.c_char", "1"⟩),
   ("BOOL", ⟨"ctypes.c_int32", "4"⟩),
   ("GUID", ⟨guidExpr, "16"⟩),
   ("RECT", ⟨"Rect", "16"⟩),
   ("FLOAT", ⟨"ctypes.c_float", "4"⟩),
   ("float", ⟨"ctypes.c_float", "4"⟩),
   ("double", ⟨"ctypes.c_double", "8"⟩),
   ("WORD", ⟨"ctypes.c_uint16", "2"⟩),
   ("USHORT", ⟨"ctypes.c_uint16", "2"⟩),
   ("WCHAR", ⟨"ctypes.c_uint16", "2"⟩),
   ("DWORD", ⟨uint32Expr, "4"⟩),
   ("ULONG", ⟨uint32Expr, "4"⟩),
   ("LONG", ⟨"ctypes.c_int32", "4"⟩),
   ("HRESULT", ⟨"ctypes.c_int32", "4"⟩),
   ("LARGE_INTEGER", ⟨"ctypes.c_int64", "8"⟩),
   ("LUID", ⟨"ctypes.c_int64", "8"⟩),
   ("ENUM", ⟨uint32Expr, "4"⟩),
   ("SIZE_T", ⟨"ctypes.c_size_t", "ptr"⟩),
   ("UINT_PTR", ⟨"ctypes.c_size_t", "ptr"⟩),
   ("ULONG_PTR", ⟨"ctypes.c_size_t", "ptr"⟩),
   ("LPSTR", ⟨"ctypes.c_char_p", "ptr"⟩),
   ("LPCSTR", ⟨"ctypes.c_char_p", "ptr"⟩),
   ("LPCWSTR", ⟨"ctypes.c_wchar_p", "ptr"⟩),
   ("LPVOID", ⟨voidPointer, "ptr"⟩),
   ("LPCVOID", ⟨voidPointer, "ptr"⟩),
   ("HANDLE", ⟨voidPointer, "ptr"⟩),
   ("HDC", ⟨voidPointer, "ptr"⟩),
   ("IUnknown", ⟨voidPointer, "ptr"⟩)]

/-- The platform type of a name; declared types are none. -/
def platformType? (name : String) : Option PlatformType :=
  platformTypes.lookup name

/-- Types whose first indirection has an expression of its own. -/
def pointerShortcut? (name : String) : Option String :=
  if name = "void" then some voidPointer
  else if name = "char" then some "ctypes.c_char_p"
  else none

end SdkBindings
