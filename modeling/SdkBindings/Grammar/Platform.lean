import SdkBindings.Grammar.Headers

/-!
# Declarations of the platform

A few declarations are used by the headers without being declared in any of them.  They are kept as
header text and read like a header, the first of every project.
-/

namespace SdkBindings.Grammar

/-- The name under which the declarations of the platform appear. -/
def platformFile : String := "builtin.h"

/-- The declarations of the platform. -/
def platformSource : String := "\n".intercalate [
  "#define E_INVALIDARG -2147024809",
  "",
  "typedef struct GUID \x7b",
  "    DWORD Data1;",
  "    WORD Data2;",
  "    WORD Data3;",
  "    BYTE Data4[8];",
  "\x7d GUID;",
  "",
  "typedef struct Rect \x7b",
  "    LONG Left;",
  "    LONG Top;",
  "    LONG Right;",
  "    LONG Bottom;",
  "\x7d Rect;",
  "",
  "typedef UINT_PTR HWND;",
  "typedef UINT_PTR HMODULE;",
  "typedef LPVOID ID3DInclude;",
  ""]

/-- Reads the declarations of the platform in a session. -/
def readPlatform [Host] (strict : Bool) (session : Session) : Except Failure Header × Session :=
  readHeader strict platformFile platformSource session

end SdkBindings.Grammar
