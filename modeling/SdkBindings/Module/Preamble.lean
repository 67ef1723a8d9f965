/-!
# The run-time part of a generated module

Every generated module starts with the same support code, which needs nothing but the foreign
function library: loading the native library, calling through an address with a fixed number of
slots, and marshalling arguments.
-/

namespace SdkBindings.Module

/-- The lines of the support code; the last one is empty, so that the text ends a line. -/
def preambleLines : List String :=
  ["_dll = None",
   "_procs = \x7b\x7d",
   "",
   "# stdcall on 32-bit Windows, the platform convention elsewhere",
   "_FUNCTYPE = getattr(ctypes, \"WINFUNCTYPE\", ctypes.CFUNCTYPE)",
   "_prototypes = \x7b\x7d",
   "",
   "_SLOT_MASK = (1 << (8 * ctypes.sizeof(ctypes.c_size_t))) - 1",
   "",
   "",
   "# Failure code -> constant name, filled once the module's constants exist",
   "_HRESULT_NAMES = \x7b\x7d",
   "",
   "",
   "class HResultError(Exception):",
   "    \"\"\"A call returned a failing HRESULT; ``code`` is its signed value.",
   "",
   "    ``name`` is the module constant with that value, or None.",
   "    \"\"\"",
   "",
   "    def __init__(self, code):",
   "        self.code = code",
   "        self.name = _HRESULT_NAMES.get(ctypes.c_int32(code).value)",
   "        message = f\"HRESULT 0x\x7bcode & 0xFFFFFFFF:08X\x7d\"",
   "        if self.name is not None:",
   "            message = f\"\x7bmessage\x7d (\x7bself.name\x7d)\"",
   "        super().__init__(message)",
   "",
   "",
   "def _register_hresults(namespace):",
   "    for name, value in list(namespace.items()):",
   "        if name.isupper() and type(value) is int and -0x80000000 <= value < 0:",
   "            _HRESULT_NAMES.setdefault(value, name)",
   "",
   "",
   "def _check(ret):",
   "    code = ctypes.c_int32(ret).value",
   "    if code < 0:",
   "        raise HResultError(code)",
   "    return code",
   "",
   "",
   "class Bindable:",
   "    \"\"\"Exposes the address native code receives for a bound object.\"\"\"",
   "",
   "    def address(self):",
   "        return ctypes.addressof(self)",
   "",
   "",
   "def _load():",
   "    global _dll",
   "    if _dll is None:",
   "        loader = getattr(ctypes, \"WinDLL\", ctypes.CDLL)",
   "        _dll = loader(_DLL_NAME)",
   "    return _dll",
   "",
   "",
   "def _proc(name):",
   "    address = _procs.get(name)",
   "    if address is None:",
   "        address = ctypes.cast(getattr(_load(), name), ctypes.c_void_p).value",
   "        _procs[name] = address",
   "    return address",
   "",
   "",
   "def _prototype(nargs):",
   "    prototype = _prototypes.get(nargs)",
   "    if prototype is None:",
   "        prototype = _FUNCTYPE(ctypes.c_size_t, *([ctypes.c_size_t] * nargs))",
   "        _prototypes[nargs] = prototype",
   "    return prototype",
   "",
   "",
   "def _call(trap, nargs, slots):",
   "    if not trap:",
   "        raise ValueError(\"Call through a null function pointer\")",
   "    # Callees pop exactly their own arguments, so padding slots are not passed",
   "    return _prototype(nargs)(trap)(*slots[:nargs])",
   "",
   "",
   "def _syscall3(trap, nargs, a1, a2, a3):",
   "    return _call(trap, nargs, (a1, a2, a3))",
   "",
   "",
   "def _syscall6(trap, nargs, a1, a2, a3, a4, a5, a6):",
   "    return _call(trap, nargs, (a1, a2, a3, a4, a5, a6))",
   "",
   "",
   "def _syscall9(trap, nargs, a1, a2, a3, a4, a5, a6, a7, a8, a9):",
   "    return _call(trap, nargs, (a1, a2, a3, a4, a5, a6, a7, a8, a9))",
   "",
   "",
   "def _syscall12(trap, nargs, a1, a2, a3, a4, a5, a6, a7, a8, a9, a10, a11, a12):",
   "    return _call(trap, nargs, (a1, a2, a3, a4, a5, a6, a7, a8, a9, a10, a11, a12))",
   "",
   "",
   "def _address_of(value):",
   "    \"\"\"Raw address of a bound object, ctypes instance or pointer.\"\"\"",
   "    if value is None:",
   "        return 0",
   "    if isinstance(value, int):",
   "        return value",
   "    if isinstance(value, Bindable):",
   "        return value.address()",
   "    if isinstance(value, bytes):",
   "        return ctypes.cast(ctypes.c_char_p(value), ctypes.c_void_p).value",
   "    if isinstance(value, (ctypes._Pointer, ctypes.c_void_p, ctypes.c_char_p, ctypes.c_wchar_p)):",
   "        return ctypes.cast(value, ctypes.c_void_p).value or 0",
   "    try:",
   "        return ctypes.addressof(value)",
   "    except TypeError:",
   "        raise TypeError(f\"Cannot pass \x7btype(value).__name__\x7d by address\") from None",
   "",
   "",
   "def _reference_of(value):",
   "    \"\"\"Address of the variable itself, for pointers the callee writes through.\"\"\"",
   "    if value is None:",
   "        return 0",
   "    if isinstance(value, int):",
   "        return value",
   "    if isinstance(value, Bindable):",
   "        return value.address()",
   "    return ctypes.addressof(value)",
   "",
   "",
   "def _pointer_arg(value):",
   "    \"\"\"Keeps a wide string buffer alive for the duration of a call.\"\"\"",
   "    if isinstance(value, str):",
   "        return ctypes.create_unicode_buffer(value)",
   "    return value",
   "",
   "",
   "def _value(value):",
   "    \"\"\"A plain argument as a call slot; floats travel as their 32-bit pattern.\"\"\"",
   "    if value is None:",
   "        return 0",
   "    if isinstance(value, float):",
   "        return ctypes.c_uint32.from_buffer(ctypes.c_float(value)).value",
   "    if isinstance(value, ctypes._SimpleCData):",
   "        return _value(value.value)",
   "    return int(value) & _SLOT_MASK",
   "",
   "",
   "def _array_of(element_type, items):",
   "    \"\"\"Contiguous native array built from a Python sequence.\"\"\"",
   "    if items is None or isinstance(items, ctypes.Array):",
   "        return items",
   "    if issubclass(element_type, (ctypes._Pointer, ctypes.c_void_p, ctypes.c_char_p)):",
   "        return (ctypes.c_void_p * len(items))(*[_address_of(item) for item in items])",
   "    return (element_type * len(items))(*items)",
   "",
   "",
   "def _fixed_array_of(array_type, items):",
   "    \"\"\"Native array of a declared length; missing trailing items are zero.\"\"\"",
   "    if items is None or isinstance(items, ctypes.Array):",
   "        return items",
   "    if len(items) > array_type._length_:",
   "        raise ValueError(f\"Expected at most \x7barray_type._length_\x7d items, got \x7blen(items)\x7d\")",
   "    element_type = array_type._type_",
   "    if issubclass(element_type, (ctypes._Pointer, ctypes.c_void_p, ctypes.c_char_p)):",
   "        return (ctypes.c_void_p * array_type._length_)(*[_address_of(item) for item in items])",
   "    return array_type(*items)",
   ""]

/-- The support code as one text. -/
def preamble : String :=
  "\n".intercalate preambleLines

end SdkBindings.Module
