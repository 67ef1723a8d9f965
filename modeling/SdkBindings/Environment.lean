import SdkBindings.Numeral.Integer
import SdkBindings.Text.Split

/-!
# Environment and settings

The program is tuned by variables of its environment.  Lists are written with commas, a flag is set
by `true`, `1` or `yes` in any case, and a number that cannot be read leaves its default in place.
-/

namespace SdkBindings

/-- The variables of an environment; of two with one name the first counts. -/
abbrev Environment := List (String × String)

namespace Text

/-- Whether a flag is set. -/
def isSetFlag (text : String) : Bool :=
  ["true", "1", "yes"].contains text.toLower

end Text

/-- What the environment can tune in the stages of a run. -/
structure Settings where
  /-- Prefixes removed from identifiers, in this order. -/
  stripPrefixes : List String
  /-- The directory of dumps, below the output directory. -/
  dumpDirectory : String
  /-- The indentation of dumps. -/
  dumpIndent : Int
  /-- The largest call helper the generated module may use. -/
  maxCallSlots : Int
  /-- Whether an interface identifier without a struct is a failure. -/
  strictGuids : Bool
  deriving DecidableEq, Repr

namespace Settings

/-- The settings of an environment that says nothing. -/
def default : Settings where
  stripPrefixes := ["ID3D11", "D3D11_", "D3D11", "D3D_"]
  dumpDirectory := "data"
  dumpIndent := 2
  maxCallSlots := 12
  strictGuids := false

/-- A number from a variable, or its default. -/
def readNumber (env : Environment) (name : String) (default : Int) : Int :=
  ((env.lookup name).bind fun text => Numeral.decimalInteger? text.toList).getD default

/-- The settings of an environment. -/
def ofEnvironment (env : Environment) : Settings where
  stripPrefixes := ((env.lookup "BINDGEN_STRIP_PREFIXES").map Text.splitList).getD default.stripPrefixes
  dumpDirectory := (env.lookup "BINDGEN_DUMP_DIR").getD default.dumpDirectory
  dumpIndent := readNumber env "BINDGEN_DUMP_INDENT" default.dumpIndent
  maxCallSlots := readNumber env "BINDGEN_MAX_CALL_SLOTS" default.maxCallSlots
  strictGuids := ((env.lookup "BINDGEN_STRICT_GUIDS").map Text.isSetFlag).getD default.strictGuids

end Settings

end SdkBindings
