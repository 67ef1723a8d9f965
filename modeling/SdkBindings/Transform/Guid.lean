import SdkBindings.Numeral.Integer
import SdkBindings.Text.Blank
import SdkBindings.Text.Substring
import SdkBindings.Transform.Change
import SdkBindings.Transform.Error

/-!
# Interface identifiers in their native layout

An identifier is written as `########-####-####-####-############`.  It is decomposed into one part of
32 bits, two of 16 and eight bytes, from the most significant end.  The length and the dashes are
checked first; what is left after taking dashes, braces and two words away has to be a number in base
sixteen with 32 characters.
-/

namespace SdkBindings

open Numeral

/-- The number of characters of a written identifier. -/
def guidLength : Nat := 36

/-- Where a written identifier has its dashes. -/
def guidDashes : List Nat := [8, 13, 18, 23]

/-- Whether a text has the length and the dashes of a written identifier. -/
def isGuidShaped (text : List Char) : Bool :=
  text.length = guidLength && guidDashes.all fun i => text[i]? = some '-'

/-- The digits of a written identifier: the words `urn:` and `uuid:`, braces at both ends and dashes
are taken away. -/
def guidDigits (text : List Char) : List Char :=
  let text := Text.removeAll "uuid:".toList (Text.removeAll "urn:".toList text)
  (Text.strip (fun c => c = '\x7b' || c = '\x7d') text).filter (· ≠ '-')

/-- The parts of a number of 128 bits. -/
def GuidParts.ofNumber (n : Nat) : GuidParts where
  data1 := (n >>> 96 % 0x100000000 : Nat)
  data2 := (n >>> 80 % 0x10000 : Nat)
  data3 := (n >>> 64 % 0x10000 : Nat)
  data4 := [56, 48, 40, 32, 24, 16, 8, 0].map fun shift => ((n >>> shift % 0x100 : Nat) : Int)

/-- Decomposes a written identifier. -/
def decomposeGuid (guid : String) : Except GuidError GuidParts :=
  let text := guid.toList
  if isGuidShaped text then
    let digits := guidDigits text
    if digits.length = 32 then
      match readInteger? 16 digits with
      | some n => .ok (.ofNumber n.toNat)
      | none => .error (.notHexadecimal guid (String.ofList digits))
    else .error (.malformed guid)
  else .error (.notCanonical guid)

/-- The number that the parts make up. -/
def GuidParts.value (parts : GuidParts) : Nat :=
  let bytes := parts.data4.zipIdx.foldl
    (fun n (byte, i) => n ||| byte.toNat <<< (8 * (7 - i))) 0
  parts.data1.toNat <<< 96 ||| parts.data2.toNat <<< 80 ||| parts.data3.toNat <<< 64 ||| bytes

namespace Transform

/-- A struct with the parts of its identifier, if it has one. -/
def decomposeStruct (s : Struct) : Change TransformError Unit Struct :=
  if s.guid = "" then .done s
  else
    match decomposeGuid s.guid with
    | .ok parts => .done { s with guidParts := some parts }
    | .error e => .stopped s (.guid e)

/-- All structs of a header. -/
def decomposeHeader (h : Header) : Change TransformError Unit Header :=
  (Change.each decomposeStruct h.structs).map fun structs => { h with structs }

end Transform

end SdkBindings
