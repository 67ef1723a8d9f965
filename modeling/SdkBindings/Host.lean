/-!
# What a host refuses

A host sets limits that the text of a run does not show.  Integers are of any size, but the host may
refuse to read a decimal integer with very many digits, and it may lack the room for an integer that a
shift to the left would make.  Texts from outside may hold bytes that are no UTF-8: such a stray byte is
kept as a character, which stands for it until the text is written again and is refused then.

What a host refuses is a parameter; it appears where such an integer is read or made, or where a text is
encoded, and nowhere else.  A host of which nothing is said refuses nothing.
-/

namespace SdkBindings

/-- The host of a run. -/
class Host where
  /-- The most digits that a decimal integer may have to be read, if there is a limit. -/
  digitLimit? : Option Nat
  /-- Whether there is room for a word that is shifted to the left by a count, nothing cut off. -/
  hasRoom : (word count : Nat) → Bool
  /-- The byte that a character stands for, if it stands for a stray one. -/
  strayByte? : Char → Option UInt8

namespace Host

/-- A host that refuses nothing. -/
instance unlimited : Host := ⟨none, fun _ _ => true, fun _ => none⟩

/-- Whether a host reads decimal integers with a number of digits. -/
def reads [Host] (size : Nat) : Bool :=
  digitLimit?.all fun limit => size ≤ limit

end Host

end SdkBindings
