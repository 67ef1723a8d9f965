import SdkBindings.Host
import SdkBindings.Text.Hexadecimal

/-!
# Reading and writing UTF-8

Header bytes are decoded as UTF-8.  Bytes that are not UTF-8 never stop the reading: every longest
run of bytes that starts a character but cannot be completed, and every byte that starts none,
becomes one replacement character U+FFFD.  Line ends are then made uniform, so that a carriage
return, alone or before a line feed, reads as a line feed.

A text is written as UTF-8 as a whole or not at all: if it holds characters that stand for stray bytes,
the first of them in a row are told instead.
-/

namespace SdkBindings.Text.Utf8

/-- A character under way: how many bytes are owed, which range the next one must lie in, and the
bits read so far. -/
structure Pending where
  /-- Continuation bytes still owed, at least one. -/
  owed : Nat
  /-- The least value the next byte may have. -/
  low : Nat
  /-- The greatest value the next byte may have. -/
  high : Nat
  /-- The bits read so far. -/
  bits : Nat
  deriving DecidableEq, Repr

/-- What stands for bytes that are not UTF-8. -/
def replacement : Char := '\ufffd'

/-- The effect of a byte read between characters: the characters it completes and what it starts.
The narrower ranges after `E0`, `ED`, `F0` and `F4` rule out overlong forms, surrogates and numbers
past the last code point. -/
def first (b : Nat) : List Char × Option Pending :=
  if b < 0x80 then ([Char.ofNat b], none)
  else if 0xC2 ≤ b ∧ b ≤ 0xDF then ([], some ⟨1, 0x80, 0xBF, b - 0xC0⟩)
  else if b = 0xE0 then ([], some ⟨2, 0xA0, 0xBF, 0⟩)
  else if b = 0xED then ([], some ⟨2, 0x80, 0x9F, 0xD⟩)
  else if 0xE1 ≤ b ∧ b ≤ 0xEF then ([], some ⟨2, 0x80, 0xBF, b - 0xE0⟩)
  else if b = 0xF0 then ([], some ⟨3, 0x90, 0xBF, 0⟩)
  else if 0xF1 ≤ b ∧ b ≤ 0xF3 then ([], some ⟨3, 0x80, 0xBF, b - 0xF0⟩)
  else if b = 0xF4 then ([], some ⟨3, 0x80, 0x8F, 4⟩)
  else ([replacement], none)

/-- The effect of a byte: it continues the pending character, or that character is given up and
the byte starts afresh. -/
def step (pending : Option Pending) (b : Nat) : List Char × Option Pending :=
  match pending with
  | none => first b
  | some p =>
    if p.low ≤ b ∧ b ≤ p.high then
      let bits := p.bits * 64 + (b - 0x80)
      if p.owed ≤ 1 then ([Char.ofNat bits], none)
      else ([], some ⟨p.owed - 1, 0x80, 0xBF, bits⟩)
    else
      let (chars, next) := first b
      (replacement :: chars, next)

/-- Decodes from a given point; a character left unfinished at the end is replaced. -/
def decodeFrom : Option Pending → List UInt8 → List Char
  | none, [] => []
  | some _, [] => [replacement]
  | pending, b :: rest =>
    let (chars, next) := step pending b.toNat
    chars ++ decodeFrom next rest

/-- The characters of a sequence of bytes. -/
def decode (bytes : List UInt8) : List Char :=
  decodeFrom none bytes

example : decode [0x61, 0xC3, 0xA9, 0xFF, 0xE2, 0x82, 0x62] = ['a', 'é', '\ufffd', '\ufffd', 'b'] ∧
    decode [0xED, 0xA0, 0x80] = ['\ufffd', '\ufffd', '\ufffd'] ∧
    decode [0xF0, 0x9F, 0x98, 0x80] = ['😀'] := by decide +kernel

end SdkBindings.Text.Utf8

namespace SdkBindings.Text

/-- Every line end as a single line feed. -/
def unifyLineEnds : List Char → List Char
  | '\r' :: '\n' :: rest => '\n' :: unifyLineEnds rest
  | '\r' :: rest => '\n' :: unifyLineEnds rest
  | c :: rest => c :: unifyLineEnds rest
  | [] => []

/-- The text of a header's bytes. -/
def readText (bytes : List UInt8) : String :=
  String.ofList (unifyLineEnds (Utf8.decode bytes))

/-- The bytes of a text. -/
def bytes (text : String) : List UInt8 :=
  text.toUTF8.toList

/-! ## Texts that cannot be written -/

/-- Characters of a text that stand for stray bytes, in a row. -/
structure Stray where
  /-- The position of the first of them. -/
  position : Nat
  /-- The bytes they stand for, at least one. -/
  bytes : List UInt8
  deriving DecidableEq, Repr

/-- The characters as a message. -/
def Stray.message (s : Stray) : String :=
  let place := match s.bytes with
    | [b] =>
      "character '\\udc" ++ String.ofList (hexDigits 2 b.toNat) ++ "' in position " ++ toString s.position
    | bytes =>
      "characters in position " ++ toString s.position ++ "-" ++
        toString (s.position + bytes.length - 1)
  "'utf-8' codec can't encode " ++ place ++ ": surrogates not allowed"

/-- The first stray characters of a text, from a position on. -/
def strayFrom [Host] (position : Nat) : List Char → Option Stray
  | [] => none
  | c :: rest =>
    match Host.strayByte? c with
    | none => strayFrom (position + 1) rest
    | some b =>
      some ⟨position, b :: ((rest.map Host.strayByte?).takeWhile Option.isSome).filterMap id⟩

/-- The bytes of a text, if it holds no stray characters. -/
def encode [Host] (text : String) : Except Stray (List UInt8) :=
  match strayFrom 0 text.toList with
  | some s => .error s
  | none => .ok (bytes text)

/-- A text read with uniform line ends holds no carriage return. -/
theorem not_mem_unifyLineEnds (text : List Char) : '\r' ∉ unifyLineEnds text := by
  fun_induction unifyLineEnds text with
  | case1 rest ih => simpa using ih
  | case2 rest _ ih => simpa using ih
  | case3 c rest _ h ih =>
    simp only [List.mem_cons, not_or]
    exact ⟨fun hc => h hc.symm, ih⟩
  | case4 => simp

end SdkBindings.Text
