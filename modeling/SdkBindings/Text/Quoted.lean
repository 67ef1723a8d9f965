import SdkBindings.Text.Hexadecimal
import SdkBindings.Text.Printable

/-!
# Quoted text in messages

A message shows a text it talks about between quotation marks, on one line and with everything
invisible spelled out.  Single marks are used unless the text holds a single mark and no double
one.  The mark in use and the backslash are escaped, tab, line feed and carriage return have short
escapes, and any other character that is not printable is written by its number in the shortest of
three widths.
-/

namespace SdkBindings.Text.Quoted

/-- The mark put around a text. -/
def mark (text : List Char) : Char :=
  if '\'' ∈ text ∧ '"' ∉ text then '"' else '\''

/-- How one character appears between two marks. -/
def escape (mark c : Char) : List Char :=
  if c = mark ∨ c = '\\' then ['\\', c]
  else if c = '\t' then ['\\', 't']
  else if c = '\n' then ['\\', 'n']
  else if c = '\r' then ['\\', 'r']
  else if isPrintable c then [c]
  else if c.toNat < 0x100 then '\\' :: 'x' :: hexDigits 2 c.toNat
  else if c.toNat < 0x10000 then '\\' :: 'u' :: hexDigits 4 c.toNat
  else '\\' :: 'U' :: hexDigits 8 c.toNat

/-- The quoted form as characters. -/
def encode (text : List Char) : List Char :=
  mark text :: text.flatMap (escape (mark text)) ++ [mark text]

end SdkBindings.Text.Quoted

namespace SdkBindings.Text

/-- The quoted form of a text. -/
def quote (text : String) : String :=
  String.ofList (Quoted.encode text.toList)

example : quote "a\nb" = "'a\\nb'" ∧ quote "it's" = "\"it's\"" ∧ quote "\ufeff" = "'\\ufeff'" := by
  decide +kernel

end SdkBindings.Text
