import Mathlib.Data.List.Basic
import SdkBindings.Grammar.Headers
import SdkBindings.Module.Generate
import SdkBindings.Proofs.Numeral.Hexadecimal

/-!
# Texts in a generated module

A constant that stands for a text is written as a literal of the generated language, whose characters
are those that the text has in JSON.  Read back by the rules of that language (`literalCodes?`), where
each escape stands for one code point, the literal gives the UTF-16 units of the text
(`literalCodes?_quote`).  These are its code points unless the text has a character past U+FFFF, which
is written as two surrogates and read as two characters (`assignment_text`).
-/

namespace SdkBindings

open Text Constant

namespace Module

/-! ## Literals of the generated language -/

/-- The letters behind a backslash, with the code points that they stand for. -/
def shortEscapes : List (Char × Nat) :=
  [('\\', 0x5C), ('"', 0x22), ('b', 0x08), ('f', 0x0C), ('n', 0x0A), ('r', 0x0D), ('t', 0x09)]

/-- The code points of a literal after its opening mark.  The closing mark has to be at the end, four
hexadecimal digits stand for one code point, and no line ends in a literal. -/
def closedCodes? : List Char → Option (List Nat)
  | [] => none
  | ['"'] => some []
  | '\\' :: 'u' :: i :: j :: k :: l :: rest =>
    if [i, j, k, l].all isHexDigit then
      (closedCodes? rest).map (digitsNumber 16 hexValue? [i, j, k, l] :: ·)
    else none
  | '\\' :: l :: rest => (shortEscapes.lookup l).bind fun n => (closedCodes? rest).map (n :: ·)
  | c :: rest =>
    if c ∈ ['"', '\\', '\n', '\r'] then none else (closedCodes? rest).map (c.toNat :: ·)

/-- The code points of a literal. -/
def literalCodes? : List Char → Option (List Nat)
  | '"' :: rest => closedCodes? rest
  | _ => none

/-- The units of a character in UTF-16: itself, or two surrogates. -/
def utf16 (c : Char) : List Nat :=
  if c.toNat < 0x10000 then [c.toNat]
  else [0xD800 + (c.toNat - 0x10000) / 0x400, 0xDC00 + (c.toNat - 0x10000) % 0x400]

/-! ## Reading what is written -/

/-- A number below the fourth power of sixteen has four digits, which write it. -/
theorem exists_hexDigits {n : Nat} (h : n < 0x10000) :
    ∃ i j k l, hexDigits 4 n = [i, j, k, l] ∧ [i, j, k, l].all isHexDigit = true ∧
      digitsNumber 16 hexValue? [i, j, k, l] = n := by
  have hwrites : WritesHex (hexDigits 4 n) n := (writesHex_toDigits n).zeros _
  obtain ⟨-, hall, hnumber⟩ := hwrites.digitsNumber
  have hlength : (hexDigits 4 n).length = 4 := by
    have hshort : (Nat.toDigits 16 n).length ≤ 4 :=
      (Nat.length_toDigits_le_iff (by decide) (by decide)).mpr h
    rw [hexDigits, List.leftpad, List.length_append, List.length_replicate]
    omega
  obtain ⟨i, j, k, l, hdigits⟩ := List.length_eq_four.mp hlength
  rw [hdigits] at hall hnumber
  exact ⟨i, j, k, l, hdigits, List.all_eq_true.mpr hall, hnumber⟩

/-- One unit is read as one code point. -/
theorem closedCodes?_unitEscape {n : Nat} (h : n < 0x10000) (rest : List Char) :
    closedCodes? (Json.unitEscape n ++ rest) = (closedCodes? rest).map (n :: ·) := by
  obtain ⟨i, j, k, l, hdigits, hall, hnumber⟩ := exists_hexDigits h
  rw [Json.unitEscape, hdigits]
  show closedCodes? ('\\' :: 'u' :: i :: j :: k :: l :: rest) = _
  rw [closedCodes?, if_pos hall, hnumber]

/-- A character is read as its units. -/
theorem closedCodes?_escapeChar (c : Char) (rest : List Char) :
    closedCodes? (Json.escapeChar c ++ rest) = (closedCodes? rest).map (utf16 c ++ ·) := by
  by_cases hnamed : c ∈ ['"', '\\', '\n', '\r', '\t', '\x0c', '\x08']
  · simp only [List.mem_cons, List.not_mem_nil, or_false] at hnamed
    rcases hnamed with rfl | rfl | rfl | rfl | rfl | rfl | rfl <;> rfl
  simp only [List.mem_cons, List.not_mem_nil, or_false, not_or] at hnamed
  obtain ⟨hquote, hbackslash, hline, hreturn, htab, hfeed, hback⟩ := hnamed
  rw [Json.escapeChar, if_neg hquote, if_neg hbackslash, if_neg hline, if_neg hreturn, if_neg htab,
    if_neg hfeed, if_neg hback]
  split
  · have hother : c ∉ ['"', '\\', '\n', '\r'] := by
      simp [hquote, hbackslash, hline, hreturn]
    rw [List.singleton_append, closedCodes?, if_neg hother, utf16, if_pos (by omega)]
    · rfl
    · exact fun h => absurd h hquote
    · exact fun _ _ _ _ _ h => absurd h hbackslash
    · exact fun _ _ h => absurd h hbackslash
  split
  · rw [closedCodes?_unitEscape ‹_›, utf16, if_pos ‹_›]
    rfl
  · have hlt := toNat_lt c
    rw [List.append_assoc, closedCodes?_unitEscape (by omega), closedCodes?_unitEscape (by omega), utf16,
      if_neg ‹_›, Option.map_map]
    rfl

/-- A literal is read as the units of its text. -/
theorem literalCodes?_quote (text : String) :
    literalCodes? (Json.quote text) = some (text.toList.flatMap utf16) := by
  have hclosed (chars : List Char) :
      closedCodes? (chars.flatMap Json.escapeChar ++ ['"']) = some (chars.flatMap utf16) := by
    induction chars with
    | nil => rfl
    | cons c chars ih =>
      rw [List.flatMap_cons, List.append_assoc, closedCodes?_escapeChar, ih, List.flatMap_cons]
      rfl
  exact hclosed text.toList

/-- The units of a text are its code points exactly if it has no character past U+FFFF. -/
theorem flatMap_utf16_eq_iff (chars : List Char) :
    chars.flatMap utf16 = chars.map Char.toNat ↔ ∀ c ∈ chars, c.toNat < 0x10000 := by
  induction chars with
  | nil => simp
  | cons c chars ih =>
    rw [List.flatMap_cons, List.map_cons, List.forall_mem_cons, ← ih, utf16]
    split
    · simp [*]
    · have hlt := toNat_lt c
      constructor
      · intro h
        have hhead := (List.cons.inj h).1
        omega
      · rintro ⟨h, -⟩
        contradiction

/-! ## Constants -/

/-- **Texts.**  A constant that stands for a text and for no number is bound to a literal, which is read
as the UTF-16 units of the text.  The literal denotes the text exactly if each of its characters is
one unit. -/
theorem assignment_text {value : Value} {text : String} (hnumber : value.uint32 = none)
    (htext : value.string = some text) (name : String) (w : Written) :
    (assignment name value).run w =
        (.ok (.bind name value.resolve), { w with values := addName name w.values }) ∧
      literalCodes? value.resolve.toList = some (text.toList.flatMap utf16) ∧
      (literalCodes? value.resolve.toList = some (text.toList.map Char.toNat) ↔
        ∀ c ∈ text.toList, c.toNat < 0x10000) := by
  have hwritten : value.resolve = Json.renderText text := by
    rw [Value.resolve, hnumber, htext]
  have hresolved : value.isResolved = true := by
    rw [Value.isResolved, htext]
    simp
  have hcodes : literalCodes? value.resolve.toList = some (text.toList.flatMap utf16) := by
    rw [hwritten, Json.renderText, String.toList_ofList, literalCodes?_quote]
  refine ⟨?_, hcodes, ?_⟩
  · rw [assignment, if_pos hresolved]
    rfl
  · rw [hcodes, Option.some_inj, flatMap_utf16_eq_iff]

/-- A text with a tab, marks, a backslash and characters beyond ASCII that are one unit each. -/
theorem assignment_text_escapes :
    (assignment "A" ⟨"", none, some "\t\"é\\\uffff\""⟩).run .start =
        (.ok (.bind "A" "\"\\t\\\"\\u00e9\\\\\\uffff\\\"\""), { Written.start with values := ["A"] }) ∧
      literalCodes? "\"\\t\\\"\\u00e9\\\\\\uffff\\\"\"".toList =
        some [0x09, 0x22, 0xE9, 0x5C, 0xFFFF, 0x22] := by
  let value : Value := ⟨"", none, some "\t\"é\\\uffff\""⟩
  have hnumber : value.uint32 = none := rfl
  obtain ⟨hline, -, hcodes⟩ := assignment_text hnumber rfl "A" .start
  have hresolve : (⟨"", none, some "\t\"é\\\uffff\""⟩ : Value).resolve =
      "\"\\t\\\"\\u00e9\\\\\\uffff\\\"\"" := by
    decide +kernel
  rw [hresolve] at hline hcodes
  exact ⟨hline, hcodes.mpr (by simp)⟩

/-- A text with a character past U+FFFF is bound to a literal with two characters. -/
theorem assignment_text_surrogates :
    (Grammar.readHeader true "test.h" "#define GRIN \"😀\"\n" .start).1.toOption.map Header.macros =
        some [⟨"GRIN", ⟨"\"😀\"", none, some "😀"⟩⟩] ∧
      (assignment "GRIN" ⟨"\"😀\"", none, some "😀"⟩).run .start =
        (.ok (.bind "GRIN" "\"\\ud83d\\ude00\""), { Written.start with values := ["GRIN"] }) ∧
      literalCodes? "\"\\ud83d\\ude00\"".toList = some [0xD83D, 0xDE00] ∧
      "😀".toList.map Char.toNat = [0x1F600] := by
  refine ⟨by decide +kernel, ?_, by decide +kernel, by decide +kernel⟩
  have hresolve : (⟨"\"😀\"", none, some "😀"⟩ : Value).resolve = "\"\\ud83d\\ude00\"" := by
    decide +kernel
  rw [← hresolve]
  rfl

end Module

end SdkBindings
