import SdkBindings.Constant.Escape
import SdkBindings.Proofs.Lexing.Outside

/-!
# Spellings of a text

A text has many spellings between two quotation marks.  Each of its characters stands for itself, or is
written by a letter of its own, by three octal digits or by hexadecimal digits, of which there may be
any number as long as no further one follows (`IsSpelling`).

Every spelling decodes to the text (`IsSpelling.decodeEscapes`), and the marks around it are found
where it starts and ends (`IsSpelling.literalBody`), although it may hold quotation marks, backslashes
and what opens a comment elsewhere.
-/

namespace SdkBindings.Constant

open Text

/-! ## Digits and letters -/

/-- The letters behind a backslash, with the characters that they stand for. -/
def letterEscapes : List (Char × Char) :=
  [('\\', '\\'), ('"', '"'), ('\'', '\''), ('?', '?'), ('a', '\x07'), ('b', '\x08'), ('f', '\x0c'),
    ('n', '\n'), ('r', '\r'), ('t', '\t'), ('v', '\x0b')]

/-- The character is the hexadecimal digit of a value, in either case. -/
def IsHexDigitOf (d : Char) (value : Nat) : Prop :=
  value < 16 ∧ (d = Nat.digitChar value ∨ d = (Nat.digitChar value).toUpper)

/-- The digits write a number in base sixteen. -/
inductive WritesHex : List Char → Nat → Prop
  | digit {d : Char} {value : Nat} (h : IsHexDigitOf d value) : WritesHex [d] value
  | append {digits : List Char} {n value : Nat} {d : Char} (rest : WritesHex digits n)
      (h : IsHexDigitOf d value) : WritesHex (digits ++ [d]) (16 * n + value)

/-- The value of a hexadecimal digit is read off it. -/
theorem hexValue?_eq_some_iff {d : Char} {value : Nat} :
    hexValue? d = some value ↔ IsHexDigitOf d value := by
  constructor
  · have hchar : d = Char.ofNat d.toNat := (Char.ofNat_toNat d).symm
    -- the digits lie in three runs of characters, each of which is gone through
    have hrun (low n : Nat) (hlow : low ≤ d.toNat) (hn : d.toNat ≤ low + n)
        (hall : ∀ k ≤ n, ∃ v, hexValue? (Char.ofNat (low + k)) = some v ∧
          IsHexDigitOf (Char.ofNat (low + k)) v) (h : hexValue? d = some value) :
        IsHexDigitOf d value := by
      obtain ⟨v, hv, hdigit⟩ := hall (d.toNat - low) (by omega)
      rw [Nat.add_sub_cancel' hlow, ← hchar] at hv hdigit
      cases hv.symm.trans h
      exact hdigit
    intro h
    have hinside := h
    unfold hexValue? at hinside
    split at hinside
    · rename_i hd
      exact hrun 48 9 hd.1 hd.2 (by unfold IsHexDigitOf; decide) h
    split at hinside
    · rename_i hd
      exact hrun 97 5 hd.1 hd.2 (by unfold IsHexDigitOf; decide) h
    split at hinside
    · rename_i hd
      exact hrun 65 5 hd.1 hd.2 (by unfold IsHexDigitOf; decide) h
    · cases hinside
  · have hall : ∀ v < 16, hexValue? (Nat.digitChar v) = some v ∧
        hexValue? (Nat.digitChar v).toUpper = some v := by
      decide
    rintro ⟨hlt, rfl | rfl⟩
    · exact (hall value hlt).1
    · exact (hall value hlt).2

/-- A character with a value is a hexadecimal digit. -/
theorem isHexDigit_of_hexValue? {d : Char} {value : Nat} (h : hexValue? d = some value) :
    isHexDigit d = true := by
  rw [isHexDigit, h]
  rfl

/-- The digits of a number are read to it. -/
theorem WritesHex.digitsNumber {digits : List Char} {n : Nat} (h : WritesHex digits n) :
    digits ≠ [] ∧ (∀ d ∈ digits, isHexDigit d = true) ∧
      Constant.digitsNumber 16 hexValue? digits = n := by
  have hdigit {d : Char} {value : Nat} (hd : IsHexDigitOf d value) :
      hexValue? d = some value ∧ isHexDigit d = true := by
    have hvalue := hexValue?_eq_some_iff.mpr hd
    exact ⟨hvalue, isHexDigit_of_hexValue? hvalue⟩
  induction h with
  | @digit d value hd =>
    refine ⟨List.cons_ne_nil _ _, fun e he => List.mem_singleton.mp he ▸ (hdigit hd).2, ?_⟩
    simp [Constant.digitsNumber, (hdigit hd).1]
  | @append digits n value d _ hd ih =>
    obtain ⟨hne, hall, hnumber⟩ := ih
    refine ⟨List.append_ne_nil_of_left_ne_nil hne _, fun e he => ?_, ?_⟩
    · rcases List.mem_append.mp he with he | he
      · exact hall e he
      · exact List.mem_singleton.mp he ▸ (hdigit hd).2
    · rw [Constant.digitsNumber, List.foldl_append, ← Constant.digitsNumber, hnumber]
      simp [(hdigit hd).1]

/-! ## Spellings -/

/-- The body of a literal spells a text. -/
inductive IsSpelling : List Char → List Char → Prop
  /-- Nothing spells nothing. -/
  | nil : IsSpelling [] []
  /-- A character stands for itself. -/
  | itself {c : Char} {text body : List Char} (h : c ∉ ['\\', '"', '\n'])
      (rest : IsSpelling text body) : IsSpelling (c :: text) (c :: body)
  /-- A letter stands for a character. -/
  | letter {l c : Char} {text body : List Char} (h : (l, c) ∈ letterEscapes)
      (rest : IsSpelling text body) : IsSpelling (c :: text) ('\\' :: l :: body)
  /-- Three octal digits stand for a character by its number. -/
  | octal {i j k : Nat} {c : Char} {text body : List Char} (hi : i < 8) (hj : j < 8) (hk : k < 8)
      (h : c.toNat = 64 * i + 8 * j + k) (rest : IsSpelling text body) :
      IsSpelling (c :: text)
        ('\\' :: Nat.digitChar i :: Nat.digitChar j :: Nat.digitChar k :: body)
  /-- Hexadecimal digits stand for a character by its number, up to something that is no such digit. -/
  | hex {digits : List Char} {c : Char} {text body : List Char} (h : WritesHex digits c.toNat)
      (hend : ∀ d ∈ body.head?, ∀ value, ¬ IsHexDigitOf d value) (rest : IsSpelling text body) :
      IsSpelling (c :: text) ('\\' :: 'x' :: (digits ++ body))

/-- A letter is read as what it stands for. -/
theorem escape_letter {l c : Char} (h : (l, c) ∈ letterEscapes) (rest : List Char) :
    escape l rest = .ok (c.toNat, 1) := by
  have hall : ∀ p ∈ letterEscapes,
      p.1 ≠ 'x' ∧ octalValue? p.1 = none ∧ simpleEscape? p.1 = some p.2 := by
    decide
  obtain ⟨hx, hoctal, hsimple⟩ := hall (l, c) h
  dsimp only at hx hoctal hsimple
  rw [escape, if_neg hx, hoctal, hsimple]
  rfl

/-- Numbers of characters end at U+10FFFF. -/
theorem toNat_lt (c : Char) : c.toNat < 0x110000 := by
  rcases c.valid with h | h
  · exact Nat.lt_trans h (by decide)
  · exact h.2

/-- The number of a character is that of a code point. -/
theorem codePoint_toNat (c : Char) : codePoint c.toNat = .ok c.toNat :=
  if_pos (toNat_lt c)

/-- Three octal digits are read as one character. -/
theorem escape_octal {i j k : Nat} (hi : i < 8) (hj : j < 8) (hk : k < 8) {c : Char}
    (h : c.toNat = 64 * i + 8 * j + k) (rest : List Char) :
    escape (Nat.digitChar i) (Nat.digitChar j :: Nat.digitChar k :: rest) = .ok (c.toNat, 3) := by
  have hdigit : ∀ v < 8, Nat.digitChar v ≠ 'x' ∧ octalValue? (Nat.digitChar v) = some v := by
    decide
  have htaken : ((Nat.digitChar j :: Nat.digitChar k :: rest).take 2).takeWhile
      (fun d => (octalValue? d).isSome) = [Nat.digitChar j, Nat.digitChar k] := by
    simp [(hdigit j hj).2, (hdigit k hk).2]
  have hnumber : digitsNumber 8 octalValue? [Nat.digitChar i, Nat.digitChar j, Nat.digitChar k] =
      c.toNat := by
    simp only [digitsNumber, List.foldl_cons, List.foldl_nil, (hdigit i hi).2, (hdigit j hj).2,
      (hdigit k hk).2, Option.getD_some]
    omega
  rw [escape, if_neg (hdigit i hi).1, (hdigit i hi).2, htaken]
  show (codePoint (digitsNumber 8 octalValue? [_, _, _])).map _ = _
  rw [hnumber, codePoint_toNat]
  rfl

/-- Hexadecimal digits are read as one character where no further one follows. -/
theorem escape_hex {digits : List Char} {c : Char} (h : WritesHex digits c.toNat) {rest : List Char}
    (hend : ∀ d ∈ rest.head?, ∀ value, ¬ IsHexDigitOf d value) :
    escape 'x' (digits ++ rest) = .ok (c.toNat, 1 + digits.length) := by
  obtain ⟨hne, hall, hnumber⟩ := h.digitsNumber
  have hstop : rest.takeWhile isHexDigit = [] := by
    cases rest with
    | nil => rfl
    | cons d rest =>
      refine List.takeWhile_cons_of_neg fun hd => ?_
      obtain ⟨value, hvalue⟩ := Option.isSome_iff_exists.mp hd
      exact hend d rfl value (hexValue?_eq_some_iff.mp hvalue)
  have htaken : (digits ++ rest).takeWhile isHexDigit = digits := by
    rw [List.takeWhile_append_of_pos hall, hstop, List.append_nil]
  rw [escape, if_pos rfl, htaken]
  dsimp only
  rw [if_neg hne, hnumber, codePoint_toNat]
  rfl

/-- An escape is decoded, and then the rest. -/
theorem decodeEscapes_escape {d c : Char} (piece : List Char) {rest text : List Char}
    (h : escape d (piece ++ rest) = .ok (c.toNat, piece.length + 1))
    (hrest : decodeEscapes rest = .ok (text.map Char.toNat)) :
    decodeEscapes ('\\' :: d :: (piece ++ rest)) = .ok ((c :: text).map Char.toNat) := by
  rw [decodeEscapes, if_pos rfl]
  dsimp only
  rw [h]
  show (decodeEscapes ((piece ++ rest).drop piece.length) >>= _) = _
  rw [List.drop_left, hrest]
  rfl

/-- **Decoding.**  Every spelling of a text decodes to the code points of the text. -/
theorem IsSpelling.decodeEscapes {text body : List Char} (h : IsSpelling text body) :
    decodeEscapes body = .ok (text.map Char.toNat) := by
  induction h with
  | nil => simp [Constant.decodeEscapes]
  | @itself c text body hc _ ih =>
    have hbackslash : c ≠ '\\' := fun heq => hc (heq ▸ List.mem_cons_self)
    rw [Constant.decodeEscapes.eq_def]
    dsimp only
    rw [if_neg hbackslash, ih]
    rfl
  | letter hl _ ih => exact decodeEscapes_escape [] (escape_letter hl _) ih
  | octal hi hj hk hc _ ih =>
    exact decodeEscapes_escape [_, _] (escape_octal hi hj hk hc _) ih
  | hex hdigits hend _ ih =>
    refine decodeEscapes_escape _ ?_ ih
    rw [Nat.add_comm]
    exact escape_hex hdigits hend

/-- The code points of a text stand for the text. -/
theorem textOf_toNat (text : List Char) : textOf (text.map Char.toNat) = String.ofList text := by
  have hcharacters : (text.map Char.toNat).map characterOf = text := by
    rw [List.map_map]
    exact List.map_id'' characterOf_toNat text
  rw [textOf, hcharacters]

/-- **Marks.**  A spelling may stand between quotation marks: those in it are escaped. -/
theorem IsSpelling.literalBody {text body : List Char} (h : IsSpelling text body) :
    Lexer.LiteralBody '"' body := by
  have hplain {d : Char} {rest : List Char} (hd : d ∉ ['\\', '"', '\n'])
      (hrest : Lexer.LiteralBody '"' rest) : Lexer.LiteralBody '"' (d :: rest) := by
    simp only [List.mem_cons, not_or] at hd
    exact .plain hd.2.1 hd.1 hd.2.2.1 hrest
  have hoctal : ∀ v < 8, Nat.digitChar v ∉ ['\\', '"', '\n'] := by
    decide
  induction h with
  | nil => exact .nil
  | itself hc _ ih => exact hplain hc ih
  | letter _ _ ih => exact .escaped ih
  | octal _ hj hk _ _ ih => exact .escaped (hplain (hoctal _ hj) (hplain (hoctal _ hk) ih))
  | @hex digits c text body hdigits _ _ ih =>
    obtain ⟨-, hall, -⟩ := hdigits.digitsNumber
    refine .escaped ?_
    clear hdigits
    induction digits with
    | nil => exact ih
    | cons d digits ihdigits =>
      refine hplain ?_ (ihdigits fun e he => hall e (List.mem_cons_of_mem _ he))
      intro hmem
      have hnone : ['\\', '"', '\n'].all (fun e => !isHexDigit e) = true := by
        decide
      have hd := List.all_eq_true.mp hnone d hmem
      rw [hall d List.mem_cons_self] at hd
      cases hd

end SdkBindings.Constant
