import SdkBindings.Proofs.Expression.Value
import SdkBindings.Proofs.Formula.Numbers
import SdkBindings.Proofs.Literals.Hexadecimal
import SdkBindings.Proofs.Literals.Macro

/-!
# The value of integer literals

An integer literal of a header is decimal, octal or hexadecimal, and may carry a suffix right behind
it.  It is cut into its digits and the suffix (`codeTokens_numberTokens`), the suffix is passed over and
the digits are the operand of the expression (`evaluate_numberTokens`).

Decimal and hexadecimal literals have the value that the language of the header gives them.  The zero
in front of octal ones makes no difference to the evaluator, which reads their digits in base ten.  The
two readings agree below eight and nowhere else (`octal_or_decimal`), so exactly the octal literals from
eight have another value (`evaluate_integerLiteral`).
-/

namespace SdkBindings.Constant

open Text Lexer

/-! ## Literals and suffixes -/

/-- The text is an integer literal of a base and stands for a number. -/
inductive IsIntegerLiteral : (base : Nat) → List Char → Nat → Prop
  /-- Decimal digits, the first of which is no zero. -/
  | decimal {digits : List Char} (hne : digits ≠ []) (hzero : digits.head? ≠ some '0')
      (h : ∀ c ∈ digits, '0' ≤ c ∧ c ≤ '9') :
      IsIntegerLiteral 10 digits (Nat.ofDigitChars 10 digits 0)
  /-- A zero and octal digits. -/
  | octal {digits : List Char} (h : ∀ c ∈ digits, '0' ≤ c ∧ c ≤ '7') :
      IsIntegerLiteral 8 ('0' :: digits) (Nat.ofDigitChars 8 digits 0)
  /-- The prefix and at most eight hexadecimal digits. -/
  | hexadecimal {x : Char} {digits : List Char} {n : Nat} (hx : x = 'x' ∨ x = 'X')
      (h : WritesHex digits n) (hsize : digits.length ≤ 8) :
      IsIntegerLiteral 16 ('0' :: x :: digits) n

/-- The suffixes of integers; the first is none. -/
def integerSuffixes : List String := ["", "L", "UL", "U", "LL", "ULL"]

/-- The tokens of a number with a suffix at the start of a text. -/
def numberTokens (text suffix : String) : List Token :=
  ⟨.number, text, 1, 1⟩ ::
    if suffix = "" then [] else [⟨.ident, suffix, 1, 1 + text.length⟩]

/-! ## Digits -/

/-- The ten digits have their place as their value. -/
theorem digitValue?_of_le {c : Char} (h : '0' ≤ c ∧ c ≤ '9') : digitValue? c = some (c.toNat - 48) := by
  have hall : ∀ k < 10, digitValue? (Char.ofNat (48 + k)) = some k := by
    decide +kernel
  have hlow : 48 ≤ c.toNat := h.1
  have hhigh : c.toNat ≤ 57 := h.2
  have hvalue := hall (c.toNat - 48) (by omega)
  rwa [Nat.add_sub_cancel' hlow, Char.ofNat_toNat] at hvalue

/-- They are decimal digits. -/
theorem isDecimalDigit_of_le {c : Char} (h : '0' ≤ c ∧ c ≤ '9') : isDecimalDigit c = true :=
  Numeral.isDecimalDigit_of_digitValue? (digitValue?_of_le h)

/-- They add up to the number that they write in base ten. -/
theorem digitsNumber_eq_ofDigitChars {digits : List Char} (h : ∀ c ∈ digits, '0' ≤ c ∧ c ≤ '9')
    (n : Nat) : Numeral.digitsNumber n digits = Nat.ofDigitChars 10 digits n := by
  induction digits generalizing n with
  | nil => rfl
  | cons c digits ih =>
    obtain ⟨hc, hrest⟩ := List.forall_mem_cons.mp h
    have hnext := ih hrest (10 * n + (c.toNat - 48))
    rw [Numeral.digitsNumber] at hnext
    rw [Numeral.digitsNumber, List.foldl_cons, digitValue?_of_le hc, Option.getD_some, hnext,
      Nat.ofDigitChars_cons]
    rfl

/-- Digits are the operand that they write in base ten. -/
theorem bareOperand_ofDigitChars (symbols : SymbolTable) {digits : List Char} (hne : digits ≠ [])
    (h : ∀ c ∈ digits, '0' ≤ c ∧ c ≤ '9') :
    bareOperand symbols digits = .ok (.int (Nat.ofDigitChars 10 digits 0 : Nat)) := by
  rw [Formula.bareOperand_digits symbols hne fun c hc => isDecimalDigit_of_le (h c hc),
    digitsNumber_eq_ofDigitChars h]

/-- A zero and octal digits are among the ten digits. -/
theorem forall_mem_of_octal {digits : List Char} (h : ∀ c ∈ digits, '0' ≤ c ∧ c ≤ '7') :
    ∀ c ∈ '0' :: digits, '0' ≤ c ∧ c ≤ '9' := by
  refine List.forall_mem_cons.mpr ⟨by decide, fun c hc => ?_⟩
  exact ⟨(h c hc).1, Char.le_trans (h c hc).2 (by decide)⟩

/-- Octal digits write the same number in base ten where it is below eight, and a larger one
otherwise. -/
theorem octal_or_decimal {digits : List Char} (h : ∀ c ∈ digits, '0' ≤ c ∧ c ≤ '7') {m n : Nat}
    (hstart : m = n ∧ n < 8 ∨ n < m ∧ 8 ≤ n) :
    let m' := Nat.ofDigitChars 10 digits m
    let n' := Nat.ofDigitChars 8 digits n
    m' = n' ∧ n' < 8 ∨ n' < m' ∧ 8 ≤ n' := by
  induction digits generalizing m n with
  | nil => exact hstart
  | cons c digits ih =>
    obtain ⟨hc, hrest⟩ := List.forall_mem_cons.mp h
    have hlow : 48 ≤ c.toNat := hc.1
    have hhigh : c.toNat ≤ 55 := hc.2
    have hzero : '0'.toNat = 48 := rfl
    -- the same digit is added to ten times the one number and to eight times the other
    simp only [Nat.ofDigitChars_cons]
    exact ih hrest (by omega)

namespace IsIntegerLiteral

variable {base n : Nat} {text : List Char}

/-- A literal consists of digits, or it is hexadecimal. -/
theorem digits_or_hexadecimal (h : IsIntegerLiteral base text n) :
    (text ≠ [] ∧ ∀ c ∈ text, '0' ≤ c ∧ c ≤ '9') ∨
      ∃ x digits, text = '0' :: x :: digits ∧ (x = 'x' ∨ x = 'X') ∧ WritesHex digits n := by
  cases h with
  | decimal hne _ h => exact .inl ⟨hne, h⟩
  | octal h => exact .inl ⟨List.cons_ne_nil _ _, forall_mem_of_octal h⟩
  | hexadecimal hx h => exact .inr ⟨_, _, rfl, hx, h⟩

/-! ## Cutting -/

/-- A literal starts with a digit. -/
theorem exists_cons (h : IsIntegerLiteral base text n) :
    ∃ c rest, text = c :: rest ∧ isDecimalDigit c = true := by
  rcases h.digits_or_hexadecimal with ⟨hne, hdigits⟩ | ⟨x, digits, rfl, -⟩
  · obtain ⟨c, rest, rfl⟩ := List.exists_cons_of_ne_nil hne
    exact ⟨c, rest, rfl, isDecimalDigit_of_le (hdigits c List.mem_cons_self)⟩
  · exact ⟨'0', x :: digits, rfl, by decide +kernel⟩

/-- A literal is on one line. -/
theorem not_mem (h : IsIntegerLiteral base text n) : '\n' ∉ text := by
  intro hmem
  rcases h.digits_or_hexadecimal with ⟨-, hdigits⟩ | ⟨x, digits, rfl, hx, hdigits⟩
  · exact absurd (hdigits _ hmem) (by decide)
  · simp only [List.mem_cons] at hmem
    rcases hmem with hmem | hmem | hmem
    · cases hmem
    · rcases hx with rfl | rfl <;> cases hmem
    · exact absurd (hdigits.digitsNumber.2.1 _ hmem) (by decide)

/-- A literal ends in front of a suffix. -/
theorem numberLength?_append (h : IsIntegerLiteral base text n) {after : List Char}
    (hafter : ∀ c ∈ after.head?, c ∈ ['L', 'U']) : numberLength? (text ++ after) = some text.length := by
  have hall : ['L', 'U'].all (fun c => (isDecimalDigit c = false ∧ c ∉ ['.', 'e', 'E', 'x', 'X']) ∧
      isHexDigit c = false) = true := by
    decide +kernel
  have hends (c : Char) (hc : c ∈ after.head?) :=
    of_decide_eq_true (List.all_eq_true.mp hall c (hafter c hc))
  rcases h.digits_or_hexadecimal with ⟨hne, hdigits⟩ | ⟨x, digits, rfl, hx, h⟩
  · exact numberLength?_digits_append hne (fun c hc => isDecimalDigit_of_le (hdigits c hc))
      fun c hc => (hends c hc).1
  · obtain ⟨hne, hdigits, -⟩ := h.digitsNumber
    have hrun : Lexer.run isHexDigit (digits ++ after) = digits.length := by
      rw [run_append fun c hc => (hends c hc).2, run_eq_length hdigits]
    have hhex : hexLength? ('0' :: x :: (digits ++ after)) = some (2 + digits.length) := by
      rw [hexLength?_cons_cons, hrun, if_pos ⟨rfl, hx, List.length_pos_of_ne_nil hne⟩]
    rw [numberLength?, List.cons_append, List.cons_append, hhex]
    show some (2 + digits.length) = some (digits.length + 1 + 1)
    rw [Nat.add_comm]

/-! ## Reading -/

/-- An octal literal has its value in base ten only below eight. -/
theorem ofDigitChars_eq_iff (h : IsIntegerLiteral 8 text n) :
    Nat.ofDigitChars 10 text 0 = n ↔ n < 8 := by
  cases h with
  | @octal digits h =>
    have hzero : Nat.ofDigitChars 10 ('0' :: digits) 0 = Nat.ofDigitChars 10 digits 0 := rfl
    have hreadings := octal_or_decimal h (m := 0) (n := 0) (.inl ⟨rfl, by decide⟩)
    rw [hzero]
    dsimp only at hreadings
    omega

/-- The number that the evaluator reads from a literal. -/
theorem bareOperand (h : IsIntegerLiteral base text n) (symbols : SymbolTable) :
    ∃ m : Nat, Constant.bareOperand symbols text = .ok (.int m) ∧
      (base = 8 → m = Nat.ofDigitChars 10 text 0) ∧ (m = n ↔ base ≠ 8 ∨ n < 8) := by
  cases h with
  | decimal hne _ h =>
    exact ⟨_, bareOperand_ofDigitChars symbols hne h, fun heq => absurd heq (by decide),
      iff_of_true rfl (.inl (by decide))⟩
  | @octal digits h =>
    have hliteral : IsIntegerLiteral 8 ('0' :: digits) _ := .octal h
    refine ⟨_, bareOperand_ofDigitChars symbols (List.cons_ne_nil _ _) (forall_mem_of_octal h),
      fun _ => rfl, ?_⟩
    rw [hliteral.ofDigitChars_eq_iff, or_iff_right (not_not_intro rfl)]
  | @hexadecimal x digits _ hx h hsize =>
    have hform : isHexLiteral ('0' :: x :: digits) = true := by simp [isHexLiteral, hx]
    have hspells : HasHexDigits (String.ofList ('0' :: x :: digits)).toList digits :=
      ⟨x, [], by rw [String.toList_ofList, List.append_nil], hx, .inl rfl⟩
    have hvalue := hexLiteral_eq_ok_iff.mpr ⟨digits, hspells, hsize, h.isNumeral, rfl⟩
    refine ⟨n, ?_, fun heq => absurd heq (by decide), iff_of_true rfl (.inl (by decide))⟩
    rw [Constant.bareOperand, if_pos hform, hvalue]
    rfl

end IsIntegerLiteral

/-! ## Tokens -/

/-- Suffixes are identifiers that no number swallows, and the evaluator passes over them. -/
theorem integerSuffixes_spec {suffix : String} (h : suffix ∈ integerSuffixes) :
    (∀ c ∈ suffix.toList.head?, c ∈ ['L', 'U']) ∧
      (suffix = "" ∨ isIdentifier suffix.toList = true ∧ suffix ∈ literalSuffixes) := by
  have hall : ∀ suffix ∈ integerSuffixes, (suffix.toList.head?.all fun c => ['L', 'U'].contains c) ∧
      (suffix = "" ∨ isIdentifier suffix.toList = true ∧ suffix ∈ literalSuffixes) := by
    decide
  obtain ⟨hhead, hword⟩ := hall suffix h
  refine ⟨fun c hc => ?_, hword⟩
  rw [Option.mem_def.mp hc, Option.all_some, List.contains_iff_mem] at hhead
  exact hhead

section

variable {text suffix : String}

/-- A number is cut off its suffix. -/
theorem codeTokens_numberTokens (hlexeme : IsLexeme .number text.toList)
    (hended : IsEnded .number text.toList suffix.toList) (hline : '\n' ∉ text.toList)
    (hsuffix : suffix = "" ∨ isIdentifier suffix.toList = true) :
    codeTokens (text ++ suffix) = .ok (numberTokens text suffix) := by
  have hnumber := (lexFrom_lexeme ⟨.number, text, hlexeme⟩ hended "<string>" .start).2
  have hplace : Position.after .start text.toList = ⟨1, 1 + text.length⟩ := by
    rw [Position.after_inline _ hline, String.length_toList]
    rfl
  rw [hplace] at hnumber
  rw [codeTokens, lex, String.toList_append]
  refine (congrArg (fun lexed : Lexed => lexed.tokens? >>= fun tokens =>
    pure (tokens.filter Token.isCode)) hnumber).trans ?_
  rcases hsuffix with rfl | hsuffix
  · rw [String.toList_empty, lexFrom]
    rfl
  · have hword : lexFrom "<string>" ⟨1, 1 + text.length⟩ (suffix.toList ++ []) = _ :=
      lexFrom_word "<string>" _ hsuffix (by simp)
    have hne : suffix ≠ "" := by
      rintro rfl
      cases hsuffix
    rw [List.append_nil] at hword
    rw [hword, lexFrom, numberTokens, if_neg hne]
    rfl

/-- A number and its suffix have the value of the number, as they are written. -/
theorem evaluate_numberTokens {symbols : SymbolTable} {x : Number} {c : Char} {rest : List Char}
    (htext : text.toList = c :: rest) (hc : isDecimalDigit c = true)
    (hsuffix : suffix = "" ∨ suffix ∈ literalSuffixes)
    (hx : bareOperand symbols text.toList = .ok x) :
    evaluate symbols (numberTokens text suffix) = .ok (numberValue x (text ++ suffix)) := by
  have htoken : Token.IsOperand ⟨.number, text, 1, 1⟩ := ⟨c, rest, htext, .inl ⟨rfl, .inl hc⟩⟩
  have hoperand : SpellsOperand text (numberTokens text suffix) ∧
      Token.join (numberTokens text suffix) = text ++ suffix ∧
      ∀ t ∈ numberTokens text suffix, t.kind ≠ .string := by
    by_cases hnone : suffix = ""
    · rw [numberTokens, if_pos hnone, hnone]
      exact ⟨.bare htoken, by simp [Token.join, Token.joinAfter], by simp⟩
    · rw [numberTokens, if_neg hnone]
      refine ⟨.suffixed htoken rfl rfl (hsuffix.resolve_left hnone) ?_, ?_, by simp⟩
      · simp [Token.isAdjacentTo, Token.endColumn]
      · simp [Token.join, Token.joinAfter, Token.isAdjacentTo, Token.endColumn]
  obtain ⟨hspells, hjoin, hkinds⟩ := hoperand
  have hvalue := Expression.Spells.evaluate_tokens (e := .operand [] text) (.operand .nil hspells)
    trivial symbols
  rw [Expression.value, hx] at hvalue
  rw [evaluate_eq_numberValue hkinds hvalue, hjoin]

end

/-- A number has a value of 32 bits where it fits, and is kept as it is written. -/
theorem numberValue_natCast (m : Nat) {raw : String} (hraw : raw ≠ "") :
    numberValue (.int m) raw = ⟨raw, if m < 2 ^ 32 then some (m : Int) else none, none⟩ := by
  show (Value.ofUInt32? (m : Int) raw).getD (.ofRaw raw) = _
  by_cases hm : m < 2 ^ 32
  · have hfits : 0 ≤ (m : Int) ∧ (m : Int) ≤ 0xFFFFFFFF := by omega
    rw [Value.ofUInt32?, if_pos hfits, Option.getD_some, Value.ofNumber, if_neg hraw, if_pos hm]
  · have hlarge : ¬ (0 ≤ (m : Int) ∧ (m : Int) ≤ 0xFFFFFFFF) := by omega
    rw [Value.ofUInt32?, if_neg hlarge, Option.getD_none, Value.ofRaw, if_neg hm]

/-- **Integer literals.**  A decimal, octal or hexadecimal literal of a number of 32 bits, with or
without a suffix, is cut into tokens and evaluated to a value that is kept as it is written.  Decimal and
hexadecimal literals have their number, octal ones the number that their digits write in base ten.  So a
literal has its number if and only if it is not octal or its number is below eight. -/
theorem evaluate_integerLiteral (symbols : SymbolTable) {base n : Nat} {text suffix : String}
    (h : IsIntegerLiteral base text.toList n) (hn : n < 2 ^ 32) (hsuffix : suffix ∈ integerSuffixes) :
    ∃ tokens v, codeTokens (text ++ suffix) = .ok tokens ∧ evaluate symbols tokens = .ok v ∧
      v.raw = text ++ suffix ∧ v.string = none ∧
      (base = 8 → v.uint32 =
        if Nat.ofDigitChars 10 text.toList 0 < 2 ^ 32 then some (Nat.ofDigitChars 10 text.toList 0 : Int)
        else none) ∧
      (v.uint32 = some (n : Int) ↔ base ≠ 8 ∨ n < 8) := by
  obtain ⟨hfollows, hword⟩ := integerSuffixes_spec hsuffix
  obtain ⟨c, rest, htext, hc⟩ := h.exists_cons
  obtain ⟨m, hm, hoctal, hreading⟩ := h.bareOperand symbols
  have hlexeme : IsLexeme .number text.toList := by
    have hwhole : numberLength? (text.toList ++ []) = some text.toList.length :=
      h.numberLength?_append (by simp)
    rw [List.append_nil] at hwhole
    exact .number hwhole
  have hended : IsEnded .number text.toList suffix.toList := h.numberLength?_append hfollows
  have hraw : text ++ suffix ≠ "" := by
    intro hempty
    have hlist := congrArg String.toList hempty
    rw [String.toList_append, htext] at hlist
    cases hlist
  have hvalue := evaluate_numberTokens htext hc (hword.imp id And.right) hm
  rw [numberValue_natCast m hraw] at hvalue
  refine ⟨_, _, codeTokens_numberTokens hlexeme hended h.not_mem (hword.imp id And.left), hvalue, rfl,
    rfl, fun hbase => by rw [hoctal hbase], ?_⟩
  rw [← hreading]
  split
  · rw [Option.some.injEq, Int.natCast_inj]
  · refine iff_of_false (by simp) ?_
    omega

/-- The largest hexadecimal literal, with a suffix. -/
theorem evaluate_integerLiteral_largest :
    IsIntegerLiteral 16 "0xFFFFFFFF".toList 0xFFFFFFFF ∧ 0xFFFFFFFF < 2 ^ 32 ∧
      "UL" ∈ integerSuffixes ∧
      ∃ tokens v, codeTokens ("0xFFFFFFFF" ++ "UL") = .ok tokens ∧ evaluate .empty tokens = .ok v ∧
        v.raw = "0xFFFFFFFFUL" ∧ v.uint32 = some ((0xFFFFFFFF : Nat) : Int) := by
  have hdigits : WritesHex "FFFFFFFF".toList (digitsNumber 16 hexValue? "FFFFFFFF".toList) :=
    writesHex_of_isHexDigit (by decide) (List.all_eq_true.mp (by decide))
  have hnumber : digitsNumber 16 hexValue? "FFFFFFFF".toList = 0xFFFFFFFF := by decide
  rw [hnumber] at hdigits
  have hliteral : IsIntegerLiteral 16 "0xFFFFFFFF".toList 0xFFFFFFFF :=
    .hexadecimal (.inl rfl) hdigits (by decide)
  have hsuffix : "UL" ∈ integerSuffixes := by decide
  obtain ⟨tokens, v, htokens, hv, hraw, -, -, hvalue⟩ :=
    evaluate_integerLiteral .empty hliteral (by decide) hsuffix
  exact ⟨hliteral, by decide, hsuffix, tokens, v, htokens, hv, hraw.trans (by decide),
    hvalue.mpr (.inl (by decide))⟩

/-- An octal literal for eight is read in base ten. -/
theorem evaluate_octalLiteral :
    IsIntegerLiteral 8 "010".toList 8 ∧ codeTokens "010" = .ok [⟨.number, "010", 1, 1⟩] ∧
      evaluate .empty [⟨.number, "010", 1, 1⟩] = .ok ⟨"010", some 10, none⟩ :=
  ⟨.octal (show ∀ c ∈ ['1', '0'], '0' ≤ c ∧ c ≤ '7' by simp), by decide +kernel, by decide +kernel⟩

end SdkBindings.Constant
