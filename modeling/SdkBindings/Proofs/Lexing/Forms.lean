import SdkBindings.Proofs.Lexing.Condensing

/-!
# The forms of a token

What the scanner takes off the front of a text as a token of code has one of four forms: an identifier, a
number, a literal, or a character that stands alone because nothing longer starts there (`TokenForm`).
Each form says what has to be known of the text behind the token, and that is all there is to it: a token
is taken off in front of any text for which its form holds (`TokenForm.takesToken`).

A number may be followed by a character of names, but by none of the ten digits (`isPastDigits_number`).
-/

namespace SdkBindings

namespace Lexer

open Text

/-- What starts with a character of punctuation is nothing longer. -/
structure IsLone (c : Char) (rest : List Char) : Prop where
  /-- It is no number. -/
  number : numberLength? (c :: rest) = none
  /-- It is no literal. -/
  closing : c = '"' ∨ c = '\'' → closingMark? c rest = none
  /-- It is no comment. -/
  comment : c = '/' → commentLength? rest = none

/-- What is taken as punctuation is nothing longer. -/
theorem isLone_of_scan {c : Char} {rest : List Char} (h : scan c rest = some (some .punct, 0)) :
    IsLone c rest where
  number := by
    cases hn : numberLength? (c :: rest) with
    | none => rfl
    | some n =>
      rw [scan_number hn] at h
      cases h
  closing hmark := by
    cases hclosed : closingMark? c rest with
    | none => rfl
    | some k =>
      rw [scan_quoted hmark hclosed] at h
      split at h <;> cases h
  comment := by
    rintro rfl
    cases hk : commentLength? rest with
    | none => rfl
    | some k =>
      rw [scan_comment hk] at h
      cases h

/-- On a line, what is nothing longer is taken as punctuation. -/
theorem IsLone.scan_punct {c : Char} {rest : List Char} (h : IsLone c rest) (hpunct : c ∈ punctuation)
    (hline : '\n' ∉ rest) : scan c rest = some (some .punct, 0) := by
  obtain ⟨-, hspace, hstart⟩ := isOutside_of_mem_punctuation hpunct
  have hnewline : c ≠ '\n' := by
    rintro rfl
    exact absurd hpunct (by decide)
  have hclosing : (if c = '"' ∨ c = '\'' then closingMark? c rest else none) = none := by
    split
    · exact h.closing ‹_›
    · rfl
  have hcontinued : c = '\\' → ∀ tail, rest ≠ '\n' :: tail ∧ rest ≠ '\r' :: '\n' :: tail := by
    rintro - tail
    constructor <;> rintro rfl <;> simp at hline
  rw [scan_eq_scanCode hspace hnewline hcontinued h.comment, scanCode, h.number, hstart, hclosing]
  exact if_pos hpunct

/-- An identifier that ends in front of the text does not go on in it. -/
def EndsWord (text : List Char) : Prop :=
  ∀ c ∈ text.head?, isIdentPart c = false

/-- It starts with nothing that continues an identifier. -/
theorem endsWord_iff {text : List Char} : EndsWord text ↔ text.takeWhile isIdentPart = [] := by
  unfold EndsWord
  cases text with
  | nil => simp
  | cons c text => simp [List.takeWhile_cons]

/-- The form of a token of code in front of a text. -/
inductive TokenForm (t : Token) (after : List Char) : Prop
  /-- An identifier goes as far as it can. -/
  | ident (hkind : t.kind = .ident) (hname : isIdentifier t.text.toList = true) (hafter : EndsWord after)
  /-- So does a number. -/
  | number {c : Char} {piece : List Char} (hkind : t.kind = .number) (htext : t.text.toList = c :: piece)
      (hlength : numberLength? (t.text.toList ++ after) = some t.text.toList.length)
  /-- A literal goes up to its closing mark. -/
  | literal {mark : Char} {body : List Char} (hmark : mark = '"' ∨ mark = '\'')
      (hkind : t.kind = if mark = '"' then .string else .char)
      (htext : t.text.toList = mark :: (body ++ [mark])) (hbody : LiteralBody mark body)
  /-- Punctuation stands alone. -/
  | punct {c : Char} (hkind : t.kind = .punct) (htext : t.text.toList = [c]) (hc : c ∈ punctuation)
      (hlone : IsLone c after)

/-- What a class covers up to the end of a piece covers the piece and nothing behind it. -/
theorem all_of_run {p : Char → Bool} {piece after : List Char}
    (h : piece.length = run p (piece ++ after)) :
    (∀ c ∈ piece, p c = true) ∧ ∀ c ∈ after.head?, p c = false := by
  have hpiece : ∀ c ∈ piece, p c = true := by
    intro c hc
    have hmem : c ∈ (piece ++ after).take (run p (piece ++ after)) := by rwa [← h, List.take_left]
    exact mem_take_run hmem
  refine ⟨hpiece, fun c hc => ?_⟩
  obtain ⟨rest, rfl⟩ := List.head?_eq_some_iff.mp hc
  rw [run, List.takeWhile_append_of_pos hpiece, List.length_append, Nat.left_eq_add,
    List.length_eq_zero_iff] at h
  refine Bool.eq_false_iff.mpr fun hpart => ?_
  rw [List.takeWhile_cons_of_pos hpart] at h
  cases h

/-- What is taken off as code has a form. -/
theorem TakesToken.form {t : Token} {after : List Char} (h : TakesToken t after)
    (hcode : t.isCode = true) : TokenForm t after := by
  obtain ⟨c, piece, hpiece, hscan⟩ := h
  have hliteral (hmark : c = '"' ∨ c = '\'') (hkind : t.kind = if c = '"' then .string else .char)
      (hclosing : closingMark? c (piece ++ after) = some piece.length) : TokenForm t after := by
    obtain ⟨body, rest, htext, hlength, hbody⟩ := literalBody_of_closingMark? hclosing
    rw [← List.singleton_append, ← List.append_assoc] at htext
    obtain ⟨rfl, -⟩ := List.append_inj htext (by simp [hlength])
    exact .literal hmark hkind hpiece hbody
  rcases scan_eq_some hscan with hkind | ⟨hkind, n, hn, hk⟩ | ⟨hkind, hstart, hk⟩ |
    ⟨hkind, rfl, hclosing⟩ | ⟨hkind, rfl, hclosing⟩ | ⟨hkind, hpunct, hk⟩
  · simp [Token.isCode, hkind] at hcode
  · have hpos := (numberLength?_eq_some hn).1
    refine .number hkind hpiece ?_
    rw [hpiece, List.cons_append, hn, List.length_cons]
    congr 1
    omega
  · obtain ⟨hpart, hafter⟩ := all_of_run hk
    refine .ident hkind ?_ hafter
    rw [hpiece, isIdentifier, Bool.and_eq_true, List.all_eq_true]
    exact ⟨hstart, hpart⟩
  · exact hliteral (.inl rfl) hkind hclosing
  · exact hliteral (.inr rfl) hkind hclosing
  · obtain rfl := List.length_eq_zero_iff.mp hk
    rw [hkind] at hscan
    exact .punct hkind hpiece hpunct (isLone_of_scan hscan)

/-- A token of code is taken off where its form says so. -/
theorem TokenForm.takesToken {t : Token} {after : List Char} (h : TokenForm t after)
    (hline : '\n' ∉ after) : TakesToken t after := by
  cases h with
  | ident hkind hname hafter =>
    cases hpiece : t.text.toList with
    | nil =>
      rw [hpiece] at hname
      cases hname
    | cons c piece =>
      rw [hpiece, isIdentifier, Bool.and_eq_true, List.all_eq_true] at hname
      refine ⟨c, piece, hpiece, ?_⟩
      rw [hkind, scan_ident hname.1, run_append hafter, run_eq_length hname.2]
  | @number c piece hkind hpiece hlength =>
    rw [hpiece] at hlength
    refine ⟨c, piece, hpiece, ?_⟩
    rw [hkind]
    exact scan_number hlength
  | @literal mark body hmark hkind htext hbody =>
    have hother : mark ≠ '\\' := by rcases hmark with rfl | rfl <;> decide
    refine ⟨mark, body ++ [mark], htext, ?_⟩
    rw [hkind, List.append_assoc, List.singleton_append,
      scan_quoted hmark (hbody.closingMark? hother after), List.length_append, List.length_singleton]
  | @punct c hkind htext hc hlone =>
    refine ⟨c, [], htext, ?_⟩
    rw [hkind]
    exact hlone.scan_punct hc hline

/-- A token that is an identifier is one, and the text behind it does not continue it. -/
theorem TakesToken.ident {t : Token} {after : List Char} (h : TakesToken t after)
    (hkind : t.kind = .ident) : isIdentifier t.text.toList = true ∧ EndsWord after := by
  have hcode : t.isCode = true := by simp [Token.isCode, hkind]
  cases h.form hcode with
  | ident _ hname hafter => exact ⟨hname, hafter⟩
  | number hother => cases hkind.symm.trans hother
  | literal _ hother =>
    rw [hkind] at hother
    split at hother <;> cases hother
  | punct hother => cases hkind.symm.trans hother

/-- A token that is a number is one with the text behind it. -/
theorem TakesToken.number {t : Token} {after : List Char} (h : TakesToken t after)
    (hkind : t.kind = .number) :
    numberLength? (t.text.toList ++ after) = some t.text.toList.length := by
  have hcode : t.isCode = true := by simp [Token.isCode, hkind]
  cases h.form hcode with
  | ident hother => cases hkind.symm.trans hother
  | number _ _ hlength => exact hlength
  | literal _ hother =>
    rw [hkind] at hother
    split at hother <;> cases hother
  | punct hother => cases hkind.symm.trans hother

/-! ## What starts and ends tokens -/

/-- Punctuation belongs to no name. -/
theorem isIdentPart_of_mem_punctuation {c : Char} (h : c ∈ punctuation) :
    isIdentPart c = false := by
  have hall : punctuation.all (fun c => !isIdentPart c) = true := by decide
  simpa using List.all_eq_true.mp hall c h

/-- A point and a digit are a number. -/
theorem numberLength?_fraction {d : Char} (hd : isDecimalDigit d = true) (rest : List Char) :
    numberLength? ('.' :: d :: rest) ≠ none := by
  have hwhole : run isDecimalDigit ('.' :: d :: rest) = 0 := by
    rw [run, List.takeWhile_cons_of_neg (by decide), List.length_nil]
  have hdrop : ('.' :: d :: rest).drop (run isDecimalDigit ('.' :: d :: rest)) =
      '.' :: d :: rest := by
    rw [hwhole, List.drop_zero]
  have hfraction : run isDecimalDigit (d :: rest) ≠ 0 := by
    rw [run, List.takeWhile_cons_of_pos hd, List.length_cons]
    exact Nat.succ_ne_zero _
  rw [numberLength?, mantissaLength?_point hdrop, if_neg (by omega)]
  cases hexLength? ('.' :: d :: rest) <;> exact Option.some_ne_none _

/-- The ten digits belong to both kinds of digits. -/
theorem isDecimalDigit_of_isDigit {c : Char} (h : c.isDigit = true) :
    isDecimalDigit c = true ∧ isHexDigit c = true := by
  have hall : ∀ n < 58, (Char.ofNat n).isDigit = true →
      isDecimalDigit (Char.ofNat n) = true ∧ isHexDigit (Char.ofNat n) = true := by
    decide +kernel
  have hlt : c.toNat < 58 := by
    simp only [Char.isDigit, Bool.and_eq_true, decide_eq_true_eq, UInt32.le_iff_toNat_le] at h
    exact Nat.lt_succ_of_le h.2
  have hc := hall c.toNat hlt
  rw [Char.ofNat_toNat] at hc
  exact hc h

/-- A class covers as much of a text as it can. -/
theorem not_of_mem_head?_drop_run {p : Char → Bool} {text : List Char} {c : Char}
    (h : c ∈ (text.drop (run p text)).head?) : p c = false := by
  have hlength : (text.take (run p text)).length =
      run p (text.take (run p text) ++ text.drop (run p text)) := by
    rw [List.take_append_drop, List.length_take_of_le (run_le_length p text)]
  exact (all_of_run hlength).2 c h

/-- None of the ten digits stands behind that many characters of the text. -/
def IsPastDigits (text : List Char) (n : Nat) : Prop :=
  ∀ c ∈ (text.drop n).head?, c.isDigit = false

/-- A run of digits is past them. -/
theorem isPastDigits_run (text : List Char) : IsPastDigits text (run isDecimalDigit text) := by
  intro c hc
  refine Bool.eq_false_iff.mpr fun hdigit => ?_
  cases (isDecimalDigit_of_isDigit hdigit).1.symm.trans (not_of_mem_head?_drop_run hc)

/-- What comes in front of it does not matter. -/
theorem IsPastDigits.add {text : List Char} {m n : Nat} (h : IsPastDigits (text.drop m) n) :
    IsPastDigits text (m + n) := by
  rwa [IsPastDigits, ← List.drop_drop]

/-- A mantissa ends in a run of digits. -/
theorem isPastDigits_mantissa {text : List Char} {n : Nat} (h : mantissaLength? text = some n) :
    IsPastDigits text n := by
  by_cases hpoint : ∃ fraction, text.drop (run isDecimalDigit text) = '.' :: fraction
  · obtain ⟨fraction, hfraction⟩ := hpoint
    rw [mantissaLength?_point hfraction] at h
    split at h
    · cases h
    · cases h
      have hbehind : text.drop (run isDecimalDigit text + 1) = fraction := by
        rw [← List.drop_drop, hfraction, List.drop_succ_cons, List.drop_zero]
      exact .add (hbehind ▸ isPastDigits_run fraction)
  · rw [mantissaLength?_whole (not_exists.mp hpoint)] at h
    split at h
    · cases h
    · cases h
      exact isPastDigits_run text

/-- So does an exponent. -/
theorem isPastDigits_exponent {text : List Char} (h : exponentLength text ≠ 0) :
    IsPastDigits text (exponentLength text) := by
  cases text with
  | nil => exact absurd rfl h
  | cons e rest =>
    by_cases he : e = 'e' ∨ e = 'E'
    · obtain ⟨sign, -, hlength⟩ := exponentLength_cons he rest
      split at hlength
      · exact absurd hlength h
      · rw [hlength, Nat.add_comm 1, Nat.add_right_comm, Nat.add_comm _ 1]
        exact IsPastDigits.add (m := 1) (.add (isPastDigits_run (rest.drop sign)))
    · exact absurd (by simp only [exponentLength, if_neg he]) h

/-- A hexadecimal number ends in a run of its own digits. -/
theorem isPastDigits_hex {text : List Char} {n : Nat} (h : hexLength? text = some n) :
    IsPastDigits text n := by
  unfold hexLength? at h
  split at h
  · rename_i x rest
    dsimp only at h
    split at h
    · cases h
      intro c hc
      rw [Nat.add_comm, List.drop_succ_cons, List.drop_succ_cons] at hc
      refine Bool.eq_false_iff.mpr fun hdigit => ?_
      cases (isDecimalDigit_of_isDigit hdigit).2.symm.trans (not_of_mem_head?_drop_run hc)
    · cases h
  · cases h

/-- **No number ends in front of one of the ten digits.** -/
theorem isPastDigits_number {text : List Char} {n : Nat} (h : numberLength? text = some n) :
    IsPastDigits text n := by
  unfold numberLength? at h
  cases hhex : hexLength? text with
  | some k =>
    rw [hhex] at h
    cases h
    exact isPastDigits_hex hhex
  | none =>
    rw [hhex] at h
    obtain ⟨m, hm, rfl⟩ := Option.map_eq_some_iff.mp h
    by_cases hpos : exponentLength (text.drop m) = 0
    · rw [hpos]
      exact isPastDigits_mantissa hm
    · exact .add (isPastDigits_exponent hpos)

end Lexer

end SdkBindings
