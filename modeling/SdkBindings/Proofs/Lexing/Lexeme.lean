import SdkBindings.Proofs.Lexing.Pieces

/-!
# Lexemes

A lexeme is what a writer of header code puts down for one token: a kind and a text of that kind.
The scanner takes a lexeme off the front of a text exactly when the text goes on with something that
the lexeme cannot swallow (`scan_lexeme`).  A blank never is swallowed (`isEnded_blank`), so lexemes
with blanks between them can always be told apart.
-/

namespace SdkBindings

namespace Lexer

open Text

/-! ## The texts of each kind -/

/-- Whether a text is an identifier or a keyword. -/
def isIdentifier : List Char → Bool
  | [] => false
  | c :: rest => isIdentStart c && rest.all isIdentPart

/-- The texts that tokens of a kind may have.  A number, a string and a character are complete when
the scanner finds nothing left over at their end. -/
inductive IsLexeme : Token.Kind → List Char → Prop
  | ident {text : List Char} (h : isIdentifier text = true) : IsLexeme .ident text
  | number {text : List Char} (h : numberLength? text = some text.length) : IsLexeme .number text
  | string {rest : List Char} (h : closingMark? '"' rest = some rest.length) :
      IsLexeme .string ('"' :: rest)
  | char {rest : List Char} (h : closingMark? '\'' rest = some rest.length) :
      IsLexeme .char ('\'' :: rest)
  | punct {c : Char} (h : c ∈ punctuation) (hstring : c ≠ '"') (hchar : c ≠ '\'') :
      IsLexeme .punct [c]

/-- Whether a text is a character of punctuation that opens no literal. -/
def isMark : List Char → Bool
  | [c] => punctuation.contains c && c != '"' && c != '\''
  | _ => false

/-- Such a character is a lexeme. -/
theorem isLexeme_of_isMark {text : List Char} (h : isMark text = true) : IsLexeme .punct text := by
  unfold isMark at h
  split at h
  · simp only [Bool.and_eq_true, List.contains_iff_mem, bne_iff_ne] at h
    exact .punct h.1.1 h.1.2 h.2
  · cases h

/-- A lexeme with the given kind and text ends where `after` starts.  Literals between quotation
marks and most punctuation end by themselves.  A point must not become the point of a fraction, a
slash must not open a comment and a backslash must not continue a line. -/
def IsEnded (kind : Token.Kind) (text after : List Char) : Prop :=
  match kind with
  | .ident => ∀ c ∈ after.head?, isIdentPart c = false
  | .number => numberLength? (text ++ after) = some text.length
  | .punct =>
    (text = ['.'] → ∀ c ∈ after.head?, isDecimalDigit c = false) ∧
      (text = ['/'] → ∀ c ∈ after.head?, c ≠ '/' ∧ c ≠ '*') ∧
      (text = ['\\'] → ∀ c ∈ after.head?, c ≠ '\n' ∧ c ≠ '\r')
  | _ => True

/-! ## Classes of characters -/

/-- A class covers no more of a text when characters outside of it follow. -/
theorem run_append {p : Char → Bool} {after : List Char} (h : ∀ c ∈ after.head?, p c = false)
    (text : List Char) : run p (text ++ after) = run p text := by
  induction text with
  | nil =>
    cases after with
    | nil => rfl
    | cons c rest =>
      have hc : ¬ p c = true := by
        rw [h c rfl]
        exact Bool.false_ne_true
      rw [List.nil_append, run, List.takeWhile_cons_of_neg hc]
      rfl
  | cons c rest ih =>
    unfold run at ih ⊢
    by_cases hc : p c = true
    · rw [List.cons_append, List.takeWhile_cons_of_pos hc, List.takeWhile_cons_of_pos hc,
        List.length_cons, List.length_cons, ih]
    · rw [List.cons_append, List.takeWhile_cons_of_neg hc, List.takeWhile_cons_of_neg hc]

/-- A class covers a text that belongs to it. -/
theorem run_eq_length {p : Char → Bool} {text : List Char} (h : ∀ c ∈ text, p c = true) :
    run p text = text.length := by
  induction text with
  | nil => rfl
  | cons c rest ih =>
    have hrest := ih fun d hd => h d (List.mem_cons_of_mem c hd)
    rw [run] at hrest ⊢
    rw [List.takeWhile_cons_of_pos (h c List.mem_cons_self), List.length_cons, List.length_cons,
      hrest]

/-- A class never covers more than the text. -/
theorem run_le_length (p : Char → Bool) (text : List Char) : run p text ≤ text.length :=
  (List.takeWhile_prefix p).length_le

/-- Characters that neither start nor continue any lexeme but punctuation. -/
structure IsOutside (c : Char) : Prop where
  /-- It starts no number. -/
  not_digit : isDecimalDigit c = false
  /-- It is no blank. -/
  not_space : isSpace c = false
  /-- It starts no identifier. -/
  not_identStart : isIdentStart c = false

/-- Punctuation belongs to no other class. -/
theorem isOutside_of_mem_punctuation {c : Char} (h : c ∈ punctuation) : IsOutside c := by
  have hall : punctuation.all (fun c => !isDecimalDigit c && !isSpace c && !isIdentStart c) = true := by
    decide
  have hc := List.all_eq_true.mp hall c h
  simp only [Bool.and_eq_true, Bool.not_eq_true'] at hc
  exact ⟨hc.1.1, hc.1.2, hc.2⟩

/-- The characters that numbers consist of. -/
def isNumberPart (c : Char) : Bool :=
  isDecimalDigit c || isHexDigit c || ['.', '+', '-', 'x', 'X'].contains c

/-- Decimal digits belong to numbers. -/
theorem isNumberPart_of_isDecimalDigit {c : Char} (h : isDecimalDigit c = true) :
    isNumberPart c = true := by
  rw [isNumberPart, h, Bool.true_or, Bool.true_or]

/-- So do hexadecimal digits. -/
theorem isNumberPart_of_isHexDigit {c : Char} (h : isHexDigit c = true) : isNumberPart c = true := by
  rw [isNumberPart, h, Bool.or_true, Bool.true_or]

/-- What a blank is not: a part of an identifier or of a number, or the start of a comment. -/
structure IsSeparate (c : Char) : Prop where
  /-- It belongs to no identifier. -/
  not_identPart : isIdentPart c = false
  /-- It belongs to no number. -/
  not_numberPart : isNumberPart c = false
  /-- It is none of the other characters with a meaning in comments and lines. -/
  not_mem : c ∉ ['/', '*', '\n']

/-- Blanks keep lexemes apart. -/
theorem isSeparate_of_isSpace {c : Char} (h : isSpace c = true) : IsSeparate c := by
  simp only [isSpace, Bool.or_eq_true, decide_eq_true_eq] at h
  rcases h with (((rfl | rfl) | rfl) | rfl) | rfl <;>
    exact ⟨by decide, by decide, by decide⟩

/-- A blank is no decimal digit. -/
theorem IsSeparate.not_digit {c : Char} (h : IsSeparate c) : isDecimalDigit c = false := by
  cases hc : isDecimalDigit c with
  | false => rfl
  | true => cases (isNumberPart_of_isDecimalDigit hc).symm.trans h.not_numberPart

/-- A character that starts an identifier continues one. -/
theorem isIdentPart_of_isIdentStart {c : Char} (h : isIdentStart c = true) : isIdentPart c = true := by
  rw [isIdentStart, Bool.or_eq_true] at h
  rw [isIdentPart, Bool.or_eq_true, Char.isAlphanum, Bool.or_eq_true]
  exact h.imp_left .inl

/-- What belongs to a number or an identifier is no blank. -/
theorem isSpace_eq_false {c : Char} (h : isIdentPart c = true ∨ isDecimalDigit c = true ∨ c = '.') :
    isSpace c = false := by
  cases hc : isSpace c with
  | false => rfl
  | true =>
    have hseparate := isSeparate_of_isSpace hc
    rcases h with h | h | rfl
    · cases h.symm.trans hseparate.not_identPart
    · cases h.symm.trans hseparate.not_digit
    · exact absurd hseparate.not_numberPart (by decide)

/-! ## Where numbers end -/

/-- A number with a point. -/
theorem mantissaLength?_point {text fraction : List Char}
    (h : text.drop (run isDecimalDigit text) = '.' :: fraction) :
    mantissaLength? text =
      if run isDecimalDigit text + run isDecimalDigit fraction = 0 then none
      else some (run isDecimalDigit text + 1 + run isDecimalDigit fraction) := by
  unfold mantissaLength?
  dsimp only
  rw [h]
  rfl

/-- A number without a point. -/
theorem mantissaLength?_whole {text : List Char}
    (h : ∀ fraction, text.drop (run isDecimalDigit text) ≠ '.' :: fraction) :
    mantissaLength? text =
      if run isDecimalDigit text = 0 then none else some (run isDecimalDigit text) := by
  unfold mantissaLength?
  dsimp only
  split
  · rename_i fraction hfraction
    exact absurd hfraction (h fraction)
  · rfl

/-- No number starts with anything but a digit or a point. -/
theorem numberLength?_eq_none {c : Char} (hdigit : isDecimalDigit c = false) (hpoint : c ≠ '.')
    (rest : List Char) : numberLength? (c :: rest) = none := by
  cases h : numberLength? (c :: rest) with
  | none => rfl
  | some n =>
    rcases (numberLength?_eq_some h).2.1 with hc | hc
    · rw [hdigit] at hc
      cases hc
    · exact absurd hc hpoint

/-- A point without a digit after it is no number. -/
theorem numberLength?_point {rest : List Char} (h : ∀ c ∈ rest.head?, isDecimalDigit c = false) :
    numberLength? ('.' :: rest) = none := by
  have hrest : run isDecimalDigit rest = 0 := run_append h []
  have hwhole : run isDecimalDigit ('.' :: rest) = 0 := by
    rw [run, List.takeWhile_cons_of_neg (by decide), List.length_nil]
  have hdrop : ('.' :: rest).drop (run isDecimalDigit ('.' :: rest)) = '.' :: rest := by
    rw [hwhole, List.drop_zero]
  have hmantissa : mantissaLength? ('.' :: rest) = none := by
    rw [mantissaLength?_point hdrop, hwhole, hrest]
    rfl
  rw [numberLength?, hmantissa]
  rfl

/-- The length of a hexadecimal number, which has at least two characters. -/
theorem hexLength?_cons_cons (c x : Char) (rest : List Char) :
    hexLength? (c :: x :: rest) =
      if c = '0' ∧ (x = 'x' ∨ x = 'X') ∧ 0 < run isHexDigit rest then some (2 + run isHexDigit rest)
      else none := by
  unfold hexLength?
  split
  · rename_i heq
    cases heq
    simp only [true_and]
  · rename_i hother
    rw [if_neg]
    rintro ⟨rfl, -⟩
    exact hother x rest rfl

/-- A single character is no hexadecimal number. -/
theorem hexLength?_singleton (c : Char) : hexLength? [c] = none := by
  unfold hexLength?
  split
  · rename_i heq
    cases heq
  · rfl

/-- Decimal digits make up a number. -/
theorem numberLength?_digits {digits : List Char} (hne : digits ≠ [])
    (h : ∀ c ∈ digits, isDecimalDigit c = true) : numberLength? digits = some digits.length := by
  have hhex : hexLength? digits = none := by
    unfold hexLength?
    split
    · rename_i x rest
      have hx : ¬ (x = 'x' ∨ x = 'X') := by
        have := h x (List.mem_cons_of_mem _ List.mem_cons_self)
        rintro (rfl | rfl) <;> exact absurd this (by decide)
      exact if_neg fun hboth => hx hboth.1
    · rfl
  have hmantissa : mantissaLength? digits = some digits.length := by
    have hrun := run_eq_length h
    rw [mantissaLength?_whole, hrun]
    · exact if_neg fun hzero => hne (List.length_eq_zero_iff.mp hzero)
    · intro fraction hfraction
      rw [hrun, List.drop_length] at hfraction
      cases hfraction
  rw [numberLength?, hhex, hmantissa]
  show some (digits.length + exponentLength (digits.drop digits.length)) = _
  rw [List.drop_length]
  rfl

/-- A class is not covered further than a larger one. -/
theorem run_takeWhile {p q : Char → Bool} (h : ∀ c, p c = true → q c = true) (text : List Char) :
    run p (text.takeWhile q) = run p text := by
  induction text with
  | nil => rfl
  | cons c text ih =>
    unfold run at ih ⊢
    by_cases hp : p c = true
    · rw [List.takeWhile_cons_of_pos (h c hp), List.takeWhile_cons_of_pos hp,
        List.takeWhile_cons_of_pos hp, List.length_cons, List.length_cons, ih]
    · rw [List.takeWhile_cons_of_neg hp]
      by_cases hq : q c = true
      · rw [List.takeWhile_cons_of_pos hq, List.takeWhile_cons_of_neg hp]
      · rw [List.takeWhile_cons_of_neg hq, List.takeWhile_nil]

/-- Characters of a class in front are dropped from what the class covers. -/
theorem drop_takeWhile {p : Char → Bool} {n : Nat} {text : List Char}
    (h : ∀ c ∈ text.take n, p c = true) : (text.takeWhile p).drop n = (text.drop n).takeWhile p := by
  induction n generalizing text with
  | zero => rfl
  | succ n ih =>
    cases text with
    | nil => rfl
    | cons c text =>
      rw [List.take_succ_cons] at h
      obtain ⟨hc, htext⟩ := List.forall_mem_cons.mp h
      rw [List.takeWhile_cons_of_pos hc, List.drop_succ_cons, List.drop_succ_cons, ih htext]

/-- The characters of a number without its exponent belong to numbers. -/
theorem isNumberPart_of_mantissa {text : List Char} {m : Nat} (h : mantissaLength? text = some m) :
    ∀ c ∈ text.take m, isNumberPart c = true := by
  intro c hc
  rcases mantissa_characters h c hc with hdigit | hmark
  · exact isNumberPart_of_isDecimalDigit hdigit
  · have hall : numberCharacters.all isNumberPart = true := by decide
    exact List.all_eq_true.mp hall c hmark

section

variable (text : List Char)

/-- A hexadecimal number consists of characters of numbers. -/
theorem hexLength?_takeWhile : hexLength? (text.takeWhile isNumberPart) = hexLength? text := by
  match text with
  | [] => rfl
  | [c] =>
    rw [hexLength?_singleton]
    by_cases hc : isNumberPart c = true
    · rw [List.takeWhile_cons_of_pos hc]
      exact hexLength?_singleton c
    · rw [List.takeWhile_cons_of_neg hc]
      rfl
  | c :: x :: rest =>
    have hrun : run isHexDigit (rest.takeWhile isNumberPart) = run isHexDigit rest :=
      run_takeWhile (fun _ => isNumberPart_of_isHexDigit) rest
    rw [hexLength?_cons_cons]
    by_cases hc : isNumberPart c = true
    · rw [List.takeWhile_cons_of_pos hc]
      by_cases hx : isNumberPart x = true
      · rw [List.takeWhile_cons_of_pos hx, hexLength?_cons_cons, hrun]
      · rw [List.takeWhile_cons_of_neg hx, hexLength?_singleton, if_neg]
        rintro ⟨-, rfl | rfl, -⟩ <;> exact hx (by decide)
    · rw [List.takeWhile_cons_of_neg hc, if_neg]
      · rfl
      · rintro ⟨rfl, -⟩
        exact hc (by decide)

/-- So does a number without its exponent. -/
theorem mantissaLength?_takeWhile :
    mantissaLength? (text.takeWhile isNumberPart) = mantissaLength? text := by
  have hdigit (text : List Char) :
      run isDecimalDigit (text.takeWhile isNumberPart) = run isDecimalDigit text :=
    run_takeWhile (fun _ => isNumberPart_of_isDecimalDigit) text
  have hdrop : (text.takeWhile isNumberPart).drop (run isDecimalDigit text) =
      (text.drop (run isDecimalDigit text)).takeWhile isNumberPart :=
    drop_takeWhile fun c hc => isNumberPart_of_isDecimalDigit (mem_take_run hc)
  by_cases hpoint : ∃ fraction, text.drop (run isDecimalDigit text) = '.' :: fraction
  · obtain ⟨fraction, hfraction⟩ := hpoint
    rw [hfraction, List.takeWhile_cons_of_pos (by decide), ← hdigit text] at hdrop
    rw [mantissaLength?_point hfraction, mantissaLength?_point hdrop, hdigit, hdigit]
  · have hwhole := not_exists.mp hpoint
    rw [mantissaLength?_whole hwhole, mantissaLength?_whole, hdigit]
    intro fraction hfraction
    rw [hdigit, hdrop] at hfraction
    cases hrest : text.drop (run isDecimalDigit text) with
    | nil =>
      rw [hrest] at hfraction
      cases hfraction
    | cons c rest =>
      rw [hrest, List.takeWhile_cons] at hfraction
      split at hfraction
      · cases hfraction
        exact hwhole rest hrest
      · cases hfraction

/-- So does an exponent. -/
theorem exponentLength_takeWhile :
    exponentLength (text.takeWhile isNumberPart) = exponentLength text := by
  have hdigit (text : List Char) :
      run isDecimalDigit (text.takeWhile isNumberPart) = run isDecimalDigit text :=
    run_takeWhile (fun _ => isNumberPart_of_isDecimalDigit) text
  match text with
  | [] => rfl
  | e :: rest =>
    by_cases he : e = 'e' ∨ e = 'E'
    · have hpart : isNumberPart e = true := by rcases he with rfl | rfl <;> decide
      rw [List.takeWhile_cons_of_pos hpart]
      cases rest with
      | nil => rfl
      | cons s rest =>
        have hrun := hdigit (s :: rest)
        by_cases hs : s = '+' ∨ s = '-'
        · have hsign : isNumberPart s = true := by rcases hs with rfl | rfl <;> decide
          rw [List.takeWhile_cons_of_pos hsign]
          simp only [exponentLength, if_pos he, if_pos hs, List.drop_succ_cons, List.drop_zero, hdigit]
        · by_cases hpart : isNumberPart s = true
          · rw [List.takeWhile_cons_of_pos hpart] at hrun ⊢
            simp only [exponentLength, if_pos he, if_neg hs, List.drop_zero, hrun]
          · rw [List.takeWhile_cons_of_neg hpart] at hrun ⊢
            simp only [exponentLength, if_pos he, if_neg hs, List.drop_zero, hrun]
    · rw [List.takeWhile_cons]
      split
      · simp only [exponentLength, if_neg he]
      · simp only [exponentLength, if_neg he]

/-- A number consists of characters of numbers, and what comes after the first other character does
not matter. -/
theorem numberLength?_takeWhile : numberLength? (text.takeWhile isNumberPart) = numberLength? text := by
  rw [numberLength?, numberLength?, hexLength?_takeWhile, mantissaLength?_takeWhile]
  cases hm : mantissaLength? text with
  | none => rfl
  | some m =>
    have hdrop := drop_takeWhile (isNumberPart_of_mantissa hm)
    simp only [Option.map_some, hdrop, exponentLength_takeWhile]

end

/-- A number ends at a blank. -/
theorem numberLength?_blank {blank : Char} (h : isSpace blank = true) (after text : List Char) :
    numberLength? (text ++ blank :: after) = numberLength? text := by
  have hblank : isNumberPart blank = false := (isSeparate_of_isSpace h).not_numberPart
  have htake : (text ++ blank :: after).takeWhile isNumberPart = text.takeWhile isNumberPart := by
    rw [List.takeWhile_append]
    split
    · rename_i hall
      rw [List.takeWhile_cons_of_neg (by simp [hblank]), List.append_nil]
      exact ((List.takeWhile_prefix _).eq_of_length hall).symm
    · rfl
  rw [← numberLength?_takeWhile, htake, numberLength?_takeWhile]

/-- A number is not longer than the text. -/
theorem numberLength?_le_length {text : List Char} {n : Nat} (h : numberLength? text = some n) :
    n ≤ text.length := by
  have hmantissa {m : Nat} (hm : mantissaLength? text = some m) : m ≤ text.length := by
    have hwhole := run_le_length isDecimalDigit text
    by_cases hpoint : ∃ fraction, text.drop (run isDecimalDigit text) = '.' :: fraction
    · obtain ⟨fraction, hfraction⟩ := hpoint
      have hlength := congrArg List.length hfraction
      have hdigits := run_le_length isDecimalDigit fraction
      rw [mantissaLength?_point hfraction] at hm
      rw [List.length_drop, List.length_cons] at hlength
      split at hm
      · cases hm
      · cases hm
        omega
    · rw [mantissaLength?_whole (not_exists.mp hpoint)] at hm
      split at hm
      · cases hm
      · cases hm
        exact hwhole
  have hexponent (text : List Char) : exponentLength text ≤ text.length := by
    cases text with
    | nil => exact Nat.le_refl 0
    | cons e rest =>
      by_cases he : e = 'e' ∨ e = 'E'
      · obtain ⟨sign, -, hlength⟩ := exponentLength_cons he rest
        have hdigits := run_le_length isDecimalDigit (rest.drop sign)
        rw [List.length_drop] at hdigits
        rw [hlength, List.length_cons]
        split <;> omega
      · simp only [exponentLength, if_neg he]
        exact Nat.zero_le _
  unfold numberLength? at h
  cases hhex : hexLength? text with
  | some k =>
    rw [hhex] at h
    cases h
    unfold hexLength? at hhex
    split at hhex
    · rename_i x rest
      have hdigits := run_le_length isHexDigit rest
      dsimp only at hhex
      split at hhex
      · cases hhex
        simp only [List.length_cons]
        omega
      · cases hhex
    · cases hhex
  | none =>
    rw [hhex] at h
    obtain ⟨m, hm, rfl⟩ := Option.map_eq_some_iff.mp h
    have hle := hmantissa hm
    have hrest := hexponent (text.drop m)
    rw [List.length_drop] at hrest
    omega

/-! ## Taking a lexeme off the front of a text -/

/-- A literal that has been closed stays closed whatever follows. -/
theorem closingMark?_append {mark : Char} (hmark : mark ≠ '\\') {text : List Char} {n : Nat}
    (h : closingMark? mark text = some n) (after : List Char) :
    closingMark? mark (text ++ after) = some n := by
  fun_induction closingMark? mark text generalizing n with
  | case1 => cases h
  | case2 escaped rest ih =>
    rw [Option.map_eq_some_iff] at h
    obtain ⟨k, hk, rfl⟩ := h
    rw [List.cons_append, List.cons_append, closingMark?, ih hk]
    rfl
  | case3 rest hescape =>
    rw [List.cons_append, closingMark?, if_pos rfl, ← h]
    exact fun _ _ hc _ => hmark hc
  | case4 c rest hescape hother hend => cases h
  | case5 c rest hescape hother hend ih =>
    rw [Option.map_eq_some_iff] at h
    obtain ⟨k, hk, rfl⟩ := h
    rw [List.cons_append, closingMark?, if_neg hother, if_neg hend, ih hk]
    · rfl
    · exact fun _ _ hc _ => hend (.inl hc)

/-- What starts a token of code: a number, an identifier, a literal or a single character, whichever
fits first. -/
def scanCode (c : Char) (rest : List Char) : Option (Option Token.Kind × Nat) :=
  match numberLength? (c :: rest) with
  | some n => some (some .number, n - 1)
  | none =>
    if isIdentStart c then some (some .ident, run isIdentPart rest)
    else
      match (if c = '"' ∨ c = '\'' then closingMark? c rest else none) with
      | some k => some (some (if c = '"' then .string else .char), k)
      | none => if c ∈ punctuation then some (some .punct, 0) else none

/-- Where no blank, line end, comment or continuation starts, a token of code does. -/
theorem scan_eq_scanCode {c : Char} (hspace : isSpace c = false) (hline : c ≠ '\n') {rest : List Char}
    (hcontinued : c = '\\' → ∀ tail, rest ≠ '\n' :: tail ∧ rest ≠ '\r' :: '\n' :: tail)
    (hcomment : c = '/' → commentLength? rest = none) :
    scan c rest = scanCode c rest := by
  have hnone : (if c = '/' then commentLength? rest else none) = none := by
    split
    · exact hcomment ‹_›
    · rfl
  unfold scan
  split
  · exact absurd rfl (hcontinued rfl _).1
  · exact absurd rfl (hcontinued rfl _).2
  · exact absurd rfl hline
  · cases hspace
  · rw [hspace, if_neg Bool.false_ne_true, hnone]
    rfl

/-- A slash starts a comment together with another one or an asterisk only. -/
theorem commentLength?_eq_none {rest : List Char} (h : ∀ d ∈ rest.head?, d ≠ '/' ∧ d ≠ '*') :
    commentLength? rest = none := by
  unfold commentLength?
  split
  · exact absurd rfl (h _ rfl).1
  · exact absurd rfl (h _ rfl).2
  · rfl

/-- An identifier is taken as far as it goes. -/
theorem scan_ident {c : Char} (h : isIdentStart c = true) (rest : List Char) :
    scan c rest = some (some .ident, run isIdentPart rest) := by
  have hother (d : Char) (hd : isIdentStart d = false) : c ≠ d := by
    rintro rfl
    cases h.symm.trans hd
  have hspace : isSpace c = false := isSpace_eq_false (.inl (isIdentPart_of_isIdentStart h))
  have hdigit : isDecimalDigit c = false := by
    have := isDigitLike_of_isIdentStart h
    rw [isDigitLike, Bool.or_eq_false_iff] at this
    exact this.1
  rw [scan_eq_scanCode hspace (hother '\n' (by decide))
    (fun hc => absurd hc (hother '\\' (by decide))) (fun hc => absurd hc (hother '/' (by decide))),
    scanCode, numberLength?_eq_none hdigit (hother '.' (by decide))]
  exact if_pos h

/-- A number is taken as far as it goes. -/
theorem scan_number {c : Char} {rest : List Char} {n : Nat}
    (h : numberLength? (c :: rest) = some n) : scan c rest = some (some .number, n - 1) := by
  have hstart : isDecimalDigit c = true ∨ c = '.' := (numberLength?_eq_some h).2.1
  have hother (d : Char) (hd : isDecimalDigit d = false) (hpoint : d ≠ '.') : c ≠ d := by
    rintro rfl
    rcases hstart with hc | hc
    · cases hc.symm.trans hd
    · exact hpoint hc
  have hspace : isSpace c = false := isSpace_eq_false (.inr hstart)
  rw [scan_eq_scanCode hspace (hother '\n' (by decide) (by decide))
    (fun hc => absurd hc (hother '\\' (by decide) (by decide)))
    (fun hc => absurd hc (hother '/' (by decide) (by decide))), scanCode, h]

/-- A literal is taken up to its closing mark. -/
theorem scan_quoted {mark : Char} (hmark : mark = '"' ∨ mark = '\'') {rest : List Char} {k : Nat}
    (h : closingMark? mark rest = some k) :
    scan mark rest = some (some (if mark = '"' then .string else .char), k) := by
  obtain ⟨hdigit, hspace, hstart⟩ : IsOutside mark :=
    isOutside_of_mem_punctuation (by rcases hmark with rfl | rfl <;> decide)
  have hother : mark ∉ ['\n', '\\', '/', '.'] := by
    rcases hmark with rfl | rfl <;> decide
  simp only [List.mem_cons, not_or] at hother
  obtain ⟨hline, hbackslash, hslash, hpoint, -⟩ := hother
  rw [scan_eq_scanCode hspace hline (fun hc => absurd hc hbackslash) (fun hc => absurd hc hslash),
    scanCode, numberLength?_eq_none hdigit hpoint, hstart, if_pos hmark, h]
  rfl

/-- Punctuation is taken when it does not belong to something longer. -/
theorem scan_punct {c : Char} (h : c ∈ punctuation) (hstring : c ≠ '"') (hchar : c ≠ '\'')
    {rest : List Char} (hpoint : c = '.' → ∀ d ∈ rest.head?, isDecimalDigit d = false)
    (hslash : c = '/' → ∀ d ∈ rest.head?, d ≠ '/' ∧ d ≠ '*')
    (hbackslash : c = '\\' → ∀ d ∈ rest.head?, d ≠ '\n' ∧ d ≠ '\r') :
    scan c rest = some (some .punct, 0) := by
  obtain ⟨hdigit, hspace, hstart⟩ := isOutside_of_mem_punctuation h
  have hline : c ≠ '\n' := by
    rintro rfl
    exact absurd h (by decide)
  have hnumber : numberLength? (c :: rest) = none := by
    by_cases hc : c = '.'
    · rw [hc]
      exact numberLength?_point (hpoint hc)
    · exact numberLength?_eq_none hdigit hc rest
  have hcontinued : c = '\\' → ∀ tail, rest ≠ '\n' :: tail ∧ rest ≠ '\r' :: '\n' :: tail := by
    intro hc tail
    constructor
    · rintro rfl
      exact (hbackslash hc '\n' rfl).1 rfl
    · rintro rfl
      exact (hbackslash hc '\r' rfl).2 rfl
  rw [scan_eq_scanCode hspace hline hcontinued fun hc => commentLength?_eq_none (hslash hc), scanCode,
    hnumber, hstart,
    if_neg (not_or.mpr ⟨hstring, hchar⟩)]
  exact if_pos h

/-- A lexeme is taken off the front of a text where it ends. -/
theorem scan_lexeme {kind : Token.Kind} {c : Char} {rest after : List Char}
    (h : IsLexeme kind (c :: rest)) (hended : IsEnded kind (c :: rest) after) :
    scan c (rest ++ after) = some (some kind, rest.length) := by
  cases h with
  | ident h =>
    rw [isIdentifier, Bool.and_eq_true, List.all_eq_true] at h
    rw [scan_ident h.1, run_append hended, run_eq_length h.2]
  | number h => exact scan_number hended
  | string h => exact scan_quoted (.inl rfl) (closingMark?_append (by decide) h after)
  | char h => exact scan_quoted (.inr rfl) (closingMark?_append (by decide) h after)
  | punct h hstring hchar =>
    obtain ⟨hpoint, hslash, hbackslash⟩ := hended
    exact scan_punct h hstring hchar (fun hc => hpoint (congrArg (fun d => [d]) hc))
      (fun hc => hslash (congrArg (fun d => [d]) hc))
      (fun hc => hbackslash (congrArg (fun d => [d]) hc))

/-- A lexeme ends at a blank.  A carriage return is left out because with a line feed after it it
ends a line, which a backslash continues. -/
theorem isEnded_blank {kind : Token.Kind} {text : List Char} (h : IsLexeme kind text) {blank : Char}
    (hblank : isSpace blank = true) (hreturn : blank ≠ '\r') (after : List Char) :
    IsEnded kind text (blank :: after) := by
  have hseparate := isSeparate_of_isSpace hblank
  have hother := hseparate.not_mem
  simp only [List.mem_cons, not_or] at hother
  obtain ⟨hslash, hasterisk, hline, -⟩ := hother
  cases h with
  | ident h =>
    rintro c hc
    exact Option.mem_some.mp hc ▸ hseparate.not_identPart
  | number h => exact (numberLength?_blank hblank after text).trans h
  | string h => trivial
  | char h => trivial
  | punct h =>
    refine ⟨?_, ?_, ?_⟩
    · rintro - c hc
      exact Option.mem_some.mp hc ▸ hseparate.not_digit
    · rintro - c hc
      rw [← Option.mem_some.mp hc]
      exact ⟨hslash, hasterisk⟩
    · rintro - c hc
      rw [← Option.mem_some.mp hc]
      exact ⟨hline, hreturn⟩

end Lexer

open Lexer

/-- A token without its place: what stands for one token of header code. -/
structure Lexeme where
  /-- The lexical category. -/
  kind : Token.Kind
  /-- The text. -/
  text : String
  /-- The text is one of its category. -/
  isLexeme : IsLexeme kind text.toList

namespace Lexeme

/-- Punctuation, given by its text. -/
def mark (text : String) (h : isMark text.toList = true) : Lexeme :=
  ⟨.punct, text, isLexeme_of_isMark h⟩

/-- An identifier or a keyword, given by its text. -/
def word (text : String) (h : isIdentifier text.toList = true) : Lexeme :=
  ⟨.ident, text, .ident h⟩

/-- A numeral, given by its digits. -/
def numeral (digits : List Char) (hne : digits ≠ []) (h : digits.all Text.isDecimalDigit = true) :
    Lexeme :=
  ⟨.number, String.ofList digits, by
    rw [String.toList_ofList]
    exact .number (numberLength?_digits hne (List.all_eq_true.mp h))⟩

/-- The lexeme ends where `after` starts. -/
def IsEnded (lexeme : Lexeme) (after : List Char) : Prop :=
  Lexer.IsEnded lexeme.kind lexeme.text.toList after

/-- Every lexeme has a first character. -/
theorem exists_cons (lexeme : Lexeme) : ∃ c rest, lexeme.text.toList = c :: rest := by
  have h := lexeme.isLexeme
  cases htext : lexeme.text.toList with
  | cons c rest => exact ⟨c, rest, rfl⟩
  | nil =>
    rw [htext] at h
    generalize lexeme.kind = kind at h
    cases h with
    | ident h => cases h
    | number h => cases h

/-- An identifier is not spelled like anything else. -/
theorem text_ne_of_isIdent (lexeme : Lexeme) (h : lexeme.kind = .ident) {text : String}
    (htext : isIdentifier text.toList = false) : lexeme.text ≠ text := by
  rintro rfl
  have hlexeme := lexeme.isLexeme
  rw [h] at hlexeme
  cases hlexeme with
  | ident hident => cases hident.symm.trans htext

end Lexeme

end SdkBindings
