import SdkBindings.Proofs.Expression.Tree
import SdkBindings.Token.Lexer

/-!
# What the tokens of a header look like

Every token of a header but its end is a piece that the scanner cut off (`tokens_eq_pieces`), so what
its text looks like follows from the branch of the scanner that gives its kind.  Two consequences are
needed elsewhere: the operands of constant expressions start with a character of their own kind
(`isOperand_of_isPiece`), and a number that consists of digits only consists of decimal digits
(`isDecimalDigit_of_isPiece`).
-/

namespace SdkBindings.Lexer

open Text

/-- The token is a piece that the scanner cuts off the front of some text. -/
def IsPiece (token : Token) : Prop :=
  ∃ c rest k, scan c rest = some (some token.kind, k) ∧
    token.text = String.ofList (c :: rest.take k)

/-- A text that is cut without a failure gives pieces and its end. -/
theorem tokens_eq_pieces {file : String} {p : Position} {text : List Char}
    (h : (lexFrom file p text).failure = none) :
    ∃ pieces eof, (lexFrom file p text).tokens = pieces ++ [eof] ∧ eof.kind = .eof ∧
      ∀ t ∈ pieces, IsPiece t := by
  fun_induction lexFrom file p text with
  | case1 p => exact ⟨[], _, rfl, rfl, fun t ht => nomatch ht⟩
  | case2 p c rest hscan => cases h
  | case3 p c rest k hscan piece tail ih => exact ih h
  | case4 p c rest k piece tail kind hscan ih =>
    obtain ⟨pieces, eof, htokens, heof, hpieces⟩ := ih h
    refine ⟨⟨kind, String.ofList piece, p.line, p.column⟩ :: pieces, eof, ?_, heof, ?_⟩
    · rw [List.cons_append]
      exact congrArg _ htokens
    · intro t ht
      rcases List.mem_cons.mp ht with rfl | ht
      · exact ⟨c, rest, k, hscan, rfl⟩
      · exact hpieces t ht

/-- Every token that is cut off, up to a failure if there is one, is a piece or the end. -/
theorem isPiece_of_mem_lexFrom {file : String} {p : Position} {text : List Char} {t : Token}
    (h : t ∈ (lexFrom file p text).tokens) : IsPiece t ∨ (t.kind = .eof ∧ t.text = "") := by
  fun_induction lexFrom file p text with
  | case1 p =>
    obtain rfl := List.mem_singleton.mp h
    exact .inr ⟨rfl, rfl⟩
  | case2 p c rest hscan => cases h
  | case3 p c rest k hscan piece tail ih => exact ih h
  | case4 p c rest k piece tail kind hscan ih =>
    rcases List.mem_cons.mp h with rfl | h
    · exact .inl ⟨c, rest, k, hscan, rfl⟩
    · exact ih h

/-- The text of a token that is cut off is part of the text. -/
theorem mem_of_mem_lexFrom {file : String} {p : Position} {text : List Char} {t : Token}
    (h : t ∈ (lexFrom file p text).tokens) {c : Char} (hc : c ∈ t.text.toList) : c ∈ text := by
  fun_induction lexFrom file p text with
  | case1 p =>
    obtain rfl := List.mem_singleton.mp h
    cases hc
  | case2 p d rest hscan => cases h
  | case3 p d rest k hscan piece tail ih =>
    exact List.mem_cons_of_mem d (List.mem_of_mem_drop (ih h))
  | case4 p d rest k piece tail kind hscan ih =>
    rcases List.mem_cons.mp h with rfl | h
    · rw [String.toList_ofList, List.mem_cons] at hc
      rcases hc with rfl | hc
      · exact List.mem_cons_self
      · exact List.mem_cons_of_mem d (List.mem_of_mem_take hc)
    · exact List.mem_cons_of_mem d (List.mem_of_mem_drop (ih h))

/-- What starts a line end. -/
theorem newline_of_scan {c : Char} {rest : List Char} {k : Nat}
    (h : scan c rest = some (some .newline, k)) :
    (c = '\n' ∧ k = 0) ∨ (c = '\r' ∧ rest.head? = some '\n' ∧ k = 1) := by
  unfold scan at h
  split at h
  · cases h
  · cases h
  · cases h
    exact .inl ⟨rfl, rfl⟩
  · cases h
    exact .inr ⟨rfl, rfl, rfl⟩
  split at h
  · cases h
  split at h
  · cases h
  split at h
  · cases h
  split at h
  · cases h
  split at h
  · by_cases hquote : c = '"'
    · rw [if_pos hquote] at h
      cases h
    · rw [if_neg hquote] at h
      cases h
  · split at h <;> cases h

/-- What starts a token, kind by kind. -/
theorem scan_eq_some {c : Char} {rest : List Char} {kind : Token.Kind} {k : Nat}
    (h : scan c rest = some (some kind, k)) :
    kind = .newline ∨
      (kind = .number ∧ ∃ n, numberLength? (c :: rest) = some n ∧ k = n - 1) ∨
      (kind = .ident ∧ isIdentStart c = true ∧ k = run isIdentPart rest) ∨
      (kind = .string ∧ c = '"' ∧ closingMark? c rest = some k) ∨
      (kind = .char ∧ c = '\'' ∧ closingMark? c rest = some k) ∨
      (kind = .punct ∧ c ∈ punctuation ∧ k = 0) := by
  unfold scan at h
  split at h
  · cases h
  · cases h
  · cases h
    exact .inl rfl
  · cases h
    exact .inl rfl
  split at h
  · cases h
  split at h
  · cases h
  split at h
  · rename_i n hn
    cases h
    exact .inr (.inl ⟨rfl, n, hn, rfl⟩)
  split at h
  · rename_i hident
    cases h
    exact .inr (.inr (.inl ⟨rfl, hident, rfl⟩))
  split at h
  · rename_i k' hclosing
    by_cases hmark : c = '"' ∨ c = '\''
    · rw [if_pos hmark] at hclosing
      by_cases hquote : c = '"'
      · rw [if_pos hquote] at h
        cases h
        exact .inr (.inr (.inr (.inl ⟨rfl, hquote, hclosing⟩)))
      · rw [if_neg hquote] at h
        cases h
        exact .inr (.inr (.inr (.inr (.inl ⟨rfl, hmark.resolve_left hquote, hclosing⟩))))
    · rw [if_neg hmark] at hclosing
      cases hclosing
  · split at h
    · rename_i hpunct
      cases h
      exact .inr (.inr (.inr (.inr (.inr ⟨rfl, hpunct, rfl⟩))))
    · cases h

/-! ## Numbers -/

/-- The characters of numbers besides decimal digits. -/
def numberCharacters : List Char := ['.', 'e', 'E', '+', '-']

/-- Every character of a text is a decimal digit or another character of numbers. -/
def AreNumberCharacters (text : List Char) : Prop :=
  ∀ c ∈ text, isDecimalDigit c = true ∨ c ∈ numberCharacters

/-- What a class covers at the front of a text. -/
theorem take_run (p : Char → Bool) (text : List Char) : text.take (run p text) = text.takeWhile p := by
  induction text with
  | nil => rfl
  | cons c rest ih =>
    rw [run] at ih ⊢
    by_cases hc : p c = true
    · rw [List.takeWhile_cons_of_pos hc, List.length_cons, List.take_succ_cons, ih]
    · rw [List.takeWhile_cons_of_neg hc, List.length_nil, List.take_zero]

/-- The characters a class covers belong to it. -/
theorem mem_take_run {p : Char → Bool} {text : List Char} {c : Char}
    (h : c ∈ text.take (run p text)) : p c = true := by
  rw [take_run] at h
  exact List.all_eq_true.mp List.all_takeWhile c h

/-- Characters of numbers follow characters of numbers. -/
theorem AreNumberCharacters.append {xs ys : List Char} (hx : AreNumberCharacters xs)
    (hy : AreNumberCharacters ys) : AreNumberCharacters (xs ++ ys) := by
  intro c hc
  rcases List.mem_append.mp hc with hc | hc
  · exact hx c hc
  · exact hy c hc

/-- Digits are characters of numbers. -/
theorem areNumberCharacters_digits (text : List Char) :
    AreNumberCharacters (text.take (run isDecimalDigit text)) :=
  fun _ hc => .inl (mem_take_run hc)

/-- A number without its exponent consists of characters of numbers. -/
theorem mantissa_characters {text : List Char} {m : Nat} (h : mantissaLength? text = some m) :
    AreNumberCharacters (text.take m) := by
  unfold mantissaLength? at h
  dsimp only at h
  split at h
  · rename_i rest hrest
    split at h
    · cases h
    · cases h
      rw [Nat.add_assoc, List.take_add, hrest, Nat.add_comm 1, List.take_succ_cons]
      refine (areNumberCharacters_digits text).append ?_
      intro c hc
      rcases List.mem_cons.mp hc with rfl | hc
      · exact .inr (by decide)
      · exact areNumberCharacters_digits rest c hc
  · split at h
    · cases h
    · cases h
      exact areNumberCharacters_digits text

/-- A number without its exponent starts with a digit or a point. -/
theorem mantissa_head {c : Char} {rest : List Char} {m : Nat}
    (h : mantissaLength? (c :: rest) = some m) : isDecimalDigit c = true ∨ c = '.' := by
  by_cases hc : isDecimalDigit c = true
  · exact .inl hc
  · have hrun : run isDecimalDigit (c :: rest) = 0 := by
      rw [run, List.takeWhile_cons_of_neg hc, List.length_nil]
    unfold mantissaLength? at h
    dsimp only at h
    rw [hrun, List.drop_zero] at h
    split at h
    · rename_i heq
      cases heq
      exact .inr rfl
    · cases h

/-- A number without its exponent is not empty. -/
theorem mantissaLength?_pos {text : List Char} {m : Nat} (h : mantissaLength? text = some m) :
    0 < m := by
  unfold mantissaLength? at h
  dsimp only at h
  split at h <;> split at h <;> cases h <;> omega

/-- The length of an exponent after its letter: an optional sign, and digits. -/
theorem exponentLength_cons {e : Char} (he : e = 'e' ∨ e = 'E') (rest : List Char) :
    ∃ sign, AreNumberCharacters (rest.take sign) ∧
      exponentLength (e :: rest) =
        if run isDecimalDigit (rest.drop sign) = 0 then 0
        else 1 + sign + run isDecimalDigit (rest.drop sign) := by
  cases rest with
  | nil => exact ⟨0, (fun c hc => nomatch hc), by simp only [exponentLength, if_pos he]⟩
  | cons s tail =>
    by_cases hs : s = '+' ∨ s = '-'
    · refine ⟨1, fun c hc => ?_, by simp only [exponentLength, if_pos he, if_pos hs]⟩
      obtain rfl := List.mem_singleton.mp hc
      rcases hs with rfl | rfl <;> exact .inr (by decide)
    · exact ⟨0, (fun c hc => nomatch hc), by simp only [exponentLength, if_pos he, if_neg hs]⟩

/-- An exponent consists of characters of numbers. -/
theorem exponent_characters (text : List Char) :
    AreNumberCharacters (text.take (exponentLength text)) := by
  cases text with
  | nil => exact fun c hc => nomatch hc
  | cons e rest =>
    by_cases he : e = 'e' ∨ e = 'E'
    · obtain ⟨sign, hsign, hlength⟩ := exponentLength_cons he rest
      rw [hlength]
      split
      · exact fun c hc => nomatch hc
      · rw [Nat.add_assoc, Nat.add_comm 1, List.take_succ_cons, List.take_add]
        intro c hc
        rcases List.mem_cons.mp hc with rfl | hc
        · rcases he with rfl | rfl <;> exact .inr (by decide)
        · exact hsign.append (areNumberCharacters_digits _) c hc
    · simp only [exponentLength, if_neg he]
      exact fun c hc => nomatch hc

/-- A number starts with a digit or a point; it is a hexadecimal one or consists of characters of
numbers. -/
theorem numberLength?_eq_some {c : Char} {rest : List Char} {n : Nat}
    (h : numberLength? (c :: rest) = some n) :
    0 < n ∧ (isDecimalDigit c = true ∨ c = '.') ∧
      (AreNumberCharacters ((c :: rest).take n) ∨ ∃ x ∈ (c :: rest).take n, x = 'x' ∨ x = 'X') := by
  unfold numberLength? at h
  cases hhex : hexLength? (c :: rest) with
  | some k =>
    rw [hhex] at h
    cases h
    unfold hexLength? at hhex
    split at hhex
    · rename_i x tail heq
      cases heq
      dsimp only at hhex
      split at hhex
      · rename_i hx
        cases hhex
        refine ⟨by omega, .inl (by decide +kernel), .inr ⟨x, ?_, hx.1⟩⟩
        rw [Nat.add_comm, List.take_succ_cons, List.take_succ_cons]
        exact List.mem_cons_of_mem _ List.mem_cons_self
      · cases hhex
    · cases hhex
  | none =>
    rw [hhex] at h
    cases hm : mantissaLength? (c :: rest) with
    | none =>
      rw [hm] at h
      cases h
    | some m =>
      rw [hm] at h
      cases h
      refine ⟨Nat.add_pos_left (mantissaLength?_pos hm) _, mantissa_head hm, .inl ?_⟩
      rw [List.take_add]
      exact (mantissa_characters hm).append (exponent_characters _)

/-! ## Kinds of tokens -/

/-- Digits that are no decimal digits, and letters, do not occur in a number that consists of digits. -/
theorem not_isDigitLike_numberCharacters {c : Char} (h : c ∈ numberCharacters ∨ c = 'x' ∨ c = 'X') :
    isDigitLike c = false := by
  have hall : (numberCharacters ++ ['x', 'X']).all (fun c => !isDigitLike c) = true := by
    decide +kernel
  have hmem : c ∈ numberCharacters ++ ['x', 'X'] := by
    refine List.mem_append.mpr (h.imp_right fun h => ?_)
    rcases h with rfl | rfl <;> decide
  have hc := List.all_eq_true.mp hall c hmem
  rwa [Bool.not_eq_true'] at hc

/-- Characters that start a name are ASCII. -/
theorem toNat_lt_of_isIdentStart {c : Char} (h : isIdentStart c = true) : c.toNat < 128 := by
  rw [isIdentStart, Bool.or_eq_true, decide_eq_true_eq] at h
  rcases h with h | rfl
  · change (decide (c.val ≥ 'A'.val ∧ c.val ≤ 'Z'.val) ||
      (decide (c.val ≥ 'a'.val) && decide (c.val ≤ 'z'.val))) = true at h
    simp only [Bool.or_eq_true, Bool.and_eq_true, decide_eq_true_eq, ge_iff_le,
      UInt32.le_iff_toNat_le] at h
    change c.val.toNat < 128
    have : ('Z' : Char).val.toNat = 90 := rfl
    have : ('z' : Char).val.toNat = 122 := rfl
    omega
  · decide

/-- No name starts with a digit. -/
theorem isDigitLike_of_isIdentStart {c : Char} (h : isIdentStart c = true) :
    isDigitLike c = false := by
  have hall : ∀ n < 128, isIdentStart (Char.ofNat n) = true → isDigitLike (Char.ofNat n) = false := by
    decide +kernel
  have := hall c.toNat (toNat_lt_of_isIdentStart h)
  rw [Char.ofNat_toNat] at this
  exact this h

/-- A token of the kind of an operand is an operand. -/
theorem isOperand_of_isPiece {token : Token} (h : IsPiece token)
    (hkind : token.kind = .number ∨ token.kind = .ident ∨ token.kind = .char) : token.IsOperand := by
  obtain ⟨c, rest, k, hscan, htext⟩ := h
  refine ⟨c, rest.take k, by rw [htext, String.toList_ofList], ?_⟩
  rcases scan_eq_some hscan with h | ⟨hnumber, n, hn, -⟩ | ⟨hident, hstart, -⟩ | ⟨h, -⟩ |
    ⟨hchar, hmark, -⟩ | ⟨h, -⟩
  · rw [h] at hkind
    rcases hkind with hkind | hkind | hkind <;> cases hkind
  · exact .inl ⟨hnumber, (numberLength?_eq_some hn).2.1⟩
  · exact .inr (.inl ⟨hident, hstart⟩)
  · rw [h] at hkind
    rcases hkind with hkind | hkind | hkind <;> cases hkind
  · exact .inr (.inr ⟨hchar, hmark⟩)
  · rw [h] at hkind
    rcases hkind with hkind | hkind | hkind <;> cases hkind

/-- A number that consists of digits consists of decimal digits. -/
theorem isDecimalDigit_of_isPiece {token : Token} (h : IsPiece token) (hkind : token.kind = .number)
    (hdigits : isDigits token.text.toList = true) : ∀ c ∈ token.text.toList, isDecimalDigit c = true := by
  obtain ⟨c, rest, k, hscan, htext⟩ := h
  rcases scan_eq_some hscan with h | ⟨-, n, hn, hk⟩ | ⟨h, -⟩ | ⟨h, -⟩ | ⟨h, -⟩ | ⟨h, -⟩
  · cases hkind.symm.trans h
  · obtain ⟨hpos, -, hcharacters⟩ := numberLength?_eq_some hn
    have hpiece : token.text.toList = (c :: rest).take n := by
      rw [htext, String.toList_ofList, hk, ← List.take_succ_cons, Nat.sub_add_cancel hpos]
    rw [isDigits, Bool.and_eq_true, List.all_eq_true] at hdigits
    rw [hpiece] at hdigits ⊢
    rcases hcharacters with h | ⟨x, hx, hmark⟩
    · intro d hd
      refine (h d hd).resolve_right fun hother => ?_
      cases (hdigits.2 d hd).symm.trans (not_isDigitLike_numberCharacters (.inl hother))
    · cases (hdigits.2 x hx).symm.trans (not_isDigitLike_numberCharacters (.inr hmark))
  all_goals cases hkind.symm.trans h

end SdkBindings.Lexer
