import SdkBindings.Proofs.Lexing.Layout

/-!
# Outside comments and literals

Inside comments and between quotation marks a header may hold any character.  Outside of them some
characters stand for nothing: those that are neither printable ASCII, nor blanks or line ends, nor
decimal digits of some script (`IsStray`).  Which places are outside is said by reading from the
left (`Outside`): a comment or a closed literal is passed over as a whole, and any other character
counts by itself, so nothing is said about numbers, identifiers or the pieces of the scanner.

Cutting a header fails exactly at the first stray character outside of comments and literals
(`lexFrom_failure`).  The scanner takes longer pieces than single characters, but in none of those
can a stray character, a comment or a literal begin (`strayAt_of_scan`).
-/

namespace SdkBindings.Lexer

open Text

/-! ## Comments and literals -/

/-- A comment in front of `after`: up to the end of its line, or up to the next `*/`. -/
inductive Comment : List Char → List Char → Prop
  | line {body after : List Char} (h : '\n' ∉ body) (hend : ∀ c ∈ after.head?, c = '\n') :
      Comment ('/' :: '/' :: body) after
  | block {body after : List Char} (h : ¬ ['*', '/'] <:+: body) :
      Comment ('/' :: '*' :: (body ++ ['*', '/'])) after

/-- What may stand between two quotation marks: a backslash with any character after it, and
characters that are no mark, no backslash and no line feed. -/
inductive LiteralBody (mark : Char) : List Char → Prop
  | nil : LiteralBody mark []
  | escaped {c : Char} {body : List Char} (rest : LiteralBody mark body) :
      LiteralBody mark ('\\' :: c :: body)
  | plain {c : Char} {body : List Char} (hmark : c ≠ mark) (hescape : c ≠ '\\') (hline : c ≠ '\n')
      (rest : LiteralBody mark body) : LiteralBody mark (c :: body)

/-- A comment, or a literal that is closed, in front of `after`. -/
inductive Covers : List Char → List Char → Prop
  | comment {piece after : List Char} (h : Comment piece after) : Covers piece after
  | literal {mark : Char} {body after : List Char} (hmark : mark = '"' ∨ mark = '\'')
      (h : LiteralBody mark body) : Covers (mark :: (body ++ [mark])) after

/-- `after` starts outside of comments and literals when what stands before it is read from the
left. -/
inductive Outside : List Char → List Char → Prop
  | nil (after : List Char) : Outside [] after
  | cover {piece before after : List Char} (h : Covers piece (before ++ after))
      (rest : Outside before after) : Outside (piece ++ before) after
  | plain {c : Char} {before after : List Char}
      (h : ∀ piece rest, c :: (before ++ after) = piece ++ rest → ¬ Covers piece rest)
      (rest : Outside before after) : Outside (c :: before) after

/-- A character that stands for nothing outside of comments and literals: neither printable ASCII,
nor a blank or a line end, nor a decimal digit. -/
def IsStray (c : Char) : Prop :=
  ¬ (32 ≤ c.toNat ∧ c.toNat ≤ 126) ∧ c ∉ ['\t', '\x0b', '\x0c', '\r', '\n'] ∧
    isDecimalDigit c = false

/-- After `before` the text goes on with the stray character `c`, outside of comments and
literals. -/
def StrayAt (text before : List Char) (c : Char) : Prop :=
  IsStray c ∧ ∃ after, text = before ++ c :: after ∧ Outside before (c :: after)

/-! ## How the scanner finds comments and literals -/

/-- A block comment that ends has a body without an end of its own. -/
theorem commentEnd?_eq_some {text : List Char} {n : Nat} (h : commentEnd? text = some n) :
    ∃ body after, text = body ++ '*' :: '/' :: after ∧ ¬ ['*', '/'] <:+: body ∧
      n = body.length + 2 := by
  fun_induction commentEnd? text generalizing n with
  | case1 after =>
    cases h
    refine ⟨[], after, rfl, fun hinner => ?_, rfl⟩
    exact absurd hinner.length_le (by decide)
  | case2 c rest hopen ih =>
    obtain ⟨k, hk, rfl⟩ := Option.map_eq_some_iff.mp h
    obtain ⟨body, after, rfl, hbody, rfl⟩ := ih hk
    refine ⟨c :: body, after, rfl, fun hinner => ?_, rfl⟩
    rcases List.infix_cons_iff.mp hinner with hfront | hinner
    · obtain ⟨tail, htail⟩ := hfront
      cases htail
      exact hopen _ rfl rfl
    · exact hbody hinner
  | case3 => cases h

/-- What is counted after a slash makes a comment with it. -/
theorem comment_of_commentLength? {rest : List Char} {k : Nat} (h : commentLength? rest = some k) :
    ∃ piece after, rest = piece ++ after ∧ piece.length = k ∧ Comment ('/' :: piece) after := by
  unfold commentLength? at h
  split at h
  · rename_i body
    cases h
    refine ⟨'/' :: body.takeWhile (· ≠ '\n'), body.dropWhile (· ≠ '\n'), ?_, ?_, .line ?_ ?_⟩
    · rw [List.cons_append, List.takeWhile_append_dropWhile]
    · rw [List.length_cons, Nat.add_comm]
      rfl
    · intro hline
      have := List.all_eq_true.mp (List.all_takeWhile (p := (· ≠ '\n')) (l := body)) _ hline
      cases this
    · intro c hc
      have hhead := List.head?_dropWhile_not (fun c => decide (c ≠ '\n')) body
      rw [Option.mem_def.mp hc] at hhead
      simpa using hhead
  · obtain ⟨n, hn, rfl⟩ := Option.map_eq_some_iff.mp h
    obtain ⟨body, after, rfl, hbody, rfl⟩ := commentEnd?_eq_some hn
    refine ⟨'*' :: (body ++ ['*', '/']), after, by simp, ?_, .block hbody⟩
    simp only [List.length_cons, List.length_append, List.length_nil]
    omega
  · cases h

/-- A comment is counted as a whole. -/
theorem Comment.commentLength? {c : Char} {piece after : List Char}
    (h : Comment (c :: piece) after) :
    c = '/' ∧ Lexer.commentLength? (piece ++ after) = some piece.length := by
  cases h with
  | line h hend => exact ⟨rfl, commentLength?_line h hend⟩
  | @block body _ h =>
    refine ⟨rfl, ?_⟩
    have hcount := commentLength?_block h after
    simpa using hcount

/-- A literal is searched up to its closing mark. -/
theorem LiteralBody.closingMark? {mark : Char} (hmark : mark ≠ '\\') {body : List Char}
    (h : LiteralBody mark body) (after : List Char) :
    Lexer.closingMark? mark (body ++ mark :: after) = some (body.length + 1) := by
  induction h with
  | nil =>
    rw [List.nil_append, Lexer.closingMark?, if_pos rfl]
    · rfl
    · exact fun _ _ hc _ => hmark hc
  | escaped _ ih =>
    rw [List.cons_append, List.cons_append, Lexer.closingMark?, ih]
    rfl
  | plain hother hescape hline _ ih =>
    rw [List.cons_append, Lexer.closingMark?, if_neg hother, if_neg (not_or.mpr ⟨hescape, hline⟩), ih]
    · rfl
    · exact fun _ _ hc _ => hescape hc

/-- What is found in front of a closing mark may stand between the marks. -/
theorem literalBody_of_closingMark? {mark : Char} {text : List Char} {n : Nat}
    (h : closingMark? mark text = some n) :
    ∃ body after, text = body ++ mark :: after ∧ n = body.length + 1 ∧ LiteralBody mark body := by
  fun_induction closingMark? mark text generalizing n with
  | case1 => cases h
  | case2 escaped rest ih =>
    obtain ⟨k, hk, rfl⟩ := Option.map_eq_some_iff.mp h
    obtain ⟨body, after, rfl, rfl, hbody⟩ := ih hk
    exact ⟨'\\' :: escaped :: body, after, rfl, rfl, .escaped hbody⟩
  | case3 rest hescape =>
    cases h
    exact ⟨[], rest, rfl, rfl, .nil⟩
  | case4 c rest hescape hother hend => cases h
  | case5 c rest hescape hother hend ih =>
    obtain ⟨k, hk, rfl⟩ := Option.map_eq_some_iff.mp h
    obtain ⟨body, after, rfl, rfl, hbody⟩ := ih hk
    obtain ⟨hbackslash, hline⟩ := not_or.mp hend
    exact ⟨c :: body, after, rfl, rfl, .plain hother hbackslash hline hbody⟩

/-- How many characters after `c` belong to the comment or the literal that `c` starts, if it starts
one. -/
def coverLength? (c : Char) (rest : List Char) : Option Nat :=
  if c = '/' then commentLength? rest
  else if c = '"' ∨ c = '\'' then closingMark? c rest
  else none

/-- A comment or a literal is found as a whole. -/
theorem Covers.coverLength? {c : Char} {piece after : List Char} (h : Covers (c :: piece) after) :
    Lexer.coverLength? c (piece ++ after) = some piece.length := by
  cases h with
  | comment h =>
    obtain ⟨rfl, hlength⟩ := h.commentLength?
    rw [Lexer.coverLength?, if_pos rfl, hlength]
  | literal hmark h =>
    have hother : c ≠ '/' ∧ c ≠ '\\' := by rcases hmark with rfl | rfl <;> decide
    rw [Lexer.coverLength?, if_neg hother.1, if_pos hmark, List.append_assoc, List.singleton_append,
      h.closingMark? hother.2, List.length_append]
    rfl

/-- What is found is a comment or a literal. -/
theorem covers_of_coverLength? {c : Char} {rest : List Char} {k : Nat}
    (h : coverLength? c rest = some k) :
    ∃ piece after, rest = piece ++ after ∧ piece.length = k ∧ Covers (c :: piece) after := by
  unfold coverLength? at h
  split at h
  · rename_i hslash
    obtain ⟨piece, after, hrest, hlength, hcomment⟩ := comment_of_commentLength? h
    exact ⟨piece, after, hrest, hlength, hslash ▸ .comment hcomment⟩
  · split at h
    · rename_i hmark
      obtain ⟨body, after, rfl, rfl, hbody⟩ := literalBody_of_closingMark? h
      exact ⟨body ++ [c], after, by simp, by simp, .literal hmark hbody⟩
    · cases h

/-- Comments and literals are not empty. -/
theorem Covers.exists_cons {piece after : List Char} (h : Covers piece after) :
    ∃ c rest, piece = c :: rest := by
  cases h with
  | comment h => cases h <;> exact ⟨_, _, rfl⟩
  | literal => exact ⟨_, _, rfl⟩

/-- At one place there is at most one comment or literal. -/
theorem Covers.unique {piece piece' after after' : List Char} (h : Covers piece after)
    (h' : Covers piece' after') (htext : piece ++ after = piece' ++ after') :
    piece = piece' ∧ after = after' := by
  obtain ⟨c, rest, rfl⟩ := h.exists_cons
  obtain ⟨c', rest', rfl⟩ := h'.exists_cons
  rw [List.cons_append, List.cons_append, List.cons.injEq] at htext
  obtain ⟨rfl, htext⟩ := htext
  have hlength := h.coverLength?
  rw [htext, h'.coverLength?] at hlength
  obtain ⟨rfl, rfl⟩ := List.append_inj htext (Option.some.inj hlength).symm
  exact ⟨rfl, rfl⟩

/-- The scanner takes comments and literals as a whole. -/
theorem scan_of_coverLength? {c : Char} {rest : List Char} {k : Nat}
    (h : coverLength? c rest = some k) : ∃ kind, scan c rest = some (kind, k) := by
  unfold coverLength? at h
  split at h
  · rename_i hslash
    exact ⟨none, hslash ▸ scan_comment h⟩
  · split at h
    · rename_i hmark
      exact ⟨_, scan_quoted hmark h⟩
    · cases h

/-! ## Characters that stand for nothing -/

/-- Characters that neither are stray nor start a comment or a literal. -/
structure IsPlain (c : Char) : Prop where
  /-- It stands for something. -/
  not_stray : ¬ IsStray c
  /-- No comment and no literal starts with it. -/
  not_opening : c ∉ ['/', '"', '\'']

/-- Without an opening character no comment and no literal is found. -/
theorem coverLength?_eq_none {c : Char} (h : c ∉ ['/', '"', '\'']) (rest : List Char) :
    coverLength? c rest = none := by
  simp only [List.mem_cons, not_or] at h
  rw [coverLength?, if_neg h.1, if_neg (not_or.mpr ⟨h.2.1, h.2.2.1⟩)]

/-- No comment and no literal starts with a stray character. -/
theorem IsStray.not_opening {c : Char} (h : IsStray c) : c ∉ ['/', '"', '\''] := by
  intro hopen
  apply h.1
  simp only [List.mem_cons, List.not_mem_nil, or_false] at hopen
  rcases hopen with rfl | rfl | rfl <;> decide

/-- A decimal digit is a plain character. -/
theorem isPlain_of_isDecimalDigit {c : Char} (h : isDecimalDigit c = true) : IsPlain c := by
  refine ⟨fun hstray => absurd h (by rw [hstray.2.2]; decide), fun hopen => ?_⟩
  have hnone : ['/', '"', '\''].all (fun c => !isDecimalDigit c) = true := by decide +kernel
  have := List.all_eq_true.mp hnone c hopen
  rw [h] at this
  cases this

/-- Letters and digits of ASCII are plain. -/
theorem isPlain_of_isAlphanum {c : Char} (h : c.isAlphanum = true) : IsPlain c := by
  constructor
  · rintro ⟨hprintable, -⟩
    apply hprintable
    delta Char.isAlphanum Char.isAlpha Char.isUpper Char.isLower Char.isDigit at h
    simp only [Bool.or_eq_true, Bool.and_eq_true, decide_eq_true_eq, ge_iff_le,
      UInt32.le_iff_toNat_le] at h
    change ((65 ≤ c.toNat ∧ c.toNat ≤ 90) ∨ (97 ≤ c.toNat ∧ c.toNat ≤ 122)) ∨
      (48 ≤ c.toNat ∧ c.toNat ≤ 57) at h
    omega
  · intro hopen
    have hnone : ['/', '"', '\''].all (fun c => !c.isAlphanum) = true := by decide
    have := List.all_eq_true.mp hnone c hopen
    rw [h] at this
    cases this

/-- What continues an identifier is plain. -/
theorem isPlain_of_isIdentPart {c : Char} (h : isIdentPart c = true) : IsPlain c := by
  rw [isIdentPart, Bool.or_eq_true, decide_eq_true_eq] at h
  rcases h with h | rfl
  · exact isPlain_of_isAlphanum h
  · exact ⟨fun hstray => hstray.1 (by decide), by decide⟩

/-- Blanks are plain. -/
theorem isPlain_of_isSpace {c : Char} (h : isSpace c = true) : IsPlain c := by
  simp only [isSpace, Bool.or_eq_true, decide_eq_true_eq] at h
  rcases h with (((rfl | rfl) | rfl) | rfl) | rfl
  · exact ⟨fun hstray => hstray.1 (by decide), by decide⟩
  all_goals exact ⟨fun hstray => hstray.2.1 (by decide), by decide⟩

/-- The characters that end a line are plain. -/
theorem isPlain_of_isLineEnd {c : Char} (h : c = '\r' ∨ c = '\n') : IsPlain c := by
  rcases h with rfl | rfl <;> exact ⟨fun hstray => hstray.2.1 (by decide), by decide⟩

/-- Hexadecimal digits are plain. -/
theorem isPlain_of_isHexDigit {c : Char} (h : isHexDigit c = true) : IsPlain c := by
  have hbound : c.toNat < 128 := by
    unfold isHexDigit hexValue? at h
    simp only [Char.le_def, UInt32.le_iff_toNat_le] at h
    change (if 48 ≤ c.toNat ∧ c.toNat ≤ 57 then _ else if 97 ≤ c.toNat ∧ c.toNat ≤ 102 then _
      else if 65 ≤ c.toNat ∧ c.toNat ≤ 70 then _ else none : Option Nat).isSome = true at h
    split at h
    · omega
    · split at h
      · omega
      · split at h
        · omega
        · cases h
  have hall : ∀ n < 128, isHexDigit (Char.ofNat n) = true → (Char.ofNat n).isAlphanum = true := by
    decide +kernel
  have := hall c.toNat hbound
  rw [Char.ofNat_toNat] at this
  exact isPlain_of_isAlphanum (this h)

/-- The characters of a number are plain. -/
theorem isPlain_of_numberLength? {text : List Char} {n : Nat} (h : numberLength? text = some n) :
    ∀ c ∈ text.take n, IsPlain c := by
  have hother {c : Char} (hc : c ∈ numberCharacters) : IsPlain c := by
    simp only [numberCharacters, List.mem_cons, List.not_mem_nil, or_false] at hc
    rcases hc with rfl | rfl | rfl | rfl | rfl <;>
      exact ⟨fun hstray => hstray.1 (by decide), by decide⟩
  have hcharacters {piece : List Char} (hpiece : AreNumberCharacters piece) :
      ∀ c ∈ piece, IsPlain c :=
    fun c hc => (hpiece c hc).elim isPlain_of_isDecimalDigit hother
  unfold numberLength? at h
  cases hhex : hexLength? text with
  | some k =>
    rw [hhex] at h
    cases h
    unfold hexLength? at hhex
    split at hhex
    · rename_i x rest
      dsimp only at hhex
      split at hhex
      · rename_i hx
        cases hhex
        rw [Nat.add_comm, List.take_succ_cons, List.take_succ_cons]
        intro c hc
        rcases List.mem_cons.mp hc with rfl | hc
        · exact isPlain_of_isAlphanum (by decide)
        rcases List.mem_cons.mp hc with rfl | hc
        · rcases hx.1 with rfl | rfl <;> exact isPlain_of_isAlphanum (by decide)
        · exact isPlain_of_isHexDigit (mem_take_run hc)
      · cases hhex
    · cases hhex
  | none =>
    rw [hhex] at h
    cases hm : mantissaLength? text with
    | none =>
      rw [hm] at h
      cases h
    | some m =>
      rw [hm] at h
      cases h
      rw [List.take_add]
      exact hcharacters ((mantissa_characters hm).append (exponent_characters _))

/-! ## What the scanner passes over -/

/-- What gives no token: a line that is continued, blanks, or a comment. -/
theorem scan_eq_skip {c : Char} {rest : List Char} {k : Nat} (h : scan c rest = some (none, k)) :
    (c = '\\' ∧ ∃ tail, rest = '\n' :: tail ∧ k = 1) ∨
      (c = '\\' ∧ ∃ tail, rest = '\r' :: '\n' :: tail ∧ k = 2) ∨
      (isSpace c = true ∧ k = run isSpace rest) ∨ (c = '/' ∧ commentLength? rest = some k) := by
  unfold scan at h
  split at h
  · cases h
    exact .inl ⟨rfl, _, rfl, rfl⟩
  · cases h
    exact .inr (.inl ⟨rfl, _, rfl, rfl⟩)
  · cases h
  · cases h
  split at h
  · rename_i hspace
    cases h
    exact .inr (.inr (.inl ⟨hspace, rfl⟩))
  split at h
  · rename_i hcomment
    cases h
    split at hcomment
    · rename_i hslash
      exact .inr (.inr (.inr ⟨hslash, hcomment⟩))
    · cases hcomment
  split at h
  · cases h
  split at h
  · cases h
  split at h
  · cases h
  · split at h <;> cases h

/-- A piece that is neither a comment nor a literal does not start with a stray character, and
nothing but plain characters follow. -/
theorem plain_of_scan {c : Char} {rest : List Char} {kind : Option Token.Kind} {k : Nat}
    (h : scan c rest = some (kind, k)) (hcover : coverLength? c rest = none) :
    ¬ IsStray c ∧ ∀ d ∈ rest.take k, IsPlain d := by
  have hmark {d : Char} (hd : d ∈ punctuation) : ¬ IsStray d := by
    have hall : punctuation.all (fun d => 32 ≤ d.toNat && d.toNat ≤ 126) = true := by decide
    have := List.all_eq_true.mp hall d hd
    simp only [Bool.and_eq_true, decide_eq_true_eq] at this
    exact fun hstray => hstray.1 this
  cases kind with
  | none =>
    rcases scan_eq_skip h with ⟨rfl, tail, rfl, rfl⟩ | ⟨rfl, tail, rfl, rfl⟩ | ⟨hspace, rfl⟩ |
      ⟨rfl, hcomment⟩
    · refine ⟨hmark (by decide), fun d hd => isPlain_of_isLineEnd (.inr ?_)⟩
      exact List.mem_singleton.mp hd
    · refine ⟨hmark (by decide), fun d hd => isPlain_of_isLineEnd ?_⟩
      simpa using hd
    · exact ⟨(isPlain_of_isSpace hspace).not_stray, fun d hd => isPlain_of_isSpace (mem_take_run hd)⟩
    · rw [coverLength?, if_pos rfl, hcomment] at hcover
      cases hcover
  | some kind =>
    have hquote {mark : Char} (hmark : mark = '"' ∨ mark = '\'') (hc : c = mark) :
        closingMark? c rest ≠ some k := by
      intro hclosing
      have hslash : c ≠ '/' := by rcases hmark with rfl | rfl <;> rw [hc] <;> decide
      rw [coverLength?, if_neg hslash, if_pos (hc ▸ hmark), hclosing] at hcover
      cases hcover
    rcases scan_eq_some h with rfl | ⟨-, n, hn, rfl⟩ | ⟨-, hstart, rfl⟩ | ⟨-, hc, hclosing⟩ |
      ⟨-, hc, hclosing⟩ | ⟨-, hpunct, rfl⟩
    · rcases newline_of_scan h with ⟨rfl, rfl⟩ | ⟨rfl, hhead, rfl⟩
      · exact ⟨(isPlain_of_isLineEnd (.inr rfl)).not_stray, fun d hd => nomatch hd⟩
      · obtain ⟨tail, rfl⟩ := List.head?_eq_some_iff.mp hhead
        refine ⟨(isPlain_of_isLineEnd (.inl rfl)).not_stray, fun d hd => ?_⟩
        exact isPlain_of_isLineEnd (.inr (List.mem_singleton.mp hd))
    · have hplain := isPlain_of_numberLength? hn
      rw [← Nat.sub_add_cancel (numberLength?_eq_some hn).1, List.take_succ_cons] at hplain
      exact ⟨(hplain c List.mem_cons_self).not_stray,
        fun d hd => hplain d (List.mem_cons_of_mem c hd)⟩
    · exact ⟨(isPlain_of_isIdentPart (isIdentPart_of_isIdentStart hstart)).not_stray,
        fun d hd => isPlain_of_isIdentPart (mem_take_run hd)⟩
    · exact absurd hclosing (hquote (.inl rfl) hc)
    · exact absurd hclosing (hquote (.inr rfl) hc)
    · exact ⟨hmark hpunct, fun d hd => nomatch hd⟩

/-- A decimal digit starts a number. -/
theorem numberLength?_digit {c : Char} (h : isDecimalDigit c = true) (rest : List Char) :
    numberLength? (c :: rest) ≠ none := by
  have hrun : run isDecimalDigit (c :: rest) ≠ 0 := by
    rw [run, List.takeWhile_cons_of_pos h, List.length_cons]
    exact Nat.succ_ne_zero _
  have hmantissa : mantissaLength? (c :: rest) ≠ none := by
    unfold mantissaLength?
    dsimp only
    split
    · rw [if_neg (by omega)]
      exact Option.some_ne_none _
    · rw [if_neg hrun]
      exact Option.some_ne_none _
  obtain ⟨m, hm⟩ := Option.ne_none_iff_exists'.mp hmantissa
  rw [numberLength?, hm]
  cases hexLength? (c :: rest) <;> exact Option.some_ne_none _

/-- Every printable character of ASCII starts something. -/
theorem starts_of_printable {c : Char} (h : 32 ≤ c.toNat ∧ c.toNat ≤ 126) :
    isSpace c = true ∨ isDecimalDigit c = true ∨ isIdentStart c = true ∨ c ∈ punctuation := by
  have hall : ∀ n < 127, 32 ≤ n → isSpace (Char.ofNat n) = true ∨
      isDecimalDigit (Char.ofNat n) = true ∨ isIdentStart (Char.ofNat n) = true ∨
        Char.ofNat n ∈ punctuation := by
    decide +kernel
  have := hall c.toNat (by omega) h.1
  rwa [Char.ofNat_toNat] at this

/-- Something starts with every character that is not stray. -/
theorem isStray_of_scan {c : Char} {rest : List Char} (h : scan c rest = none) : IsStray c := by
  unfold scan at h
  split at h
  · cases h
  · cases h
  · cases h
  · cases h
  rename_i hline _ _ _
  split at h
  · cases h
  rename_i hspace
  split at h
  · cases h
  split at h
  · cases h
  rename_i hnumber
  split at h
  · cases h
  rename_i hstart
  split at h
  · cases h
  split at h
  · cases h
  rename_i hpunct
  have hdigit : isDecimalDigit c = false := by
    cases hdigit : isDecimalDigit c with
    | false => rfl
    | true => exact absurd hnumber (numberLength?_digit hdigit rest)
  refine ⟨fun hprintable => ?_, fun hblank => ?_, hdigit⟩
  · rcases starts_of_printable hprintable with h | h | h | h
    · exact hspace h
    · cases hdigit.symm.trans h
    · exact hstart h
    · exact hpunct h
  · simp only [List.mem_cons, List.not_mem_nil, or_false] at hblank
    rcases hblank with rfl | rfl | rfl | rfl | rfl
    · exact hspace (by decide)
    · exact hspace (by decide)
    · exact hspace (by decide)
    · exact hspace (by decide)
    · exact hline rfl

/-- Nothing starts with a stray character, and with no other. -/
theorem scan_eq_none_iff {c : Char} {rest : List Char} : scan c rest = none ↔ IsStray c := by
  refine ⟨isStray_of_scan, fun hstray => ?_⟩
  cases h : scan c rest with
  | none => rfl
  | some piece =>
    exact absurd hstray (plain_of_scan h (coverLength?_eq_none hstray.not_opening rest)).1

/-! ## The first stray character -/

/-- The stray characters after a comment or a literal are those of the text that follows it. -/
theorem Covers.strayAt_iff {piece after before : List Char} {c : Char} (h : Covers piece after) :
    StrayAt (piece ++ after) before c ↔
      ∃ before', before = piece ++ before' ∧ StrayAt after before' c := by
  constructor
  · rintro ⟨hstray, rest, htext, houtside⟩
    cases houtside with
    | nil =>
      obtain ⟨d, tail, rfl⟩ := h.exists_cons
      cases htext
      cases h.coverLength?.symm.trans (coverLength?_eq_none hstray.not_opening _)
    | @cover piece' before' _ h' houtside =>
      rw [List.append_assoc] at htext
      obtain ⟨rfl, rfl⟩ := h.unique h' htext
      exact ⟨before', rfl, hstray, rest, rfl, houtside⟩
    | plain hnone houtside => exact absurd h (hnone _ _ htext.symm)
  · rintro ⟨before', rfl, hstray, rest, rfl, houtside⟩
    exact ⟨hstray, rest, by rw [List.append_assoc], .cover h houtside⟩

/-- The stray characters after a character that stands for something and starts neither a comment
nor a literal are those of the text that follows it. -/
theorem strayAt_cons_iff {d : Char} {rest before : List Char} {c : Char} (hd : ¬ IsStray d)
    (hcover : coverLength? d rest = none) :
    StrayAt (d :: rest) before c ↔ ∃ before', before = d :: before' ∧ StrayAt rest before' c := by
  have hnone : ∀ piece after, d :: rest = piece ++ after → ¬ Covers piece after := by
    intro piece after htext h
    obtain ⟨e, tail, rfl⟩ := h.exists_cons
    rw [List.cons_append, List.cons.injEq] at htext
    obtain ⟨rfl, rfl⟩ := htext
    rw [h.coverLength?] at hcover
    cases hcover
  constructor
  · rintro ⟨hstray, after, htext, houtside⟩
    cases houtside with
    | nil =>
      cases htext
      exact absurd hstray hd
    | cover h houtside =>
      rw [List.append_assoc] at htext
      exact absurd h (hnone _ _ htext)
    | @plain e before' _ _ houtside =>
      cases htext
      exact ⟨before', rfl, hstray, after, rfl, houtside⟩
  · rintro ⟨before', rfl, hstray, after, rfl, houtside⟩
    exact ⟨hstray, after, rfl, .plain hnone houtside⟩

/-- The stray characters after plain characters are those of the text that follows them. -/
theorem strayAt_append_iff {piece : List Char} (h : ∀ d ∈ piece, IsPlain d) {after before : List Char}
    {c : Char} : StrayAt (piece ++ after) before c ↔
      ∃ before', before = piece ++ before' ∧ StrayAt after before' c := by
  induction piece generalizing before with
  | nil => exact ⟨fun hstray => ⟨before, rfl, hstray⟩, fun ⟨_, heq, hstray⟩ => heq ▸ hstray⟩
  | cons d piece ih =>
    have hd : IsPlain d := h d List.mem_cons_self
    have hpiece : ∀ e ∈ piece, IsPlain e := fun e he => h e (List.mem_cons_of_mem d he)
    rw [List.cons_append, strayAt_cons_iff hd.not_stray (coverLength?_eq_none hd.not_opening _)]
    constructor
    · rintro ⟨tail, rfl, htail⟩
      obtain ⟨before', rfl, hstray⟩ := (ih hpiece).mp htail
      exact ⟨before', rfl, hstray⟩
    · rintro ⟨before', rfl, hstray⟩
      exact ⟨piece ++ before', rfl, (ih hpiece).mpr ⟨before', rfl, hstray⟩⟩

/-- The stray characters after a piece of the scanner are those of the text that is left. -/
theorem strayAt_of_scan {c d : Char} {rest before : List Char} {kind : Option Token.Kind} {k : Nat}
    (h : scan c rest = some (kind, k)) :
    StrayAt (c :: rest) before d ↔
      ∃ before', before = c :: rest.take k ++ before' ∧ StrayAt (rest.drop k) before' d := by
  cases hcover : coverLength? c rest with
  | some j =>
    obtain ⟨kind', hscan⟩ := scan_of_coverLength? hcover
    rw [h] at hscan
    cases hscan
    obtain ⟨piece, after, rfl, rfl, hcovers⟩ := covers_of_coverLength? hcover
    rw [List.take_left, List.drop_left]
    exact hcovers.strayAt_iff
  | none =>
    obtain ⟨hc, hplain⟩ := plain_of_scan h hcover
    have hrest (tail : List Char) : StrayAt rest tail d ↔
        ∃ before', tail = rest.take k ++ before' ∧ StrayAt (rest.drop k) before' d := by
      rw [← strayAt_append_iff hplain, List.take_append_drop]
    rw [strayAt_cons_iff hc hcover]
    constructor
    · rintro ⟨tail, rfl, htail⟩
      obtain ⟨before', rfl, hstray⟩ := (hrest tail).mp htail
      exact ⟨before', rfl, hstray⟩
    · rintro ⟨before', rfl, hstray⟩
      exact ⟨rest.take k ++ before', rfl, (hrest _).mpr ⟨before', rfl, hstray⟩⟩

/-- After `before` the text has its first stray character, `c`. -/
def FirstStray (text before : List Char) (c : Char) : Prop :=
  StrayAt text before c ∧ ∀ before' c', StrayAt text before' c' → before.length ≤ before'.length

/-- There is only one first stray character. -/
theorem FirstStray.unique {text before before' : List Char} {c c' : Char}
    (h : FirstStray text before c) (h' : FirstStray text before' c') : before = before' ∧ c = c' := by
  have hlength : before.length = before'.length :=
    Nat.le_antisymm (h.2 _ _ h'.1) (h'.2 _ _ h.1)
  obtain ⟨⟨-, after, htext, -⟩, -⟩ := h
  obtain ⟨⟨-, after', htext', -⟩, -⟩ := h'
  obtain ⟨hbefore, hafter⟩ := List.append_inj (htext.symm.trans htext') hlength
  exact ⟨hbefore, (List.cons.inj hafter).1⟩

/-- The first stray character after a piece of the scanner is that of the text that is left. -/
theorem FirstStray.of_scan {c d : Char} {rest before : List Char} {kind : Option Token.Kind} {k : Nat}
    (hscan : scan c rest = some (kind, k)) (h : FirstStray (rest.drop k) before d) :
    FirstStray (c :: rest) (c :: rest.take k ++ before) d := by
  refine ⟨(strayAt_of_scan hscan).mpr ⟨before, rfl, h.1⟩, fun before' d' h' => ?_⟩
  obtain ⟨tail, rfl, htail⟩ := (strayAt_of_scan hscan).mp h'
  rw [List.length_append, List.length_append]
  exact Nat.add_le_add_left (h.2 tail d' htail) _

/-- The error at a character that starts no token. -/
def strayError (file : String) (p : Position) (c : Char) : SyntaxError :=
  ⟨file, p.line, p.column, "token", c.toString, ""⟩

/-- A failure is the error at the first stray character, which there is exactly if there is a
failure. -/
def FailsAtFirstStray (file : String) (p : Position) (text : List Char) :
    Option SyntaxError → Prop
  | none => ∀ before c, ¬ StrayAt text before c
  | some e => ∃ before c, FirstStray text before c ∧ e = strayError file (p.after before) c

/-- What is said of the text that is left holds of the text with a piece of the scanner in front. -/
theorem FailsAtFirstStray.of_scan {file : String} {p : Position} {c : Char} {rest : List Char}
    {kind : Option Token.Kind} {k : Nat} (hscan : scan c rest = some (kind, k))
    {failure : Option SyntaxError}
    (h : FailsAtFirstStray file (p.after (c :: rest.take k)) (rest.drop k) failure) :
    FailsAtFirstStray file p (c :: rest) failure := by
  cases failure with
  | none =>
    intro before d hstray
    obtain ⟨before', -, hstray'⟩ := (strayAt_of_scan hscan).mp hstray
    exact h before' d hstray'
  | some e =>
    obtain ⟨before, d, hfirst, rfl⟩ := h
    refine ⟨c :: rest.take k ++ before, d, hfirst.of_scan hscan, ?_⟩
    rw [Position.after_append]

/-- Cutting fails at the first stray character, if there is one. -/
theorem lexFrom_failure (file : String) (p : Position) (text : List Char) :
    FailsAtFirstStray file p text (lexFrom file p text).failure := by
  fun_induction lexFrom file p text with
  | case1 p =>
    rintro before c ⟨-, after, htext, -⟩
    cases before <;> cases htext
  | case2 p c rest hscan =>
    refine ⟨[], c, ⟨⟨scan_eq_none_iff.mp hscan, rest, rfl, .nil _⟩, ?_⟩, rfl⟩
    exact fun _ _ _ => Nat.zero_le _
  | case3 p c rest k piece tail hscan ih => exact ih.of_scan hscan
  | case4 p c rest k piece tail kind hscan ih => exact ih.of_scan hscan

/-- Cutting fails with an error exactly if that is the error at the first stray character. -/
theorem lexFrom_failure_eq_some_iff {file : String} {p : Position} {text : List Char}
    {e : SyntaxError} :
    (lexFrom file p text).failure = some e ↔
      ∃ before c, FirstStray text before c ∧ e = strayError file (p.after before) c := by
  have hfails := lexFrom_failure file p text
  constructor
  · intro h
    rwa [h] at hfails
  · rintro ⟨before, c, hfirst, rfl⟩
    cases hfailure : (lexFrom file p text).failure with
    | none =>
      rw [hfailure] at hfails
      exact absurd hfirst.1 (hfails before c)
    | some e =>
      rw [hfailure] at hfails
      obtain ⟨before', c', hfirst', rfl⟩ := hfails
      obtain ⟨rfl, rfl⟩ := hfirst.unique hfirst'
      rfl

end SdkBindings.Lexer
