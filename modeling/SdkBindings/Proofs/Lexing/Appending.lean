import Mathlib.Data.List.TakeWhile
import SdkBindings.Proofs.Lexing.Condensing
import SdkBindings.Proofs.Lexing.Tiling

/-!
# Lexing one text after another

A text that ends with a line is cut to the same tokens whatever follows it, and what follows is cut as if
it stood alone, only further down (`Lexed.below`), unless the text leaves something open.  There are two
things it can leave open.  One is a block comment (`HasOpenComment`).  The other is a literal: the
scanner looks for its closing mark beyond escaped line feeds, and a line feed that ends a line for the
tokens can be escaped for a mark further ahead, where a comment ends in a backslash
(`HasOpenLiteral`).

`lex_append_iff` says that these are all the exceptions, and that both are exceptions.  The scanner
decides every piece within the text that is there, or else one of the two is open (`scan_append`), and so
the pieces stay the same one by one (`lexFrom_append`).  For the converse a text that closes what is open
is put behind it: the slash or the mark is a token of punctuation before and no longer one then.  The
places of the scanner (`CutAt`) are the same as those of the tokens, because no two places in a text have
the same line and column (`eq_of_placeAfter`).
-/

namespace SdkBindings

/-- The token on a line further down. -/
def Token.below (lines : Nat) (t : Token) : Token :=
  { t with line := t.line + lines }

namespace Lexer

/-- The tokens and the failure on lines further down. -/
def Lexed.below (lines : Nat) (lexed : Lexed) : Lexed :=
  ⟨lexed.tokens.map (Token.below lines), lexed.failure.map fun e => { e with line := e.line + lines }⟩

/-! ## Further down -/

/-- A place further down. -/
def Position.below (lines : Nat) (p : Position) : Position :=
  ⟨p.line + lines, p.column⟩

/-- Moving past a text is the same further down. -/
theorem Position.after_below (lines : Nat) (p : Position) (piece : List Char) :
    (p.below lines).after piece = (p.after piece).below lines := by
  induction piece generalizing p with
  | nil => rfl
  | cons c piece ih =>
    have hnext : (p.below lines).next c = (p.next c).below lines := by
      by_cases hc : c = '\n'
      · simp [Position.next, Position.below, hc, Nat.add_right_comm]
      · simp [Position.next, Position.below, hc]
    change ((p.below lines).next c).after piece = _
    rw [hnext, ih]
    rfl

/-- Cutting a text is the same further down. -/
theorem lexFrom_below (file : String) (lines : Nat) (p : Position) (text : List Char) :
    lexFrom file (p.below lines) text = (lexFrom file p text).below lines := by
  fun_induction lexFrom file p text with
  | case1 p =>
    rw [lexFrom]
    rfl
  | case2 p c rest hscan =>
    rw [lexFrom, hscan]
    rfl
  | case3 p c rest k piece tail hscan ih =>
    rw [lexFrom, hscan]
    dsimp only
    rw [Position.after_below, ih]
  | case4 p c rest k piece tail kind hscan ih =>
    rw [lexFrom, hscan]
    dsimp only
    rw [Position.after_below, ih]
    rfl

/-! ## Texts that end with a line -/

/-- The last character, if there is one, is a line feed. -/
def EndsLine (text : List Char) : Prop :=
  ∀ c ∈ text.getLast?, c = '\n'

/-- What is left of a text that ends with a line ends with it. -/
theorem EndsLine.drop {text : List Char} (h : EndsLine text) (k : Nat) : EndsLine (text.drop k) := by
  intro c hc
  rw [List.getLast?_drop] at hc
  split at hc
  · cases hc
  · exact h c hc

/-- So does what follows its first character. -/
theorem EndsLine.of_cons {c : Char} {rest : List Char} (h : EndsLine (c :: rest)) : EndsLine rest :=
  h.drop 1

/-- The last character of a text that ends with a line is a line feed. -/
theorem EndsLine.eq_of_singleton {c : Char} (h : EndsLine [c]) : c = '\n' :=
  h c rfl

/-- A text that ends with a line has a line feed. -/
theorem EndsLine.mem {text : List Char} (h : EndsLine text) (hne : text ≠ []) : '\n' ∈ text := by
  rw [← h _ (List.getLast?_eq_some_getLast hne)]
  exact List.getLast_mem hne

/-- A class without the line feed covers no more when something follows. -/
theorem EndsLine.takeWhile_append {p : Char → Bool} (hp : p '\n' = false) {text : List Char}
    (h : EndsLine text) (hne : text ≠ []) (after : List Char) :
    (text ++ after).takeWhile p = text.takeWhile p := by
  rw [List.takeWhile_append, if_neg]
  intro hall
  have hsame : text.takeWhile p = text := (List.takeWhile_prefix p).eq_of_length hall
  have hmem := h.mem hne
  rw [← hsame] at hmem
  have hline := List.mem_takeWhile_imp hmem
  rw [hp] at hline
  cases hline

/-- So its run is the same. -/
theorem EndsLine.run_append {p : Char → Bool} (hp : p '\n' = false) {text : List Char}
    (h : EndsLine text) (hne : text ≠ []) (after : List Char) : run p (text ++ after) = run p text := by
  rw [run, run, h.takeWhile_append hp hne]

/-! ## One piece -/

/-- A closing mark is looked for no further than a line feed that is not escaped. -/
theorem closingMark?_append_of_endsLine {mark : Char} (hmark : mark ≠ '\\') {text : List Char}
    (h : EndsLine text) (hopen : ¬ LiteralBody mark text) (after : List Char) :
    closingMark? mark (text ++ after) = closingMark? mark text := by
  fun_induction closingMark? mark text with
  | case1 => exact absurd .nil hopen
  | case2 escaped rest ih =>
    have hrest : ¬ LiteralBody mark rest := fun hbody => hopen (.escaped hbody)
    rw [List.cons_append, List.cons_append, closingMark?, ih h.of_cons.of_cons hrest]
  | case3 rest hescape =>
    rw [List.cons_append, closingMark?, if_pos rfl]
    exact fun _ _ hc _ => hmark hc
  | case4 c rest hescape hother hend =>
    have hc : c = '\n' := by
      rcases hend with rfl | rfl
      · -- a backslash with nothing behind it would be the last character
        cases rest with
        | nil => exact h.eq_of_singleton
        | cons d rest => exact absurd rfl (hescape d rest rfl)
      · rfl
    subst hc
    rw [List.cons_append, closingMark?, if_neg hother, if_pos (.inr rfl)]
    exact fun _ _ hc _ => absurd hc (by decide)
  | case5 c rest hescape hother hend ih =>
    obtain ⟨hbackslash, hline⟩ := not_or.mp hend
    have hrest : ¬ LiteralBody mark rest := fun hbody =>
      hopen (.plain hother hbackslash hline hbody)
    rw [List.cons_append, closingMark?, if_neg hother, if_neg hend, ih h.of_cons hrest]
    exact fun _ _ hc _ => hbackslash hc

/-- Between two marks nothing closes the literal. -/
theorem closingMark?_of_literalBody {mark : Char} {body : List Char}
    (h : LiteralBody mark body) : closingMark? mark body = none := by
  induction h with
  | nil => rfl
  | escaped _ ih =>
    rw [closingMark?, ih]
    rfl
  | plain hother hescape hline _ ih =>
    rw [closingMark?, if_neg hother, if_neg (not_or.mpr ⟨hescape, hline⟩), ih]
    · rfl
    · exact fun _ _ hc _ => hescape hc

/-- A comment that ends, ends where it does whatever follows. -/
theorem commentEnd?_append_of_some {text : List Char} {n : Nat} (h : commentEnd? text = some n)
    (after : List Char) : commentEnd? (text ++ after) = some n := by
  fun_induction commentEnd? text generalizing n with
  | case1 rest => exact h
  | case2 c rest hne ih =>
    obtain ⟨m, hm, rfl⟩ := Option.map_eq_some_iff.mp h
    rw [List.cons_append, commentEnd?, ih hm]
    · rfl
    · intro tail hc htail
      cases rest with
      | nil => cases hm
      | cons d rest =>
        cases htail
        exact hne rest hc rfl
  | case3 => cases h

/-- A comment is found within its line, or up to its end. -/
theorem commentLength?_append_of_endsLine {rest : List Char} (h : EndsLine rest) (hne : rest ≠ [])
    (hopen : ∀ body, rest = '*' :: body → commentEnd? body ≠ none) (after : List Char) :
    commentLength? (rest ++ after) = commentLength? rest := by
  match rest with
  | [] => exact absurd rfl hne
  | c :: rest =>
    by_cases hslash : c = '/'
    · subst hslash
      have hrest : rest ≠ [] := by
        rintro rfl
        exact absurd h.eq_of_singleton (by decide)
      rw [List.cons_append, commentLength?, commentLength?,
        h.of_cons.run_append (by decide) hrest]
    · by_cases hstar : c = '*'
      · subst hstar
        obtain ⟨n, hn⟩ := Option.ne_none_iff_exists'.mp (hopen rest rfl)
        rw [List.cons_append, commentLength?, commentLength?, hn, commentEnd?_append_of_some hn]
      · rw [List.cons_append, commentLength?_eq_none, commentLength?_eq_none]
        · intro d hd
          cases hd
          exact ⟨hslash, hstar⟩
        · intro d hd
          cases hd
          exact ⟨hslash, hstar⟩

/-- What the scanner finds where no line ends and none is continued. -/
theorem scan_eq_of_ne {c : Char} {rest : List Char} (hline : c ≠ '\n')
    (hreturn : c = '\r' → ∀ d ∈ rest.head?, d ≠ '\n')
    (hcontinued : c = '\\' → ∀ tail, rest ≠ '\n' :: tail ∧ rest ≠ '\r' :: '\n' :: tail) :
    scan c rest =
      if isSpace c then some (none, run isSpace rest)
      else
        match (if c = '/' then commentLength? rest else none) with
        | some k => some (none, k)
        | none => scanCode c rest := by
  unfold scan
  split
  · exact absurd rfl (hcontinued rfl _).1
  · exact absurd rfl (hcontinued rfl _).2
  · exact absurd rfl hline
  · exact absurd rfl (hreturn rfl '\n' rfl)
  · rfl

/-- A number, a word or a literal that has been closed is found whatever follows the text. -/
theorem scanCode_append {c : Char} {rest : List Char} (h : EndsLine (c :: rest)) (hne : rest ≠ [])
    (hliteral : c = '"' ∨ c = '\'' → ¬ LiteralBody c rest) (after : List Char) :
    scanCode c (rest ++ after) = scanCode c rest := by
  have hrest : EndsLine rest := h.of_cons
  have hnumber : numberLength? (c :: (rest ++ after)) = numberLength? (c :: rest) := by
    rw [← numberLength?_takeWhile, ← List.cons_append,
      h.takeWhile_append (by decide) (List.cons_ne_nil c _), numberLength?_takeWhile]
  have hquoted : (if c = '"' ∨ c = '\'' then closingMark? c (rest ++ after) else none) =
      if c = '"' ∨ c = '\'' then closingMark? c rest else none := by
    split
    · rename_i hmark
      have hbackslash : c ≠ '\\' := by
        rcases hmark with rfl | rfl <;> decide
      exact closingMark?_append_of_endsLine hbackslash hrest (hliteral hmark) after
    · rfl
  rw [scanCode, scanCode, hnumber, hrest.run_append (by decide) hne, hquoted]

/-- **The scanner takes the same piece off a text that ends with a line, whatever follows the text.**
The exceptions are a comment and a literal that are still open at the end of the text. -/
theorem scan_append {c : Char} {rest : List Char} (h : EndsLine (c :: rest))
    (hcomment : c = '/' → ∀ body, rest = '*' :: body → commentEnd? body ≠ none)
    (hliteral : c = '"' ∨ c = '\'' → ¬ LiteralBody c rest) (after : List Char) :
    scan c (rest ++ after) = scan c rest := by
  by_cases hline : c = '\n'
  · subst hline
    rfl
  have hrest : EndsLine rest := h.of_cons
  have hne : rest ≠ [] := by
    rintro rfl
    exact hline h.eq_of_singleton
  obtain ⟨d, tail, rfl⟩ := List.exists_cons_of_ne_nil hne
  have htail : d = '\r' → ∃ e tail', tail = e :: tail' := by
    rintro rfl
    cases tail with
    | nil => exact absurd hrest.eq_of_singleton (by decide)
    | cons e tail' => exact ⟨e, tail', rfl⟩
  by_cases hreturn : c = '\r' ∧ d = '\n'
  · obtain ⟨rfl, rfl⟩ := hreturn
    rfl
  by_cases hcontinued : c = '\\' ∧ d = '\n'
  · obtain ⟨rfl, rfl⟩ := hcontinued
    rfl
  by_cases hcontinuedReturn : c = '\\' ∧ d = '\r' ∧ tail.head? = some '\n'
  · obtain ⟨rfl, rfl, hhead⟩ := hcontinuedReturn
    obtain ⟨tail', rfl⟩ := List.head?_eq_some_iff.mp hhead
    rfl
  have hcode : scanCode c (d :: tail ++ after) = scanCode c (d :: tail) :=
    scanCode_append h hne hliteral after
  have hslash : (if c = '/' then commentLength? (d :: tail ++ after) else none) =
      if c = '/' then commentLength? (d :: tail) else none := by
    split
    · rename_i hc
      exact commentLength?_append_of_endsLine hrest hne (hcomment hc) after
    · rfl
  have hnotReturn (tail : List Char) : c = '\r' → ∀ e ∈ (d :: tail).head?, e ≠ '\n' := by
    rintro hc e he rfl
    cases he
    exact hreturn ⟨hc, rfl⟩
  have hspace := hrest.run_append (p := isSpace) (by decide) hne after
  rw [List.cons_append] at hcode hslash hspace ⊢
  rw [scan_eq_of_ne hline (hnotReturn (tail ++ after)), scan_eq_of_ne hline (hnotReturn tail),
    hspace, hslash, hcode]
  · intro hc other
    refine ⟨fun heq => ?_, fun heq => ?_⟩
    · cases heq
      exact hcontinued ⟨hc, rfl⟩
    · cases heq
      exact hcontinuedReturn ⟨hc, rfl, rfl⟩
  · intro hc other
    refine ⟨fun heq => ?_, fun heq => ?_⟩
    · cases heq
      exact hcontinued ⟨hc, rfl⟩
    · obtain ⟨hd, heq⟩ := List.cons.inj heq
      obtain ⟨e, tail', rfl⟩ := htail hd
      cases heq
      exact hcontinuedReturn ⟨hc, hd, rfl⟩

/-! ## Places of the scanner -/

/-- Cutting `text` comes, after `before`, to what is `left`. -/
inductive CutAt : List Char → List Char → List Char → Prop
  /-- Nothing has been cut off. -/
  | start (text : List Char) : CutAt text [] text
  /-- First one piece is cut off, then others. -/
  | piece {c : Char} {rest before left : List Char} {kind : Option Token.Kind} {k : Nat}
      (h : scan c rest = some (kind, k)) (hrest : CutAt (rest.drop k) before left) :
      CutAt (c :: rest) (c :: rest.take k ++ before) left

/-- What has been cut off and what is left are the text. -/
theorem CutAt.eq_append {text before left : List Char} (h : CutAt text before left) :
    text = before ++ left := by
  induction h with
  | start text => rfl
  | piece _ _ ih => rw [List.append_assoc, ← ih, List.cons_append, List.take_append_drop]

/-- Cutting goes on from a place of the scanner as from the start. -/
theorem CutAt.tokens_eq {text before left : List Char} (h : CutAt text before left) (file : String)
    (p : Position) : ∃ tokens, lexFrom file p text =
      (lexFrom file (p.after before) left).prepend tokens := by
  induction h generalizing p with
  | start text => exact ⟨[], rfl⟩
  | @piece c rest before left kind k hscan _ ih =>
    obtain ⟨tokens, htokens⟩ := ih (p.after (c :: rest.take k))
    rw [← Position.after_append] at htokens
    rw [lexFrom, hscan]
    dsimp only
    rw [htokens]
    cases kind with
    | none => exact ⟨tokens, rfl⟩
    | some kind => exact ⟨_ :: tokens, rfl⟩

/-- Where the scanner finds a token, cutting gives it. -/
theorem CutAt.exists_token {text before rest : List Char} {c : Char}
    (h : CutAt text before (c :: rest)) {kind : Token.Kind} {k : Nat}
    (hscan : scan c rest = some (some kind, k)) (file : String) (p : Position) :
    ∃ xs, (lexFrom file p text).tokens =
      xs ++ ⟨kind, String.ofList (c :: rest.take k), (p.after before).line, (p.after before).column⟩ ::
        (lexFrom file (p.after (before ++ c :: rest.take k)) (rest.drop k)).tokens := by
  obtain ⟨xs, hxs⟩ := h.tokens_eq file p
  refine ⟨xs, ?_⟩
  rw [hxs, lexFrom, hscan, Position.after_append]
  rfl

/-- Every token but the end is found at a place of the scanner, the one it names. -/
theorem exists_cutAt_of_mem {file : String} {p : Position} {text : List Char} {t : Token}
    (h : t ∈ (lexFrom file p text).tokens) (hkind : t.kind ≠ .eof) :
    ∃ before c rest k, CutAt text before (c :: rest) ∧ scan c rest = some (some t.kind, k) ∧
      t.text = String.ofList (c :: rest.take k) ∧ (⟨t.line, t.column⟩ : Position) = p.after before := by
  fun_induction lexFrom file p text with
  | case1 p =>
    obtain rfl := List.mem_singleton.mp h
    exact absurd rfl hkind
  | case2 p c rest hscan => cases h
  | case3 p c rest k piece tail hscan ih =>
    obtain ⟨before, d, rest', j, hcut, hfound, htext, hplace⟩ := ih h
    refine ⟨piece ++ before, d, rest', j, .piece hscan hcut, hfound, htext, ?_⟩
    rw [hplace, Position.after_append]
  | case4 p c rest k piece tail kind hscan ih =>
    rcases List.mem_cons.mp h with rfl | h
    · exact ⟨[], c, rest, k, .start _, hscan, rfl, rfl⟩
    · obtain ⟨before, d, rest', j, hcut, hfound, htext, hplace⟩ := ih h
      refine ⟨piece ++ before, d, rest', j, .piece hscan hcut, hfound, htext, ?_⟩
      rw [hplace, Position.after_append]

/-- Behind different fronts a text goes on at different places. -/
theorem eq_of_placeAfter {before before' left left' : List Char}
    (htext : before ++ left = before' ++ left') (hplace : placeAfter before = placeAfter before') :
    before = before' := by
  have hlonger {front piece : List Char} (h : placeAfter front = placeAfter (front ++ piece)) :
      piece = [] := by
    by_cases hline : '\n' ∈ piece
    · have hlater := line_lt_of_mem hline front
      rw [← h] at hlater
      exact absurd hlater (Nat.lt_irrefl _)
    · rw [placeAfter_append hline, Position.mk.injEq] at h
      apply List.length_eq_zero_iff.mp
      omega
  rcases List.append_eq_append_iff.mp htext with ⟨piece, rfl, -⟩ | ⟨piece, rfl, -⟩
  · rw [hlonger hplace, List.append_nil]
  · rw [hlonger hplace.symm, List.append_nil]

/-- Every token but the end is found at the place it names. -/
theorem exists_scan_of_mem {file source : String} {t : Token} (h : t ∈ (lex file source).tokens)
    (hkind : t.kind ≠ .eof) {before left : List Char} (hsource : source.toList = before ++ left)
    (hplace : t.IsAt before) :
    ∃ c rest k, left = c :: rest ∧ scan c rest = some (some t.kind, k) ∧
      t.text = String.ofList (c :: rest.take k) := by
  obtain ⟨before', c, rest, k, hcut, hscan, htext, hplace'⟩ := exists_cutAt_of_mem h hkind
  have hsource' := hcut.eq_append
  rw [start_after] at hplace'
  obtain rfl : before' = before :=
    eq_of_placeAfter (hsource'.symm.trans hsource) (hplace'.symm.trans hplace)
  exact ⟨c, rest, k, (List.append_cancel_left (hsource'.symm.trans hsource)).symm, hscan, htext⟩

/-! ## What a text leaves open -/

/-- A block comment is open: a slash and an asterisk stand next to each other as punctuation. -/
def HasOpenComment (lexed : Lexed) : Prop :=
  ∃ xs t u ys, lexed.tokens = xs ++ t :: u :: ys ∧ t.kind = .punct ∧ t.text = "/" ∧
    u.kind = .punct ∧ u.text = "*" ∧ u.isAdjacentTo t = true

/-- A literal is open: a quotation mark stands as punctuation, and up to the end of the text nothing
follows that may not stand behind an opening mark. -/
def HasOpenLiteral (source : List Char) (lexed : Lexed) : Prop :=
  ∃ t ∈ lexed.tokens, t.kind = .punct ∧ ∃ mark before after, (mark = '"' ∨ mark = '\'') ∧
    t.text.toList = [mark] ∧ source = before ++ mark :: after ∧ t.IsAt before ∧ LiteralBody mark after

/-- A quotation mark of a literal that is not closed is punctuation. -/
theorem scan_mark {mark : Char} (hmark : mark = '"' ∨ mark = '\'') {rest : List Char}
    (h : closingMark? mark rest = none) : scan mark rest = some (some .punct, 0) := by
  have hpunct : mark ∈ punctuation := by
    rcases hmark with rfl | rfl <;> decide
  obtain ⟨hdigit, hspace, hstart⟩ := isOutside_of_mem_punctuation hpunct
  have hother : mark ∉ ['\n', '\r', '\\', '/', '.'] := by
    rcases hmark with rfl | rfl <;> decide
  simp only [List.mem_cons, not_or] at hother
  obtain ⟨hline, -, hbackslash, hslash, hpoint, -⟩ := hother
  rw [scan_eq_scanCode hspace hline (fun hc => absurd hc hbackslash) (fun hc => absurd hc hslash),
    scanCode, numberLength?_eq_none hdigit hpoint, hstart, if_pos hmark, h]
  exact if_pos hpunct

/-- A slash of a comment that does not end is punctuation. -/
theorem scan_slash {body : List Char} (h : commentEnd? body = none) :
    scan '/' ('*' :: body) = some (some .punct, 0) := by
  have hcomment : commentLength? ('*' :: body) = none := by
    rw [commentLength?, h]
    rfl
  rw [scan_eq_scanCode (by decide) (by decide) (fun hc => absurd hc (by decide)) fun _ => hcomment,
    scanCode, numberLength?_eq_none (by decide) (by decide)]
  rfl

/-- An asterisk is punctuation. -/
theorem scan_asterisk (rest : List Char) : scan '*' rest = some (some .punct, 0) :=
  scan_punct (by decide) (by decide) (by decide) (fun hc => absurd hc (by decide))
    (fun hc => absurd hc (by decide)) fun hc => absurd hc (by decide)

/-- A slash next to an asterisk that the scanner takes apart is an open comment. -/
theorem hasOpenComment_of_cutAt {file source : String} {before body : List Char}
    (h : CutAt source.toList before ('/' :: '*' :: body)) (hopen : commentEnd? body = none) :
    HasOpenComment (lex file source) := by
  obtain ⟨xs, hxs⟩ := h.exists_token (scan_slash hopen) file .start
  rw [List.drop_zero, lexFrom, scan_asterisk] at hxs
  refine ⟨xs, _, _, _, hxs, rfl, rfl, rfl, rfl, ?_⟩
  -- the asterisk stands one column behind the slash
  have hplace : Position.start.after (before ++ ['/']) =
      ⟨(placeAfter before).line, (placeAfter before).column + 1⟩ := by
    rw [start_after, placeAfter_append (by decide)]
    rfl
  simp only [List.take_zero]
  have hslash : (String.ofList ['/']).length = 1 := rfl
  rw [hplace, start_after, Token.isAdjacentTo, Token.endColumn, hslash]
  exact decide_eq_true ⟨rfl, rfl⟩

/-- A quotation mark that the scanner takes for punctuation, with a body behind it, is an open
literal. -/
theorem hasOpenLiteral_of_cutAt {file source : String} {before body : List Char} {mark : Char}
    (h : CutAt source.toList before (mark :: body)) (hmark : mark = '"' ∨ mark = '\'')
    (hbody : LiteralBody mark body) : HasOpenLiteral source.toList (lex file source) := by
  obtain ⟨xs, hxs⟩ := h.exists_token (scan_mark hmark (closingMark?_of_literalBody hbody)) file .start
  rw [HasOpenLiteral, lex, hxs]
  refine ⟨_, List.mem_append_right xs List.mem_cons_self, rfl, mark, before, body, hmark,
    String.toList_ofList, h.eq_append, start_after before, hbody⟩

/-! ## The whole text -/

/-- No piece is longer than the text. -/
theorem length_le_of_scan_eq {c : Char} {rest : List Char} {kind : Option Token.Kind} {k : Nat}
    (h : scan c rest = some (kind, k)) : k ≤ rest.length := by
  cases kind with
  | some kind => exact length_le_of_scan h
  | none =>
    rcases scan_eq_skip h with ⟨-, tail, rfl, rfl⟩ | ⟨-, tail, rfl, rfl⟩ | ⟨-, rfl⟩ | ⟨-, hcomment⟩
    · simp
    · simp
    · exact run_le_length isSpace rest
    · obtain ⟨piece, after, rfl, rfl, -⟩ := comment_of_commentLength? hcomment
      rw [List.length_append]
      exact Nat.le_add_right _ _

/-- A text that ends with a line and leaves nothing open is cut as it stands, and what follows it is
cut from where it ends. -/
theorem lexFrom_append {file : String} {p : Position} {text : List Char} (h : EndsLine text)
    (hfailure : (lexFrom file p text).failure = none)
    (hcomment : ∀ before body, CutAt text before ('/' :: '*' :: body) → commentEnd? body ≠ none)
    (hliteral : ∀ before mark body, CutAt text before (mark :: body) → mark = '"' ∨ mark = '\'' →
      ¬ LiteralBody mark body) :
    ∃ pieces eof, (lexFrom file p text).tokens = pieces ++ [eof] ∧
      ∀ after, lexFrom file p (text ++ after) =
        (lexFrom file (p.after text) after).prepend pieces := by
  -- the scanner takes the piece that it takes without `after`, and so goes on at the same place
  have hpiece {c : Char} {rest : List Char} {kind : Option Token.Kind} {k : Nat}
      (hends : EndsLine (c :: rest)) (hscan : scan c rest = some (kind, k))
      (hcomment : ∀ before body, CutAt (c :: rest) before ('/' :: '*' :: body) →
        commentEnd? body ≠ none)
      (hliteral : ∀ before mark body, CutAt (c :: rest) before (mark :: body) →
        mark = '"' ∨ mark = '\'' → ¬ LiteralBody mark body) (after : List Char) :
      scan c (rest ++ after) = some (kind, k) ∧ (rest ++ after).take k = rest.take k ∧
        (rest ++ after).drop k = rest.drop k ++ after := by
    have hle := length_le_of_scan_eq hscan
    refine ⟨?_, List.take_append_of_le_length hle, List.drop_append_of_le_length hle⟩
    rw [← hscan]
    refine scan_append hends ?_ (hliteral [] c rest (.start _)) after
    rintro rfl body rfl
    exact hcomment [] body (.start _)
  have hafter (p : Position) (c : Char) (rest : List Char) (k : Nat) :
      p.after (c :: rest) = (p.after (c :: rest.take k)).after (rest.drop k) := by
    rw [← Position.after_append, List.cons_append, List.take_append_drop]
  fun_induction lexFrom file p text with
  | case1 p => exact ⟨[], _, rfl, fun after => rfl⟩
  | case2 p c rest hscan => cases hfailure
  | case3 p c rest k piece tail hscan ih =>
    obtain ⟨pieces, eof, htokens, hrest⟩ := ih (h.drop (k + 1)) hfailure
      (fun before body hcut => hcomment _ body (.piece hscan hcut))
      fun before mark body hcut => hliteral _ mark body (.piece hscan hcut)
    refine ⟨pieces, eof, htokens, fun after => ?_⟩
    obtain ⟨hsame, htake, hdrop⟩ := hpiece h hscan hcomment hliteral after
    rw [List.cons_append, lexFrom, hsame]
    dsimp only
    rw [htake, hdrop, hrest, hafter p c rest k]
  | case4 p c rest k piece tail kind hscan ih =>
    obtain ⟨pieces, eof, htokens, hrest⟩ := ih (h.drop (k + 1)) hfailure
      (fun before body hcut => hcomment _ body (.piece hscan hcut))
      fun before mark body hcut => hliteral _ mark body (.piece hscan hcut)
    refine ⟨_ :: pieces, eof, congrArg (List.cons _) htokens, fun after => ?_⟩
    obtain ⟨hsame, htake, hdrop⟩ := hpiece h hscan hcomment hliteral after
    rw [List.cons_append, lexFrom, hsame]
    dsimp only
    rw [htake, hdrop, hrest, hafter p c rest k]
    rfl

/-- Behind `a`, which gives the `tokens`, the text `b` is cut as if it stood alone, only further
down. -/
def Composes (file a b : String) (tokens : List Token) : Prop :=
  lex file (a ++ b) = ((lex file b).below (a.toList.count '\n')).prepend tokens

/-- A token of the first text is found at its place in both texts together. -/
theorem Composes.exists_scan {file a b : String} {tokens : List Token} (h : Composes file a b tokens)
    {t : Token} (ht : t ∈ tokens) (hkind : t.kind ≠ .eof) {before left : List Char}
    (ha : a.toList = before ++ left) (hplace : t.IsAt before) :
    ∃ c rest k, left ++ b.toList = c :: rest ∧ scan c rest = some (some t.kind, k) ∧
      t.text = String.ofList (c :: rest.take k) := by
  have hmem : t ∈ (lex file (a ++ b)).tokens := by
    rw [h]
    exact List.mem_append_left _ ht
  apply exists_scan_of_mem hmem hkind _ hplace
  rw [String.toList_append, ha, List.append_assoc]

/-- A comment is closed by the marks behind it at the latest. -/
theorem commentEnd?_closed (body : List Char) : commentEnd? (body ++ ['*', '/']) ≠ none := by
  induction body with
  | nil => exact Option.some_ne_none 2
  | cons c body ih =>
    rw [List.cons_append]
    unfold commentEnd?
    split
    · exact Option.some_ne_none 2
    · rename_i hcons
      obtain ⟨-, rfl⟩ := List.cons.inj hcons
      rw [ne_eq, Option.map_eq_none_iff]
      exact ih
    · rename_i hnil
      cases hnil

/-- A comment that is open would be closed by what follows. -/
theorem not_hasOpenComment_of_composes {file a : String} {tokens : List Token}
    (htokens : ∀ t ∈ (lex file a).tokens, t.kind ≠ .eof → t ∈ tokens)
    (h : Composes file a "*/" tokens) : ¬ HasOpenComment (lex file a) := by
  rintro ⟨xs, t, u, ys, hsplit, hkind, htext, hkind', htext', hadjacent⟩
  have hnot : t.kind ≠ .eof := by
    rw [hkind]
    decide
  have ht : t ∈ tokens := htokens t (by simp [hsplit]) hnot
  have hlines : '\n' ∉ t.text.toList ∧ '\n' ∉ u.text.toList := by
    rw [htext, htext']
    decide
  obtain ⟨gap, hfollows, hgap⟩ := (lex_tiling file a).adjacent xs t u ys hsplit
  obtain rfl := (hgap hlines.1 hlines.2).mp hadjacent
  obtain ⟨front, back, ha, -, hplace, -⟩ := hfollows
  obtain ⟨c, rest, k, hleft, hscan, -⟩ := h.exists_scan ht hnot ha hplace
  rw [htext, htext'] at hleft
  obtain ⟨rfl, rfl⟩ := List.cons.inj hleft
  obtain ⟨n, hn⟩ := Option.ne_none_iff_exists'.mp (commentEnd?_closed back)
  have hcomment : commentLength? ('*' :: (back ++ ['*', '/'])) = some (1 + n) := by
    rw [commentLength?, hn]
    rfl
  have hpassed : scan '/' ('*' :: (back ++ ['*', '/'])) = some (none, 1 + n) :=
    scan_comment hcomment
  cases hscan.symm.trans hpassed

/-- A literal that is open would be closed by what follows. -/
theorem not_hasOpenLiteral_of_composes {file a : String} {tokens : List Token}
    (htokens : ∀ t ∈ (lex file a).tokens, t.kind ≠ .eof → t ∈ tokens)
    (h : ∀ b, Composes file a b tokens) : ¬ HasOpenLiteral a.toList (lex file a) := by
  rintro ⟨t, ht, hkind, mark, before, body, hmark, htext, ha, hplace, hbody⟩
  have hnot : t.kind ≠ .eof := by
    rw [hkind]
    decide
  obtain ⟨c, rest, k, hleft, hscan, -⟩ :=
    (h (String.ofList [mark])).exists_scan (htokens t ht hnot) hnot ha hplace
  rw [String.toList_ofList] at hleft
  obtain ⟨rfl, rfl⟩ := List.cons.inj hleft
  have hbackslash : mark ≠ '\\' := by
    rcases hmark with rfl | rfl <;> decide
  have hquoted := scan_quoted hmark (hbody.closingMark? hbackslash [])
  have hpunct := hscan.symm.trans hquoted
  rw [hkind] at hpunct
  rcases hmark with rfl | rfl <;> cases hpunct

/-- A text whose last token before the end is a line end that ends with it has a line feed at its
end. -/
theorem endsLine_of_newline {file a : String} {newline : Token} {front : List Char}
    (hmem : newline ∈ (lex file a).tokens) (hkind : newline.kind = .newline)
    (ha : a.toList = front ++ newline.text.toList) (hplace : newline.IsAt front) :
    ∃ before, a.toList = before ++ ['\n'] := by
  have hnot : newline.kind ≠ .eof := by
    rw [hkind]
    decide
  obtain ⟨c, rest, k, hleft, hscan, htext⟩ := exists_scan_of_mem hmem hnot ha hplace
  rw [hkind] at hscan
  rcases newline_of_scan hscan with ⟨rfl, rfl⟩ | ⟨rfl, hhead, rfl⟩
  · refine ⟨front, ?_⟩
    rw [ha, htext, String.toList_ofList]
    rfl
  · obtain ⟨tail, rfl⟩ := List.head?_eq_some_iff.mp hhead
    refine ⟨front ++ ['\r'], ?_⟩
    rw [ha, htext, String.toList_ofList, List.append_assoc]
    rfl

/-- **Where texts that end with a line compose.**  What follows a text whose last token before the
end is a line end is cut as if it stood alone, only further down, and the tokens of the text stay.
It is so for everything that may follow exactly if the text leaves neither a comment nor a literal
open. -/
theorem lex_append_iff (file a : String) (tokens : List Token) (newline eof : Token)
    (ha : (lex file a).tokens? = .ok (tokens ++ [newline, eof])) (hkind : newline.kind = .newline)
    (hend : ∃ front, a.toList = front ++ newline.text.toList ∧ newline.IsAt front) :
    (∀ b, Composes file a b (tokens ++ [newline])) ↔
      ¬ HasOpenComment (lex file a) ∧ ¬ HasOpenLiteral a.toList (lex file a) := by
  obtain ⟨front, hfront, hplace⟩ := hend
  obtain ⟨hfailure, htokens⟩ : (lex file a).failure = none ∧
      (lex file a).tokens = (tokens ++ [newline]) ++ [eof] := by
    unfold Lexed.tokens? at ha
    split at ha
    · cases ha
    · rename_i hnone
      rw [Except.ok.inj ha, List.append_assoc]
      exact ⟨hnone, rfl⟩
  constructor
  · intro h
    obtain ⟨pieces, last, hpieces, -, hlast, -⟩ := (lex_tiling file a).ends hfailure
    have hothers : ∀ t ∈ (lex file a).tokens, t.kind ≠ .eof → t ∈ tokens ++ [newline] := by
      intro t ht hnot
      obtain ⟨rfl, hsame⟩ := List.append_inj' (htokens.symm.trans hpieces) rfl
      rw [htokens] at ht
      refine (List.mem_append.mp ht).resolve_right fun heof => hnot ?_
      rw [List.mem_singleton.mp heof, (List.cons.inj hsame).1, hlast]
    exact ⟨not_hasOpenComment_of_composes hothers (h _), not_hasOpenLiteral_of_composes hothers h⟩
  · rintro ⟨hcomment, hliteral⟩ b
    have hmem : newline ∈ (lex file a).tokens := by
      rw [htokens]
      simp
    obtain ⟨before, hbefore⟩ := endsLine_of_newline hmem hkind hfront hplace
    have hline : EndsLine a.toList := by
      intro c hc
      rw [hbefore, List.getLast?_concat] at hc
      cases hc
      rfl
    obtain ⟨pieces, last, hpieces, happend⟩ := lexFrom_append hline hfailure
      (fun before body hcut hopen => hcomment (hasOpenComment_of_cutAt hcut hopen))
      fun before mark body hcut hmark hbody => hliteral (hasOpenLiteral_of_cutAt hcut hmark hbody)
    obtain ⟨rfl, -⟩ := List.append_inj' (htokens.symm.trans hpieces) rfl
    -- the text ends in the first column of its next line
    have hnext : Position.start.after a.toList =
        Position.start.below (a.toList.count '\n') := by
      rw [start_after, hbefore, placeAfter, List.reverse_append]
      rfl
    rw [Composes, lex, String.toList_append, happend, hnext, lexFrom_below]
    rfl

/-- A quotation mark that is not closed on its line, and a slash: whatever follows the line does not
change it, since a literal does not reach over a line end by itself. -/
theorem lex_append_iff_unclosed :
    (lex "a.h" "\"A/\n").tokens? =
        .ok ([⟨.punct, "\"", 1, 1⟩, ⟨.ident, "A", 1, 2⟩, ⟨.punct, "/", 1, 3⟩] ++
          [⟨.newline, "\n", 1, 4⟩, ⟨.eof, "", 2, 1⟩]) ∧
      (∃ front, "\"A/\n".toList = front ++ "\n".toList ∧
        (⟨.newline, "\n", 1, 4⟩ : Token).IsAt front) ∧
      ∀ b, Composes "a.h" "\"A/\n" b
        [⟨.punct, "\"", 1, 1⟩, ⟨.ident, "A", 1, 2⟩, ⟨.punct, "/", 1, 3⟩, ⟨.newline, "\n", 1, 4⟩] := by
  have hlexed : (lex "a.h" "\"A/\n").tokens? =
      .ok ([⟨.punct, "\"", 1, 1⟩, ⟨.ident, "A", 1, 2⟩, ⟨.punct, "/", 1, 3⟩] ++
        [⟨.newline, "\n", 1, 4⟩, ⟨.eof, "", 2, 1⟩]) := by
    decide +kernel
  have htext : ∀ t ∈ (lex "a.h" "\"A/\n").tokens, t.text ≠ "*" := by
    decide +kernel
  have hend : ∃ front, "\"A/\n".toList = front ++ "\n".toList ∧
      (⟨.newline, "\n", 1, 4⟩ : Token).IsAt front := ⟨['"', 'A', '/'], by decide, rfl⟩
  -- behind the only quotation mark there is a line end without a backslash
  have hbody : ¬ LiteralBody '"' ['A', '/', '\n'] := by
    rintro (_ | _ | ⟨_, _, _, _ | _ | ⟨_, _, _, _ | _ | ⟨-, -, hline, -⟩⟩⟩)
    exact hline rfl
  refine ⟨hlexed, hend, (lex_append_iff "a.h" "\"A/\n" _ _ _ hlexed rfl hend).mpr ⟨?_, ?_⟩⟩
  · rintro ⟨xs, t, u, ys, hsplit, -, -, -, hstar, -⟩
    exact htext u (by simp [hsplit]) hstar
  · rintro ⟨t, -, -, mark, before, after, hmark, -, hsource, -, hafter⟩
    have hsource : ['"', 'A', '/', '\n'] = before ++ mark :: after := hsource
    cases before with
    | nil =>
      obtain ⟨rfl, rfl⟩ := List.cons.inj hsource
      exact hbody hafter
    | cons c before =>
      have hmem : mark ∈ ['A', '/', '\n'] := by
        rw [(List.cons.inj hsource).2]
        simp
      rcases hmark with rfl | rfl <;> exact absurd hmem (by decide)

/-- A quotation mark in front of a comment that ends in a backslash: a mark on the next line makes
one literal of both lines, although no comment is open. -/
theorem lex_append_openLiteral :
    (lex "a.h" "\" // \\\n").tokens? =
        .ok ([⟨.punct, "\"", 1, 1⟩] ++ [⟨.newline, "\n", 1, 7⟩, ⟨.eof, "", 2, 1⟩]) ∧
      (∃ front, "\" // \\\n".toList = front ++ "\n".toList ∧
        (⟨.newline, "\n", 1, 7⟩ : Token).IsAt front) ∧
      ¬ HasOpenComment (lex "a.h" "\" // \\\n") ∧
      ¬ ∀ b, Composes "a.h" "\" // \\\n" b [⟨.punct, "\"", 1, 1⟩, ⟨.newline, "\n", 1, 7⟩] := by
  have htokens : (lex "a.h" "\" // \\\n").tokens =
      [⟨.punct, "\"", 1, 1⟩, ⟨.newline, "\n", 1, 7⟩, ⟨.eof, "", 2, 1⟩] := by
    decide +kernel
  have hend : ∃ front, "\" // \\\n".toList = front ++ "\n".toList ∧
      (⟨.newline, "\n", 1, 7⟩ : Token).IsAt front :=
    ⟨['"', ' ', '/', '/', ' ', '\\'], by decide, rfl⟩
  have htext : ∀ t ∈ (lex "a.h" "\" // \\\n").tokens, t.text ≠ "/" := by
    rw [htokens]
    decide
  refine ⟨by decide +kernel, hend, ?_, fun h => ?_⟩
  · rintro ⟨xs, t, u, ys, hsplit, -, hslash, -⟩
    exact htext t (by simp [hsplit]) hslash
  · have hjoined : (lex "a.h" ("\" // \\\n" ++ "\"")).tokens =
        [⟨.string, "\" // \\\n\"", 1, 1⟩, ⟨.eof, "", 2, 2⟩] := by
      decide +kernel
    rw [h "\""] at hjoined
    cases (List.cons.inj hjoined).1

end Lexer

end SdkBindings
