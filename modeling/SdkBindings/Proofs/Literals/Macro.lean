import SdkBindings.Proofs.Binding.Deferred
import SdkBindings.Proofs.Lexing.Joined
import SdkBindings.Proofs.Literals.Spelling

/-!
# Macros that stand for texts

A line that defines a macro as a literal is read to that macro, with the text that the literal spells
and the literal as it is written (`readHeader_literal`).  The line is cut into its tokens first
(`lex_literalLine`), then the tokens of the literal are evaluated (`evaluateMacro_literal`), and last
the line is read as a declaration (`headerConsists_define`), which knows nothing of literals.
-/

namespace SdkBindings

open Lexer

/-! ## Cutting the line -/

/-- The tokens in front of the body of a macro: a mark, a word and the name. -/
def definesTokens (name : String) : List Token :=
  [⟨.punct, "#", 1, 1⟩, ⟨.ident, "define", 1, 2⟩, ⟨.ident, name, 1, 9⟩]

/-- A literal with what may stand in front of it. -/
def literalText (front body : String) : String :=
  front ++ ("\"" ++ body ++ "\"")

/-- The tokens of a literal that starts in a column of the first line. -/
def literalTokens (front body : String) (column : Nat) : List Token :=
  if front = "" then [⟨.string, literalText "" body, 1, column⟩]
  else [⟨.ident, front, 1, column⟩, ⟨.string, literalText "" body, 1, column + front.length⟩]

/-- A literal without anything in front of it stands between two marks. -/
theorem toList_literalText (body : String) :
    (literalText "" body).toList = '"' :: (body.toList ++ ['"']) := by
  simp [literalText, String.toList_append]

/-- No line ends in an identifier. -/
theorem Lexer.not_mem_of_isIdentifier {text : List Char} (h : isIdentifier text = true) :
    '\n' ∉ text := by
  have hnot : isIdentPart '\n' = false := by decide
  intro hmem
  cases text with
  | nil => cases hmem
  | cons c rest =>
    rw [isIdentifier, Bool.and_eq_true, List.all_eq_true] at h
    rcases List.mem_cons.mp hmem with rfl | hmem
    · rw [isIdentPart_of_isIdentStart h.1] at hnot
      cases hnot
    · rw [h.2 _ hmem] at hnot
      cases hnot

/-- An identifier in front of something that does not continue it gives its token. -/
theorem lexFrom_word (file : String) (p : Position) {name : String}
    (hname : isIdentifier name.toList = true) {after : List Char}
    (hafter : ∀ c ∈ after.head?, isIdentPart c = false) :
    lexFrom file p (name.toList ++ after) =
      (lexFrom file ⟨p.line, p.column + name.length⟩ after).prepend
        [⟨.ident, name, p.line, p.column⟩] := by
  have hlexed := (lexFrom_lexeme (.word name hname) hafter file p).2
  rwa [show Position.after p (Lexeme.word name hname).text.toList = _ from
    p.after_inline (not_mem_of_isIdentifier hname)] at hlexed

/-- The front of a line that defines a macro is cut into its tokens. -/
theorem lex_defines (file : String) {name : String} (hname : isIdentifier name.toList = true)
    {text : String} (htext : ∀ c ∈ text.toList.head?, isSpace c = false) :
    lex file ("#define " ++ name ++ " " ++ text) =
      (lexFrom file ⟨1, 10 + name.length⟩ text.toList).prepend (definesTokens name) := by
  have hsplit : ("#define " ++ name ++ " " ++ text).toList =
      "#".toList ++ ("define".toList ++ (' ' :: (name.toList ++ ' ' :: text.toList))) := by
    simp [String.toList_append]
  have hspace : ∀ c ∈ (' ' :: text.toList).head?, isIdentPart c = false := by
    intro c hc
    cases hc
    decide
  have hname' : ∀ c ∈ (name.toList ++ ' ' :: text.toList).head?, isSpace c = false := by
    intro c hc
    cases hlist : name.toList with
    | nil =>
      rw [hlist] at hname
      cases hname
    | cons d rest =>
      rw [hlist] at hname hc
      cases hc
      rw [isIdentifier, Bool.and_eq_true] at hname
      exact isSpace_eq_false (.inl (isIdentPart_of_isIdentStart hname.1))
  have hended : (Lexeme.mark "#" (by decide)).IsEnded
      ("define".toList ++ (' ' :: (name.toList ++ ' ' :: text.toList))) :=
    ⟨fun h => absurd h (by decide), fun h => absurd h (by decide), fun h => absurd h (by decide)⟩
  have hmark := (lexFrom_lexeme (.mark "#" (by decide)) hended file .start).2
  rw [lex, hsplit]
  refine hmark.trans ?_
  rw [lexFrom_word file _ (by decide) (fun c hc => by cases hc; decide), lexFrom_space file _ hname',
    lexFrom_word file _ hname hspace, lexFrom_space file _ htext, Lexed.prepend_prepend,
    Lexed.prepend_prepend]
  show (lexFrom file ⟨1, 2 + 6 + 1 + name.length + 1⟩ text.toList).prepend _ = _
  rw [show 2 + 6 + 1 + name.length + 1 = 10 + name.length by omega]
  rfl

/-- A literal is cut into its tokens. -/
theorem lexFrom_literal (file : String) {front body : String} (hfront : front ∈ ["", "L"])
    (hbody : LiteralBody '"' body.toList) (column : Nat) (after : List Char) :
    lexFrom file ⟨1, column⟩ ((literalText front body).toList ++ after) =
      (lexFrom file (Position.after ⟨1, column⟩ (literalText front body).toList) after).prepend
        (literalTokens front body column) := by
  have htoList := toList_literalText body
  have hclosed : closingMark? '"' (body.toList ++ ['"']) = some (body.toList ++ ['"']).length := by
    rw [hbody.closingMark? (by decide), List.length_append]
    rfl
  let lexeme : Lexeme := ⟨.string, literalText "" body, htoList ▸ .string hclosed⟩
  have hended : lexeme.IsEnded after := trivial
  have hstring (p : Position) := (lexFrom_lexeme lexeme hended file p).2
  simp only [List.mem_cons, List.not_mem_nil, or_false] at hfront
  rcases hfront with rfl | rfl
  · exact hstring ⟨1, column⟩
  · have hsplit : (literalText "L" body).toList = "L".toList ++ (literalText "" body).toList := by
      simp [literalText, String.toList_append]
    have hquote : ∀ c ∈ ((literalText "" body).toList ++ after).head?, isIdentPart c = false := by
      rw [htoList]
      intro c hc
      cases hc
      decide
    rw [hsplit, List.append_assoc, lexFrom_word file _ (by decide) hquote]
    refine (congrArg _ (hstring _)).trans ?_
    rw [Lexed.prepend_prepend, Position.after_append]
    rfl

/-- A gap at the end of a header gives nothing but line ends. -/
theorem lexFrom_ending (file : String) (p : Position) {gap : List Char} (h : Gap gap) :
    ∃ ends eof, (∀ e ∈ ends, e.IsBreak) ∧ eof.kind = .eof ∧
      lexFrom file p gap = ⟨ends ++ [eof], none⟩ := by
  have hafter : ∀ c ∈ ([] : List Char).head?, isSpace c = false ∧ c ≠ '\n' := by simp
  obtain ⟨ends, hends, hlexed⟩ := givesLineEnds_of_gap h hafter file p
  rw [List.append_nil, lexFrom] at hlexed
  exact ⟨ends, _, hends, rfl, hlexed⟩

/-- A line that defines a macro as a literal is cut into its tokens, with nothing but line ends
behind them. -/
theorem lex_literalLine (file : String) {name front body ending : String}
    (hname : isIdentifier name.toList = true) (hfront : front ∈ ["", "L"])
    (hbody : LiteralBody '"' body.toList) (hending : Gap ending.toList) :
    ∃ ends eof, (∀ e ∈ ends, e.IsBreak) ∧ eof.kind = .eof ∧
      (lex file ("#define " ++ name ++ " " ++ (literalText front body ++ ending))).tokens? =
        .ok (definesTokens name ++ literalTokens front body (10 + name.length) ++ ends ++ [eof]) := by
  have hstart : ∀ c ∈ (literalText front body ++ ending).toList.head?, isSpace c = false := by
    simp only [List.mem_cons, List.not_mem_nil, or_false] at hfront
    rcases hfront with rfl | rfl <;>
    · intro c hc
      simp only [literalText, String.toList_append] at hc
      cases hc
      decide
  obtain ⟨ends, eof, hends, heof, hlexed⟩ := lexFrom_ending file
    (Position.after ⟨1, 10 + name.length⟩ (literalText front body).toList) hending
  refine ⟨ends, eof, hends, heof, ?_⟩
  rw [lex_defines file hname hstart, String.toList_append, lexFrom_literal file hfront hbody, hlexed,
    Lexed.prepend_prepend, List.append_assoc]
  rfl

/-- The tokens of a literal are on one line, and together they are no name. -/
theorem literalTokens_spec (front body : String) (column : Nat) {name : String}
    (hname : isIdentifier name.toList = true) :
    (∀ t ∈ literalTokens front body column, t.kind ≠ .newline) ∧
      (literalTokens front body column).map Token.text ≠ [name] := by
  unfold literalTokens
  split
  · refine ⟨by simp, ?_⟩
    intro h
    simp only [List.map_cons, List.map_nil, List.cons.injEq, and_true] at h
    rw [← h, toList_literalText, isIdentifier, Bool.and_eq_true] at hname
    exact absurd hname.1 (by decide)
  · simp

/-! ## Evaluating the tokens -/

/-- The tokens of a literal have the text that it spells, and are written as it is. -/
theorem evaluateMacro_literal (symbols : SymbolTable) {name : Token} {front : String}
    (hfront : front ∈ ["", "L"]) {text body : String}
    (hspelling : Constant.IsSpelling text.toList body.toList) (column : Nat) :
    Constant.evaluateMacro symbols name (literalTokens front body column) =
      .ok ⟨literalText front body, none, some text⟩ := by
  have hinner : ((literalText "" body).toList.drop 1).dropLast = body.toList := by
    simp [toList_literalText]
  have hdecoded : (Constant.decodeEscapes ((literalText "" body).toList.drop 1).dropLast).map
      (fun codes => some (Constant.textOf codes)) = .ok (some text) := by
    rw [hinner, hspelling.decodeEscapes]
    simp [Except.map, Constant.textOf_toNat]
  have hparenthesis : literalText "" body ≠ "(" := by
    intro h
    have := congrArg String.toList h
    rw [toList_literalText] at this
    cases this
  have hshape : Constant.macroShape name (literalTokens front body column) = .ok () ∧
      Constant.stringLiteral? (literalTokens front body column) = .ok (some text) ∧
      Token.join (literalTokens front body column) = literalText front body := by
    simp only [List.mem_cons, List.not_mem_nil, or_false] at hfront
    rcases hfront with rfl | rfl
    · refine ⟨?_, hdecoded, ?_⟩
      · simp [literalTokens, Constant.macroShape, hparenthesis, Constant.callee?]
      · simp [literalTokens, Token.join, Token.joinAfter]
    · refine ⟨?_, hdecoded, ?_⟩
      · simp [literalTokens, Constant.macroShape, hparenthesis, Constant.callee?]
      · simp [literalTokens, Token.join, Token.joinAfter, Token.isAdjacentTo, Token.endColumn,
          literalText, String.append_assoc]
  obtain ⟨hdefinition, hliteral, hjoin⟩ := hshape
  rw [Constant.evaluateMacro, hdefinition]
  show Constant.evaluate symbols _ = _
  rw [Constant.evaluate, hliteral, hjoin]
  show Except.ok (Value.ofText text (literalText front body)) = _
  have hwritten : literalText front body ≠ "" := by
    intro h
    have := congrArg String.toList h
    simp [literalText, String.toList_append] at this
  rw [Value.ofText, if_neg hwritten]

/-! ## Reading the line -/

namespace Grammar

/-- The rest of a line is read up to the line end, which is passed if there is one. -/
theorem exists_readLine {c : Cursor} {body ends : List Token} (hahead : c.ahead = body ++ ends)
    (hbody : ∀ t ∈ body, t.kind ≠ .newline) (hends : ∀ e ∈ ends, e.kind = .newline) :
    ∃ c', c.readLine = (body, c') ∧ c'.ahead = ends.tail ∧ c'.eof = c.eof := by
  have hline : c.ahead.takeWhile (fun t => !t.isLineEnd) = body := by
    have hstop : ends.takeWhile (fun t => !t.isLineEnd) = [] := by
      cases ends with
      | nil => rfl
      | cons e ends => simp [Token.isLineEnd, hends e List.mem_cons_self]
    rw [hahead, List.takeWhile_append_of_pos, hstop, List.append_nil]
    intro t ht
    simpa [Token.isLineEnd] using hbody t ht
  unfold Cursor.readLine
  rw [hline, hahead]
  dsimp only
  rw [List.drop_left]
  refine ⟨_, rfl, ?_⟩
  cases ends <;> exact ⟨rfl, rfl⟩

/-- Where nothing but line ends is ahead, the header ends. -/
theorem peek_of_lineEnds {c : Cursor} (h : ∀ e ∈ c.ahead, e.kind = .newline) :
    (c.peek .code).1 = c.eof := by
  have hends : ∀ e ∈ c.ahead, e.isLineEnd = true := by
    intro e he
    simpa [Token.isLineEnd] using h e he
  have hall : c.ahead.takeWhile Token.isLineEnd = c.ahead := by
    rw [← List.append_nil c.ahead, List.takeWhile_append_of_pos hends]
    simp
  simp [Cursor.peek, Cursor.settle, Cursor.skipLineEnds, Cursor.current, hall]

/-- A line that defines a macro, and nothing else, is a header with that macro. -/
theorem headerConsists_define {file source name : String} {s : Session} {body ends : List Token}
    {eof : Token} {v : Value}
    (htokens : (lex file source).tokens? = .ok (definesTokens name ++ body ++ ends ++ [eof]))
    (hends : ∀ e ∈ ends, e.IsBreak) (heof : eof.kind = .eof) (hbody : ∀ t ∈ body, t.kind ≠ .newline)
    (hkept : Rules.isSkippedMacro name (body.map Token.text) = false)
    (hvalue : Constant.evaluateMacro s.symbols ⟨.ident, name, 1, 9⟩ body = .ok v) :
    HeaderConsists file source s [.definition name v] := by
  let c₁ : Cursor := ⟨file, [⟨.punct, "#", 1, 1⟩],
    ⟨.ident, "define", 1, 2⟩ :: ⟨.ident, name, 1, 9⟩ :: (body ++ ends), eof⟩
  let c₃ : Cursor := ⟨file, [⟨.ident, name, 1, 9⟩, ⟨.ident, "define", 1, 2⟩, ⟨.punct, "#", 1, 1⟩],
    body ++ ends, eof⟩
  obtain ⟨c₄, hline, hahead, hstop⟩ := exists_readLine (c := c₃) rfl hbody fun e he => (hends e he).1
  let s₄ : Session := ⟨s.symbols.insert name v,
    s.log ++ Constant.macroNotes s.symbols ⟨.ident, name, 1, 9⟩ body⟩
  have hdefines (draft : Draft) : (directive draft).exec c₁ s =
      (.ok (draft.add (.definition name v), c₄), s₄) := by
    refine exec_read_bind_ok.mpr ⟨⟨.ident, "define", 1, 2⟩, _, rfl, ?_⟩
    rw [if_neg (by decide), if_neg (by decide)]
    refine exec_read_bind_ok.mpr ⟨⟨.ident, name, 1, 9⟩, c₃, rfl, ?_⟩
    rw [if_neg (not_not_intro rfl)]
    refine exec_read_bind_ok.mpr ⟨body, c₄, congrArg Except.ok hline, ?_⟩
    rw [if_neg (by rw [hkept]; decide), exec_symbols_bind, hvalue]
    rfl
  have hstarts : StartsWord ⟨file, [], definesTokens name ++ body ++ ends, eof⟩
      ⟨.punct, "#", 1, 1⟩ c₁ := startsWord_of_passes ⟨rfl, rfl⟩ (by decide)
  have hdone : (c₄.peek .code).1.kind = .eof := by
    rw [peek_of_lineEnds, hstop]
    · exact heof
    · rw [hahead]
      exact fun e he => (hends e (List.mem_of_mem_tail he)).1
  exact ⟨_, eof, s₄, htokens, heof, .next hstarts (.other trivial hdefines) (.done hdone)⟩

/-- **Literals.**  A line defines a macro as a literal whose body spells a text, possibly with `L` in
front, and no rule leaves out the name of the macro.  Then the line is read to exactly this macro: it
stands for the text and for no number, and it is kept as it is written. -/
theorem readHeader_literal (strict : Bool) (file : String) (session : Session)
    {name front text body ending : String} (hname : isIdentifier name.toList = true)
    (hlisted : name ∉ Rules.skippedMacros) (hguard : Rules.isVersionGuard name = false)
    (hfront : front ∈ ["", "L"]) (hspelling : Constant.IsSpelling text.toList body.toList)
    (hending : Gap ending.toList) :
    (readHeader strict file ("#define " ++ name ++ " " ++ (literalText front body ++ ending))
        session).1 =
      .ok { Header.empty file with
        macros := [⟨name, ⟨literalText front body, none, some text⟩⟩] } := by
  obtain ⟨ends, eof, hends, heof, htokens⟩ :=
    lex_literalLine file hname hfront hspelling.literalBody hending
  obtain ⟨hbody, hother⟩ := literalTokens_spec front body (10 + name.length) hname
  have hkept : Rules.isSkippedMacro name
      ((literalTokens front body (10 + name.length)).map Token.text) = false := by
    simp [Rules.isSkippedMacro, hlisted, hguard, hother]
  have hconsists := headerConsists_define htokens hends heof hbody hkept
    (evaluateMacro_literal session.symbols hfront hspelling _)
  rw [hconsists.readHeader strict]
  cases strict <;> rfl

/-- A text with a quotation mark, a backslash, what opens a comment, a character beyond ASCII, an octal
escape, a hexadecimal escape in front of a letter that is no digit of it, and a line feed. -/
theorem readHeader_literal_escapes :
    (readHeader true "a.h" ("#define " ++ "GREETING" ++ " " ++
        (literalText "L" "\\\"\\\\/*é\\101\\x1F600g\\n" ++ " // a literal\r\n")) .start).1 =
      .ok { Header.empty "a.h" with
        macros := [⟨"GREETING", ⟨literalText "L" "\\\"\\\\/*é\\101\\x1F600g\\n", none,
          some "\"\\/*éA😀g\n"⟩⟩] } := by
  have hdigit (d : Char) (value : Nat) (h : Text.hexValue? d = some value) :
      Constant.IsHexDigitOf d value := Constant.hexValue?_eq_some_iff.mp h
  have hdigits : Constant.WritesHex ['1', 'F', '6', '0', '0'] '😀'.toNat :=
    .append (.append (.append (.append (.digit (hdigit '1' 1 rfl)) (hdigit 'F' 15 rfl))
      (hdigit '6' 6 rfl)) (hdigit '0' 0 rfl)) (hdigit '0' 0 rfl)
  have hend : ∀ d ∈ ['g', '\\', 'n'].head?, ∀ value, ¬ Constant.IsHexDigitOf d value := by
    intro d hd value hdigit
    cases hd
    cases Constant.hexValue?_eq_some_iff.mpr hdigit
  have hspelling : Constant.IsSpelling ['"', '\\', '/', '*', 'é', 'A', '😀', 'g', '\n']
      ['\\', '"', '\\', '\\', '/', '*', 'é', '\\', '1', '0', '1', '\\', 'x', '1', 'F', '6', '0',
        '0', 'g', '\\', 'n'] :=
    .letter (by decide) <| .letter (by decide) <| .itself (by decide) <| .itself (by decide) <|
      .itself (by decide) <| .octal (i := 1) (j := 0) (k := 1) (by decide) (by decide) (by decide)
        (by decide) <| .hex hdigits hend <| .itself (by decide) <| .letter (by decide) .nil
  have hcomment : Gap ('/' :: '/' :: (" a literal\r".toList ++ ['\n'])) :=
    .lineComment (by decide) .nil
  have hending : Gap " // a literal\r\n".toList :=
    .blank (.inl (by decide)) hcomment
  exact readHeader_literal true "a.h" .start (by decide) (by decide) (by decide +kernel) (by decide)
    (by simpa using hspelling) hending

end Grammar

end SdkBindings
