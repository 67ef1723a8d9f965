import SdkBindings.Proofs.Lexing.Lexeme

/-!
# Layouts

A layout writes lexemes down as text: before each of them stands a gap of blanks, line ends, line
continuations and comments, which may be empty where the lexemes cannot run together.  However a
list of lexemes is laid out, cutting the text gives one token for each of them, in order, with
nothing but line ends between (`lexFrom_layout`).

The only difficulty is that the scanner does not see a gap the way it was written: it takes blanks
together and reads a carriage return with a line feed as one line end.  The induction is therefore on
the length of the gap.
-/

namespace SdkBindings

/-- The token is the end of a line, as the lexer gives it. -/
def Token.IsBreak (token : Token) : Prop :=
  token.kind = .newline ∧ (token.text = "\n" ∨ token.text = "\r\n")

namespace Lexer

/-! ## Steps of the lexer -/

/-- What has been cut off in front of the rest. -/
def Lexed.prepend (tokens : List Token) (lexed : Lexed) : Lexed :=
  { lexed with tokens := tokens ++ lexed.tokens }

/-- Tokens in front of tokens in front of the rest. -/
theorem Lexed.prepend_prepend (xs ys : List Token) (lexed : Lexed) :
    (lexed.prepend ys).prepend xs = lexed.prepend (xs ++ ys) := by
  rw [prepend, prepend, prepend, List.append_assoc]

/-- The place after one piece and then another. -/
theorem Position.after_append (p : Position) (xs ys : List Char) :
    p.after (xs ++ ys) = (p.after xs).after ys :=
  List.foldl_append

section

variable {c : Char} {piece after : List Char} (file : String) (p : Position)

/-- A piece without a token is passed over. -/
theorem lexFrom_skip (h : scan c (piece ++ after) = some (none, piece.length)) :
    lexFrom file p (c :: (piece ++ after)) = lexFrom file (p.after (c :: piece)) after := by
  rw [lexFrom, h]
  dsimp only
  rw [List.take_left, List.drop_left]

/-- A piece with a token gives it. -/
theorem lexFrom_token {kind : Token.Kind}
    (h : scan c (piece ++ after) = some (some kind, piece.length)) :
    lexFrom file p (c :: (piece ++ after)) =
      (lexFrom file (p.after (c :: piece)) after).prepend
        [⟨kind, String.ofList (c :: piece), p.line, p.column⟩] := by
  rw [lexFrom, h]
  dsimp only
  rw [List.take_left, List.drop_left]
  rfl

end

/-- No token of code starts with a blank or a line end. -/
theorem not_blank_of_scan {c : Char} {rest : List Char} {kind : Token.Kind} {k : Nat}
    (h : scan c rest = some (some kind, k)) (hkind : kind ≠ .newline) :
    isSpace c = false ∧ c ≠ '\n' := by
  unfold scan at h
  split at h
  · cases h
  · cases h
  · cases h
    exact absurd rfl hkind
  · cases h
    exact absurd rfl hkind
  · rename_i hline _ _ _
    refine ⟨?_, hline⟩
    cases hspace : isSpace c with
    | false => rfl
    | true =>
      rw [if_pos hspace] at h
      cases h

/-! ## Gaps -/

/-- What may stand between two tokens of code: blanks and line ends, lines that are continued,
comments up to the end of the line and comments between `/*` and the next `*/`. -/
inductive Gap : List Char → Prop
  | nil : Gap []
  | blank {c : Char} {gap : List Char} (h : isSpace c = true ∨ c = '\n') (rest : Gap gap) :
      Gap (c :: gap)
  | continued {gap : List Char} (rest : Gap gap) : Gap ('\\' :: '\n' :: gap)
  | continuedReturn {gap : List Char} (rest : Gap gap) : Gap ('\\' :: '\r' :: '\n' :: gap)
  | lineComment {body gap : List Char} (h : '\n' ∉ body) (rest : Gap gap) :
      Gap ('/' :: '/' :: (body ++ '\n' :: gap))
  | blockComment {body gap : List Char} (h : ¬ ['*', '/'] <:+: body) (rest : Gap gap) :
      Gap ('/' :: '*' :: (body ++ '*' :: '/' :: gap))

/-- A gap starts with some blanks, and what follows them is a gap again. -/
theorem Gap.exists_spaces {gap : List Char} (h : Gap gap) :
    ∃ spaces rest, gap = spaces ++ rest ∧ (∀ c ∈ spaces, isSpace c = true) ∧ Gap rest ∧
      ∀ c ∈ rest.head?, isSpace c = false := by
  have hnone {c : Char} {rest : List Char} (hgap : Gap (c :: rest)) (hc : isSpace c = false) :
      ∃ spaces tail, c :: rest = spaces ++ tail ∧ (∀ d ∈ spaces, isSpace d = true) ∧ Gap tail ∧
        ∀ d ∈ tail.head?, isSpace d = false := by
    refine ⟨[], c :: rest, rfl, (fun d hd => nomatch hd), hgap, fun d hd => ?_⟩
    rw [← Option.mem_some.mp hd, hc]
  induction h with
  | nil => exact ⟨[], [], rfl, (fun d hd => nomatch hd), .nil, fun d hd => nomatch hd⟩
  | @blank c gap hc hgap ih =>
    cases hspace : isSpace c with
    | false => exact hnone (.blank hc hgap) hspace
    | true =>
      obtain ⟨spaces, rest, rfl, hspaces, hrest, hhead⟩ := ih
      refine ⟨c :: spaces, rest, rfl, fun d hd => ?_, hrest, hhead⟩
      rcases List.mem_cons.mp hd with rfl | hd
      · exact hspace
      · exact hspaces d hd
  | continued hgap => exact hnone (.continued hgap) (by decide)
  | continuedReturn hgap => exact hnone (.continuedReturn hgap) (by decide)
  | lineComment h hgap => exact hnone (.lineComment h hgap) (by decide)
  | blockComment h hgap => exact hnone (.blockComment h hgap) (by decide)

/-- After a line feed a gap goes on. -/
theorem Gap.of_cons_lineFeed {gap : List Char} (h : Gap ('\n' :: gap)) : Gap gap := by
  cases h with
  | blank _ rest => exact rest

/-- A block comment ends at the first `*/`. -/
theorem commentEnd?_append {body : List Char} (h : ¬ ['*', '/'] <:+: body) (after : List Char) :
    commentEnd? (body ++ '*' :: '/' :: after) = some (body.length + 2) := by
  induction body with
  | nil => rfl
  | cons c rest ih =>
    have hrest : ¬ ['*', '/'] <:+: rest := fun hinner => h (hinner.trans (List.suffix_cons c rest).isInfix)
    rw [List.cons_append, commentEnd?, ih hrest]
    · rfl
    · rintro tail rfl htail
      cases rest with
      | nil => cases htail
      | cons d rest =>
        cases htail
        exact h ⟨[], rest, rfl⟩

/-- A block comment is counted up to its end. -/
theorem commentLength?_block {body : List Char} (h : ¬ ['*', '/'] <:+: body) (after : List Char) :
    commentLength? ('*' :: (body ++ '*' :: '/' :: after)) = some (body.length + 3) := by
  rw [commentLength?, commentEnd?_append h, Option.map_some, Nat.add_comm]

/-- A line comment is counted up to the line feed or the end. -/
theorem commentLength?_line {body : List Char} (h : '\n' ∉ body) {after : List Char}
    (hend : ∀ c ∈ after.head?, c = '\n') :
    commentLength? ('/' :: (body ++ after)) = some (body.length + 1) := by
  have hrun : run (· ≠ '\n') (body ++ after) = body.length := by
    rw [run_append, run_eq_length]
    · intro d hd
      exact decide_eq_true fun hline => h (hline ▸ hd)
    · intro d hd
      exact decide_eq_false (not_not_intro (hend d hd))
  rw [commentLength?, hrun, Nat.add_comm]

/-- In front of `after`, the text gives nothing but line ends, wherever it starts. -/
def GivesLineEnds (file : String) (after text : List Char) : Prop :=
  ∀ p, ∃ ends, (∀ e ∈ ends, e.IsBreak) ∧
    lexFrom file p (text ++ after) = (lexFrom file (p.after text) after).prepend ends

section

variable {file : String} {c : Char} {gap after : List Char}

/-- A piece without a token adds nothing. -/
theorem GivesLineEnds.skip (h : GivesLineEnds file after gap) (piece : List Char)
    (hscan : scan c (piece ++ (gap ++ after)) = some (none, piece.length)) :
    GivesLineEnds file after (c :: (piece ++ gap)) := by
  intro p
  obtain ⟨ends, hends, hlex⟩ := h (p.after (c :: piece))
  refine ⟨ends, hends, ?_⟩
  rw [List.cons_append, List.append_assoc, lexFrom_skip file p hscan, hlex,
    ← Position.after_append, List.cons_append]

/-- A line end adds itself. -/
theorem GivesLineEnds.newline (h : GivesLineEnds file after gap) (piece : List Char)
    (hscan : scan c (piece ++ (gap ++ after)) = some (some .newline, piece.length))
    (htext : String.ofList (c :: piece) = "\n" ∨ String.ofList (c :: piece) = "\r\n") :
    GivesLineEnds file after (c :: (piece ++ gap)) := by
  intro p
  obtain ⟨ends, hends, hlex⟩ := h (p.after (c :: piece))
  refine ⟨⟨.newline, String.ofList (c :: piece), p.line, p.column⟩ :: ends, ?_, ?_⟩
  · intro e he
    rcases List.mem_cons.mp he with rfl | he
    · exact ⟨rfl, htext⟩
    · exact hends e he
  · rw [List.cons_append, List.append_assoc, lexFrom_token file p hscan, hlex,
      Lexed.prepend_prepend, ← Position.after_append, List.cons_append]
    rfl

/-- Blanks are taken together, up to something that is no blank. -/
theorem scan_spaces {spaces : List Char} (hspaces : ∀ d ∈ c :: spaces, isSpace d = true)
    (hafter : ∀ d ∈ after.head?, isSpace d = false)
    (hreturn : c = '\r' → ∀ d ∈ (spaces ++ after).head?, d ≠ '\n') :
    scan c (spaces ++ after) = some (none, spaces.length) := by
  have hc : isSpace c = true := hspaces c List.mem_cons_self
  have hrun : run isSpace (spaces ++ after) = spaces.length := by
    rw [run_append hafter, run_eq_length fun d hd => hspaces d (List.mem_cons_of_mem c hd)]
  unfold scan
  split
  · cases hc
  · cases hc
  · cases hc
  · rename_i heq
    rw [heq] at hreturn
    exact absurd rfl (hreturn rfl '\n' rfl)
  · rw [if_pos hc, hrun]

/-- A blank in front of a gap is taken together with the blanks that the gap starts with, unless it
is the first half of a line end. -/
theorem Gap.exists_scan_blank (h : Gap gap) (hc : isSpace c = true)
    (hreturn : ¬ (c = '\r' ∧ gap.head? = some '\n'))
    (hafter : ∀ d ∈ after.head?, isSpace d = false ∧ d ≠ '\n') :
    ∃ spaces rest, gap = spaces ++ rest ∧ Gap rest ∧
      scan c (spaces ++ (rest ++ after)) = some (none, spaces.length) := by
  obtain ⟨spaces, rest, rfl, hspaces, hrest, hhead⟩ := h.exists_spaces
  refine ⟨spaces, rest, rfl, hrest, scan_spaces ?_ ?_ ?_⟩
  · intro d hd
    rcases List.mem_cons.mp hd with rfl | hd
    · exact hc
    · exact hspaces d hd
  · intro d hd
    cases rest with
    | nil => exact (hafter d hd).1
    | cons e rest => exact hhead d hd
  · rintro rfl d hd rfl
    rw [← List.append_assoc] at hd
    cases hgap : spaces ++ rest with
    | nil =>
      rw [hgap] at hd
      exact (hafter '\n' hd).2 rfl
    | cons e tail =>
      rw [hgap] at hd hreturn
      exact hreturn ⟨rfl, hd⟩

/-- A comment is passed over. -/
theorem scan_comment {rest : List Char} {k : Nat} (h : commentLength? rest = some k) :
    scan '/' rest = some (none, k) := by
  unfold scan
  split
  · rename_i heq
    cases heq
  · rename_i heq
    cases heq
  · rename_i heq
    cases heq
  · rename_i heq
    cases heq
  · rw [if_neg (by decide), if_pos rfl, h]

end

/-- A gap gives nothing but line ends. -/
theorem givesLineEnds_of_gap {gap after : List Char} (h : Gap gap)
    (hafter : ∀ c ∈ after.head?, isSpace c = false ∧ c ≠ '\n') (file : String) :
    GivesLineEnds file after gap := by
  induction hn : gap.length using Nat.strongRecOn generalizing gap with
  | ind n ih =>
  have hshorter {rest : List Char} (hrest : Gap rest) (hlt : rest.length < gap.length) :
      GivesLineEnds file after rest :=
    ih rest.length (hn ▸ hlt) hrest rfl
  cases h with
  | nil => exact fun p => ⟨[], (fun e he => nomatch he), rfl⟩
  | @blank c gap hc hgap =>
    by_cases hline : c = '\n'
    · subst hline
      exact (hshorter hgap (Nat.lt_succ_self _)).newline [] rfl (.inl rfl)
    have hspace : isSpace c = true := hc.resolve_right hline
    by_cases hreturn : c = '\r' ∧ gap.head? = some '\n'
    · obtain ⟨rfl, hhead⟩ := hreturn
      obtain ⟨rest, rfl⟩ := List.head?_eq_some_iff.mp hhead
      have hrest := hshorter hgap.of_cons_lineFeed (by simp only [List.length_cons]; omega)
      exact hrest.newline ['\n'] rfl (.inr rfl)
    · obtain ⟨spaces, rest, rfl, hrest, hscan⟩ := hgap.exists_scan_blank hspace hreturn hafter
      refine (hshorter hrest ?_).skip spaces hscan
      rw [List.length_cons, List.length_append]
      omega
  | @continued gap hgap =>
    exact (hshorter hgap (by simp only [List.length_cons]; omega)).skip ['\n'] rfl
  | @continuedReturn gap hgap =>
    exact (hshorter hgap (by simp only [List.length_cons]; omega)).skip ['\r', '\n'] rfl
  | @lineComment body gap hbody hgap =>
    have hrest : GivesLineEnds file after ('\n' :: gap) :=
      hshorter (.blank (.inr rfl) hgap) (by simp only [List.length_cons, List.length_append]; omega)
    have hend : ∀ c ∈ (('\n' :: gap) ++ after).head?, c = '\n' :=
      fun c hc => (Option.mem_some.mp hc).symm
    exact hrest.skip ('/' :: body) (scan_comment (commentLength?_line hbody hend))
  | @blockComment body gap hbody hgap =>
    have hrest := hshorter hgap (by simp only [List.length_cons, List.length_append]; omega)
    have hpiece (tail : List Char) :
        '*' :: (body ++ '*' :: '/' :: tail) = ('*' :: (body ++ ['*', '/'])) ++ tail := by
      simp
    rw [hpiece]
    refine hrest.skip _ (scan_comment ?_)
    rw [← hpiece, commentLength?_block hbody]
    simp

end Lexer

open Lexer

/-! ## Layouts -/

/-- The token has the category and the text of the lexeme. -/
def Token.Spells (token : Token) (lexeme : Lexeme) : Prop :=
  token.kind = lexeme.kind ∧ token.text = lexeme.text

/-- The tokens of some lexemes, with line ends in front of each. -/
inductive Stretch : List Lexeme → List Token → Prop
  | nil : Stretch [] []
  | cons {lexeme : Lexeme} {lexemes : List Lexeme} {ends tokens : List Token} {token : Token}
      (hends : ∀ e ∈ ends, e.IsBreak) (htoken : token.Spells lexeme)
      (rest : Stretch lexemes tokens) : Stretch (lexeme :: lexemes) (ends ++ token :: tokens)

/-- A way to write lexemes down as text in front of `after`. -/
inductive Layout (after : List Char) : List Lexeme → List Char → Prop
  | nil : Layout after [] []
  | cons {gap text : List Char} {lexeme : Lexeme} {lexemes : List Lexeme} (hgap : Gap gap)
      (hended : lexeme.IsEnded (text ++ after)) (rest : Layout after lexemes text) :
      Layout after (lexeme :: lexemes) (gap ++ (lexeme.text.toList ++ text))

/-- A lexeme is no line end. -/
theorem Lexeme.kind_ne_newline (lexeme : Lexeme) : lexeme.kind ≠ .newline := by
  have h := lexeme.isLexeme
  intro hkind
  rw [hkind] at h
  cases h

/-- A lexeme gives its token, and what it starts with is no part of a gap before it. -/
theorem lexFrom_lexeme (lexeme : Lexeme) {after : List Char} (h : lexeme.IsEnded after)
    (file : String) (p : Position) :
    (∀ c ∈ (lexeme.text.toList ++ after).head?, isSpace c = false ∧ c ≠ '\n') ∧
      lexFrom file p (lexeme.text.toList ++ after) =
        (lexFrom file (p.after lexeme.text.toList) after).prepend
          [⟨lexeme.kind, lexeme.text, p.line, p.column⟩] := by
  obtain ⟨c, rest, htext⟩ := lexeme.exists_cons
  have hlexeme := lexeme.isLexeme
  unfold Lexeme.IsEnded at h
  rw [htext] at hlexeme h
  have hscan := scan_lexeme hlexeme h
  rw [htext]
  constructor
  · intro d hd
    cases hd
    exact not_blank_of_scan hscan lexeme.kind_ne_newline
  · rw [List.cons_append, lexFrom_token file p hscan, ← htext, String.ofList_toList]

/-- However lexemes are laid out, they are read back as their tokens. -/
theorem lexFrom_layout {lexemes : List Lexeme} {text after : List Char}
    (h : Layout after lexemes text) (file : String) (p : Position) :
    ∃ stretch, Stretch lexemes stretch ∧
      lexFrom file p (text ++ after) = (lexFrom file (p.after text) after).prepend stretch := by
  induction h generalizing p with
  | nil => exact ⟨[], .nil, rfl⟩
  | @cons gap text lexeme lexemes hgap hended hrest ih =>
    have hblank := (lexFrom_lexeme lexeme hended file (p.after gap)).1
    have hlexeme := (lexFrom_lexeme lexeme hended file (p.after gap)).2
    obtain ⟨ends, hends, hgaplex⟩ := givesLineEnds_of_gap hgap hblank file p
    obtain ⟨stretch, hstretch, hlex⟩ := ih ((p.after gap).after lexeme.text.toList)
    have htoken : Token.Spells ⟨lexeme.kind, lexeme.text, (p.after gap).line, (p.after gap).column⟩
        lexeme := ⟨rfl, rfl⟩
    refine ⟨_, .cons hends htoken hstretch, ?_⟩
    rw [List.append_assoc, List.append_assoc, hgaplex, hlexeme, hlex, Lexed.prepend_prepend,
      Lexed.prepend_prepend, ← Position.after_append, ← Position.after_append,
      List.append_assoc ends, List.singleton_append]

/-- Lexemes with a space in front of each. -/
def spaced (lexemes : List Lexeme) : List Char :=
  lexemes.flatMap fun lexeme => ' ' :: lexeme.text.toList

/-- Spaces keep any lexemes apart, so every list of lexemes has a layout. -/
theorem layout_spaced (lexemes : List Lexeme) {after : List Char}
    (hlast : ∀ lexeme ∈ lexemes.getLast?, lexeme.IsEnded after) :
    Layout after lexemes (spaced lexemes) := by
  induction lexemes with
  | nil => exact .nil
  | cons lexeme rest ih =>
    have hrest : Layout after rest (spaced rest) := by
      cases rest with
      | nil => exact .nil
      | cons next rest => exact ih hlast
    have hended : lexeme.IsEnded (spaced rest ++ after) := by
      cases rest with
      | nil => exact hlast lexeme rfl
      | cons next rest => exact isEnded_blank lexeme.isLexeme (by decide) (by decide) _
    exact .cons (.blank (.inl (by decide)) .nil) hended hrest

end SdkBindings
