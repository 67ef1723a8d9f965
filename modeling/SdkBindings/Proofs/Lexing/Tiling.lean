import SdkBindings.Proofs.Lexing.Outside

/-!
# The tokens of a header tile it

The tokens that a header is cut into are slices of it, in order, each with the line and the column at
which it stands, and what lies between two of them is filler: blanks, comments and line
continuations (`Tiles`).  Without a failure they go to the end of the header, where the one token of
the end stands; with a failure they stop in front of the character it is about.  From the places
alone it can be told whether anything lies between two tokens (`Follows.isAdjacentTo_iff`).

The main statement is `lex_tiling`.  Every part of it is carried along `lexFrom`, with the text that
has been cut off already as the only thing that changes from step to step.
-/

namespace SdkBindings

namespace Lexer

/-! ## Places -/

/-- Where the text after `before` starts: lines are counted by line feeds, columns from the last of
them. -/
def placeAfter (before : List Char) : Position :=
  ⟨1 + before.count '\n', 1 + (before.reverse.takeWhile (· ≠ '\n')).length⟩

/-- Moving past a text character by character comes to its end. -/
theorem start_after (before : List Char) : Position.start.after before = placeAfter before := by
  rw [← List.reverse_reverse before]
  induction before.reverse with
  | nil => rfl
  | cons c back ih =>
    rw [List.reverse_cons, Position.after_append, ih]
    show (placeAfter back.reverse).next c = placeAfter (back.reverse ++ [c])
    by_cases hc : c = '\n'
    · subst hc
      rw [Position.next, if_pos rfl, placeAfter, placeAfter, List.count_append, List.reverse_append,
        List.reverse_singleton, List.singleton_append, List.takeWhile_cons_of_neg (by decide)]
      rfl
    · have hcount : [c].count '\n' = 0 := List.count_eq_zero.mpr (by simpa using Ne.symm hc)
      have htake : (c :: back).takeWhile (· ≠ '\n') = c :: back.takeWhile (· ≠ '\n') :=
        List.takeWhile_cons_of_pos (decide_eq_true hc)
      rw [Position.next, if_neg hc, placeAfter, placeAfter, List.count_append, hcount,
        List.reverse_append, List.reverse_singleton, List.singleton_append,
        List.reverse_reverse, htake]
      rfl

/-- The place after one text and then another. -/
theorem placeAfter_after (before piece : List Char) :
    (placeAfter before).after piece = placeAfter (before ++ piece) := by
  rw [← start_after, ← start_after, Position.after_append]

/-- Within a line only the column moves on. -/
theorem placeAfter_append {piece : List Char} (h : '\n' ∉ piece) (before : List Char) :
    placeAfter (before ++ piece) =
      ⟨(placeAfter before).line, (placeAfter before).column + piece.length⟩ := by
  have hpiece : ∀ c ∈ piece.reverse, decide (c ≠ '\n') = true := fun c hc =>
    decide_eq_true fun heq => h (heq ▸ List.mem_reverse.mp hc)
  rw [placeAfter, placeAfter, List.count_append, List.count_eq_zero.mpr h, List.reverse_append,
    List.takeWhile_append_of_pos hpiece, List.length_append, List.length_reverse]
  simp only [Position.mk.injEq]
  omega

/-- A line feed moves on to a later line. -/
theorem line_lt_of_mem {piece : List Char} (h : '\n' ∈ piece) (before : List Char) :
    (placeAfter before).line < (placeAfter (before ++ piece)).line := by
  have hcount : 0 < piece.count '\n' := List.count_pos_iff.mpr h
  simp only [placeAfter, List.count_append]
  omega

end Lexer

open Lexer

/-- The token says that it starts where `before` ends. -/
def Token.IsAt (token : Token) (before : List Char) : Prop :=
  (⟨token.line, token.column⟩ : Position) = placeAfter before

/-- The token is that of the end, after the whole header. -/
def Token.IsEnd (token : Token) (source : List Char) : Prop :=
  token.kind = .eof ∧ token.text = "" ∧ token.IsAt source

namespace Lexer

/-! ## Filler -/

/-- What may stand between two tokens in front of `after`: blanks, lines that are continued, and
comments. -/
inductive Filler (after : List Char) : List Char → Prop
  | nil : Filler after []
  | blank {c : Char} {gap : List Char} (h : isSpace c = true) (rest : Filler after gap) :
      Filler after (c :: gap)
  | continued {gap : List Char} (rest : Filler after gap) : Filler after ('\\' :: '\n' :: gap)
  | continuedReturn {gap : List Char} (rest : Filler after gap) :
      Filler after ('\\' :: '\r' :: '\n' :: gap)
  | comment {piece gap : List Char} (h : Comment piece (gap ++ after)) (rest : Filler after gap) :
      Filler after (piece ++ gap)

/-- Filler in front of filler is filler. -/
theorem Filler.append {piece gap after : List Char} (h : Filler (gap ++ after) piece)
    (hgap : Filler after gap) : Filler after (piece ++ gap) := by
  induction h with
  | nil => exact hgap
  | blank hc _ ih => exact .blank hc ih
  | continued _ ih => exact .continued ih
  | continuedReturn _ ih => exact .continuedReturn ih
  | comment hcomment _ ih =>
    rw [List.append_assoc]
    rw [← List.append_assoc] at hcomment
    exact .comment hcomment ih

/-- Blanks are filler. -/
theorem filler_of_spaces {gap : List Char} (h : ∀ c ∈ gap, isSpace c = true) (after : List Char) :
    Filler after gap := by
  induction gap with
  | nil => exact .nil
  | cons c gap ih =>
    exact .blank (h c List.mem_cons_self) (ih fun d hd => h d (List.mem_cons_of_mem c hd))

/-- A piece without a token is filler. -/
theorem filler_of_scan {c : Char} {rest : List Char} {k : Nat} (h : scan c rest = some (none, k)) :
    Filler (rest.drop k) (c :: rest.take k) := by
  rcases scan_eq_skip h with ⟨rfl, tail, rfl, rfl⟩ | ⟨rfl, tail, rfl, rfl⟩ | ⟨hspace, rfl⟩ |
    ⟨rfl, hlength⟩
  · exact .continued .nil
  · exact .continuedReturn .nil
  · exact .blank hspace (filler_of_spaces (fun d hd => mem_take_run hd) _)
  · obtain ⟨piece, after, rfl, rfl, hcomment⟩ := comment_of_commentLength? hlength
    rw [List.take_left, List.drop_left, ← List.append_nil ('/' :: piece)]
    exact .comment hcomment .nil

/-! ## Tiles -/

/-- The tokens tile `text`, which stands after `before` and in front of `left`: each of them is a
slice of it at the place that the token names, and nothing but filler lies between.  They stop in
front of what is left, or with the token of the end if nothing is left. -/
inductive Tiles (left : List Char) : List Char → List Char → List Token → Prop
  | stopped {before gap : List Char} (hleft : left ≠ []) (hgap : Filler left gap) :
      Tiles left before gap []
  | ended {before gap : List Char} {token : Token} (hleft : left = []) (hgap : Filler left gap)
      (hend : token.IsEnd (before ++ gap)) : Tiles left before gap [token]
  | token {before gap text : List Char} {token : Token} {tokens : List Token}
      (hgap : Filler (token.text.toList ++ (text ++ left)) gap) (hplace : token.IsAt (before ++ gap))
      (hkind : token.kind ≠ .eof) (htext : token.text ≠ "")
      (rest : Tiles left (before ++ gap ++ token.text.toList) text tokens) :
      Tiles left before (gap ++ (token.text.toList ++ text)) (token :: tokens)

variable {left before text : List Char} {tokens : List Token}

/-- Filler in front of tiles only makes their first gap longer. -/
theorem Tiles.skip {piece : List Char} (h : Tiles left (before ++ piece) text tokens)
    (hpiece : Filler (text ++ left) piece) : Tiles left before (piece ++ text) tokens := by
  cases h with
  | stopped hleft hgap => exact .stopped hleft (hpiece.append hgap)
  | ended hleft hgap hend =>
    rw [List.append_assoc] at hend
    exact .ended hleft (hpiece.append hgap) hend
  | token hgap hplace hkind htext rest =>
    rw [List.append_assoc before] at hplace rest
    rw [List.append_assoc, List.append_assoc] at hpiece
    rw [← List.append_assoc]
    exact .token (hpiece.append hgap) hplace hkind htext rest

/-- A token in front of tiles, without a gap. -/
theorem Tiles.cons {token : Token} {piece : List Char} (hpiece : token.text.toList = piece)
    (hplace : token.IsAt before) (hkind : token.kind ≠ .eof) (hne : piece ≠ [])
    (rest : Tiles left (before ++ piece) text tokens) :
    Tiles left before (piece ++ text) (token :: tokens) := by
  subst hpiece
  have htext : token.text ≠ "" := fun hempty => hne (congrArg String.toList hempty)
  rw [← List.append_nil before] at hplace rest
  exact .token .nil hplace hkind htext rest

/-- Tiles that go to the end end with the one token of the end. -/
theorem Tiles.exists_end (h : Tiles left before text tokens) (hleft : left = []) :
    ∃ pieces eof, tokens = pieces ++ [eof] ∧ (∀ t ∈ pieces, t.kind ≠ .eof) ∧
      eof.IsEnd (before ++ text) := by
  induction h with
  | stopped hne => exact absurd hleft hne
  | ended _ _ hend => exact ⟨[], _, rfl, (fun t ht => nomatch ht), hend⟩
  | @token before gap text token tokens _ _ hkind _ _ ih =>
    obtain ⟨pieces, eof, rfl, hpieces, hend⟩ := ih
    refine ⟨token :: pieces, eof, rfl, fun t ht => ?_, ?_⟩
    · rcases List.mem_cons.mp ht with rfl | ht
      · exact hkind
      · exact hpieces t ht
    · simpa only [List.append_assoc] using hend

/-- In the source `u` comes after `t`, each at the place that it names, with the filler `gap`
between them. -/
def Follows (source : List Char) (t : Token) (gap : List Char) (u : Token) : Prop :=
  ∃ front back, source = front ++ (t.text.toList ++ (gap ++ (u.text.toList ++ back))) ∧
    t.text ≠ "" ∧ t.IsAt front ∧ u.IsAt (front ++ t.text.toList ++ gap) ∧
    Filler (u.text.toList ++ back) gap

/-- Of two neighbours among the tiles one follows the other. -/
theorem Tiles.exists_follows (h : Tiles left before text tokens) {xs ys : List Token} {t u : Token}
    (htokens : tokens = xs ++ t :: u :: ys) :
    ∃ gap, Follows (before ++ (text ++ left)) t gap u := by
  induction h generalizing xs with
  | stopped => cases xs <;> cases htokens
  | ended =>
    rcases xs with _ | ⟨x, _ | ⟨y, xs⟩⟩ <;> cases htokens
  | @token before gap text token tokens _ hplace _ htext rest ih =>
    cases xs with
    | cons x xs =>
      cases htokens
      obtain ⟨gap', hfollows⟩ := ih rfl
      exact ⟨gap', by simpa only [List.append_assoc] using hfollows⟩
    | nil =>
      cases htokens
      cases rest with
      | ended hleft hgap' hend =>
        subst hleft
        refine ⟨text, before ++ gap, [], ?_, htext, hplace, hend.2.2, ?_⟩
        · rw [hend.2.1]
          simp
        · rw [hend.2.1]
          exact hgap'
      | @token _ gap' text' _ _ hgap' hplace' _ _ _ =>
        refine ⟨gap', before ++ gap, text' ++ left, ?_, htext, hplace, hplace', hgap'⟩
        simp only [List.append_assoc]

/-- Two tokens in a row are adjacent exactly when nothing lies between them, if the first of them
stays on its line. -/
theorem Follows.isAdjacentTo_iff {source gap : List Char} {t u : Token} (h : Follows source t gap u)
    (ht : '\n' ∉ t.text.toList) : u.isAdjacentTo t = true ↔ gap = [] := by
  obtain ⟨front, back, -, -, hfirst, hsecond, -⟩ := h
  have hline : t.line = (placeAfter front).line := congrArg Position.line hfirst
  have hcolumn : t.column = (placeAfter front).column := congrArg Position.column hfirst
  have hline' : u.line = (placeAfter (front ++ t.text.toList ++ gap)).line :=
    congrArg Position.line hsecond
  have hcolumn' : u.column = (placeAfter (front ++ t.text.toList ++ gap)).column :=
    congrArg Position.column hsecond
  have hend := placeAfter_append ht front
  have hlength : t.text.length = t.text.toList.length := String.length_toList.symm
  rw [Token.isAdjacentTo, decide_eq_true_eq, Token.endColumn, hline, hcolumn, hline', hcolumn', hlength]
  constructor
  · rintro ⟨hsame, hmeet⟩
    by_cases hgap : '\n' ∈ gap
    · have hlater := line_lt_of_mem hgap (front ++ t.text.toList)
      rw [hend] at hlater
      exact absurd hsame (Nat.ne_of_lt hlater)
    · rw [placeAfter_append hgap, hend] at hmeet
      dsimp only at hmeet
      exact List.length_eq_zero_iff.mp (by omega)
  · rintro rfl
    rw [List.append_nil, hend]
    exact ⟨rfl, rfl⟩

/-! ## Cutting a text -/

/-- The scanner never gives the token of the end. -/
theorem kind_ne_eof_of_scan {c : Char} {rest : List Char} {kind : Token.Kind} {k : Nat}
    (h : scan c rest = some (some kind, k)) : kind ≠ .eof := by
  rintro rfl
  rcases scan_eq_some h with h | ⟨h, -⟩ | ⟨h, -⟩ | ⟨h, -⟩ | ⟨h, -⟩ | ⟨h, -⟩ <;> cases h

/-- The failure in front of what is left, which starts at `p`. -/
def failureAt (file : String) (p : Position) : List Char → Option SyntaxError
  | [] => none
  | c :: _ => some (strayError file p c)

/-- There is no failure exactly if nothing is left. -/
theorem failureAt_eq_none_iff {file : String} {p : Position} :
    failureAt file p left = none ↔ left = [] := by
  cases left with
  | nil => exact ⟨fun _ => rfl, fun _ => rfl⟩
  | cons c rest => exact ⟨fun h => (nomatch h), fun h => (nomatch h)⟩

/-- Wherever a text is cut, its tokens tile it up to its end or to the failure. -/
theorem exists_tiles (file : String) (before text : List Char) :
    ∃ read left, text = read ++ left ∧
      Tiles left before read (lexFrom file (placeAfter before) text).tokens ∧
        (lexFrom file (placeAfter before) text).failure =
          failureAt file (placeAfter (before ++ read)) left := by
  generalize hp : placeAfter before = p
  fun_induction lexFrom file p text generalizing before with
  | case1 p =>
    refine ⟨[], [], rfl, .ended rfl .nil ⟨rfl, rfl, ?_⟩, rfl⟩
    rw [List.append_nil]
    exact hp.symm
  | case2 p c rest hscan =>
    refine ⟨[], c :: rest, rfl, .stopped (List.cons_ne_nil c rest) .nil, ?_⟩
    rw [List.append_nil, hp]
    rfl
  | case3 p c rest k piece tail hscan ih =>
    obtain ⟨read, left, hrest, htiles, hfailure⟩ :=
      ih (before ++ piece) (by rw [← hp, placeAfter_after])
    rw [List.append_assoc] at hfailure
    refine ⟨piece ++ read, left, ?_, htiles.skip ?_, hfailure⟩
    · rw [List.append_assoc, ← hrest, List.cons_append, List.take_append_drop]
    · rw [← hrest]
      exact filler_of_scan hscan
  | case4 p c rest k piece tail kind hscan ih =>
    obtain ⟨read, left, hrest, htiles, hfailure⟩ :=
      ih (before ++ piece) (by rw [← hp, placeAfter_after])
    rw [List.append_assoc] at hfailure
    have hne : kind ≠ .eof := kind_ne_eof_of_scan hscan
    refine ⟨piece ++ read, left, ?_, htiles.cons String.toList_ofList hp.symm hne ?_, hfailure⟩
    · rw [List.append_assoc, ← hrest, List.cons_append, List.take_append_drop]
    · exact List.cons_ne_nil c _

/-- What the tokens of a header say about it, and when there are all of them. -/
structure Tiling (file : String) (source : List Char) (lexed : Lexed) : Prop where
  /-- The tokens tile the header up to its end or to the failure. -/
  tiles : ∃ text left, source = text ++ left ∧ Tiles left [] text lexed.tokens ∧
    lexed.failure = failureAt file (placeAfter text) left
  /-- Without a failure the last token, and no other, is that of the end. -/
  ends : lexed.failure = none → ∃ pieces eof, lexed.tokens = pieces ++ [eof] ∧
    (∀ t ∈ pieces, t.kind ≠ .eof) ∧ eof.IsEnd source
  /-- Two tokens in a row that stay on their lines are adjacent when nothing lies between them, and
  only then. -/
  adjacent : ∀ xs t u ys, lexed.tokens = xs ++ t :: u :: ys → ∃ gap, Follows source t gap u ∧
    ('\n' ∉ t.text.toList → '\n' ∉ u.text.toList → (u.isAdjacentTo t = true ↔ gap = []))
  /-- There is a failure exactly if a stray character occurs outside of comments and literals. -/
  fails : lexed.failure ≠ none ↔ ∃ before c, StrayAt source before c
  /-- The failure is the error at the first of these characters. -/
  failure : ∀ e, lexed.failure = some e ↔ ∃ before c, FirstStray source before c ∧
    e = ⟨file, (placeAfter before).line, (placeAfter before).column, "token", c.toString, ""⟩

/-- The tokens of a header tile it, and cutting fails exactly at the first stray character outside of
comments and literals. -/
theorem lex_tiling (file source : String) : Tiling file source.toList (lex file source) := by
  obtain ⟨text, left, hsource, htiles, hfailure⟩ := exists_tiles file [] source.toList
  have hfails := lexFrom_failure file .start source.toList
  refine ⟨⟨text, left, hsource, htiles, hfailure⟩, fun hnone => ?_, ?_, ?_, fun e => ?_⟩
  · have hleft := failureAt_eq_none_iff.mp (hfailure.symm.trans hnone)
    obtain ⟨pieces, eof, htokens, hpieces, hend⟩ := htiles.exists_end hleft
    rw [hleft, List.append_nil] at hsource
    exact ⟨pieces, eof, htokens, hpieces, hsource ▸ hend⟩
  · intro xs t u ys htokens
    obtain ⟨gap, hfollows⟩ := htiles.exists_follows htokens
    rw [← hsource, List.nil_append] at hfollows
    exact ⟨gap, hfollows, fun ht _ => hfollows.isAdjacentTo_iff ht⟩
  · rw [lex, Option.ne_none_iff_exists']
    constructor
    · rintro ⟨e, he⟩
      obtain ⟨before, c, hfirst, -⟩ := lexFrom_failure_eq_some_iff.mp he
      exact ⟨before, c, hfirst.1⟩
    · rintro ⟨before, c, hstray⟩
      cases hfailure : (lexFrom file .start source.toList).failure with
      | none =>
        rw [hfailure] at hfails
        exact absurd hstray (hfails before c)
      | some e => exact ⟨e, rfl⟩
  · rw [lex, lexFrom_failure_eq_some_iff]
    simp only [start_after]
    rfl

example : lex "a.h" "ab/*é*/+é" =
    ⟨[⟨.ident, "ab", 1, 1⟩, ⟨.punct, "+", 1, 8⟩], some ⟨"a.h", 1, 9, "token", "é", ""⟩⟩ := by
  cbv

end Lexer

end SdkBindings
