import Mathlib.Data.List.TakeWhile
import Mathlib.Logic.Function.Iterate
import SdkBindings.Proofs.Comparison.LineEnds
import SdkBindings.Proofs.Grammar.Forward

/-!
# Reading and looking ahead

A cursor keeps the tokens it has passed and those that are ahead.  Seen from the header it is an index
into the list of all tokens, the end of the header included, and what an operation of the cursor does
is said here in terms of that list (`Cursor.IsLawful`): which token a read finds from an index on
(`Cursor.Finds`), where the index goes, and what the rest of a line is (`Cursor.IsRestOfLine`).

Reading and looking ahead go through the same tokens, those that are visible in a mode
(`Cursor.visible`).  A read takes the first of them, looking ahead counts them, and so what lies `k`
places ahead is what the last of `k + 1` reads returns (`peekAhead_eq`).

Every operation leaves the cursor in the same header and moves it forward, if at all (`isBefore_move`).
So does every sequence of operations (`isBefore_run`), and the main statement, `isLawful_run`, is about
all cursors that are reached in this way from the start of a header.
-/

namespace SdkBindings.Cursor

/-! ## The header around a cursor -/

/-- The tokens of the header that the cursor stands in, with the end of the header. -/
def tokens (c : Cursor) : List Token :=
  c.passed.reverse ++ (c.ahead ++ [c.eof])

/-- From the index of the cursor on, the tokens are those ahead and the end. -/
theorem drop_tokens (c : Cursor) : c.tokens.drop c.index = c.ahead ++ [c.eof] := by
  rw [tokens, index, ← List.length_reverse, List.drop_left]

/-- Counted from the index of the cursor, the tokens are those ahead and the end. -/
theorem getElem?_tokens (c : Cursor) (n : Nat) :
    c.tokens[c.index + n]? = (c.ahead ++ [c.eof])[n]? := by
  rw [← drop_tokens, List.getElem?_drop]

/-- The token at the cursor is the first one ahead, or else the end. -/
theorem current_eq (c : Cursor) : c.current = c.ahead.headD c.eof := by
  unfold current
  cases c.ahead <;> rfl

/-- Moving past the token at the cursor takes it off what is ahead. -/
theorem ahead_advance (c : Cursor) : c.advance.ahead = c.ahead.tail := by
  unfold advance
  cases hcase : c.ahead with
  | nil => exact hcase
  | cons t rest => rfl

/-- Moving past a token makes the index larger by one. -/
theorem index_advance (c : Cursor) :
    c.advance.index = if c.ahead = [] then c.index else c.index + 1 := by
  unfold advance
  cases hcase : c.ahead with
  | nil => simp
  | cons t rest => simp [index]

/-- The token at the cursor is the one at its index. -/
theorem getElem?_index (c : Cursor) : c.tokens[c.index]? = some c.current := by
  have h := c.getElem?_tokens 0
  rw [Nat.add_zero] at h
  rw [h, current_eq]
  cases c.ahead <;> rfl

/-- The index lies within the tokens. -/
theorem index_lt_length (c : Cursor) : c.index < c.tokens.length := by
  simp [tokens, index]

/-- A cursor that has moved forward stands in the same tokens. -/
theorem IsBefore.tokens_eq {c c' : Cursor} (h : c.IsBefore c') : c'.tokens = c.tokens := by
  obtain ⟨-, heof, read, hpassed, hahead⟩ := h
  simp [tokens, heof, hpassed, hahead]

/-- A cursor that has moved forward has no smaller index. -/
theorem IsBefore.index_le {c c' : Cursor} (h : c.IsBefore c') : c.index ≤ c'.index := by
  obtain ⟨-, -, read, hpassed, -⟩ := h
  simp [index, hpassed]

/-! ## Operations -/

/-- What can be asked of a cursor. -/
inductive Operation where
  /-- The token that a read would return. -/
  | peek (mode : Mode)
  /-- The token some places behind that one. -/
  | peekAhead (offset : Nat) (mode : Mode)
  /-- The next token, which is passed. -/
  | next (mode : Mode)
  /-- The token passed last. -/
  | previous
  /-- Whether the header ends here. -/
  | atEnd
  /-- The next token, which has to have a text. -/
  | expect (text context : String) (mode : Mode)
  /-- The next token, which has to be of a kind. -/
  | expectKind (kind : Token.Kind) (context : String)
  /-- The rest of the line. -/
  | readLine

/-- Where an operation leaves the cursor.  A token is passed before it is looked at, so an expectation
moves the cursor whether or not it is met. -/
def Operation.move : Operation → Cursor → Cursor
  | .peek mode, c => (c.peek mode).2
  | .peekAhead _ _, c => c
  | .next mode, c => (c.next mode).2
  | .previous, c => c
  | .atEnd, c => c.atEnd.2
  | .expect _ _ mode, c => (c.next mode).2
  | .expectKind _ _, c => (c.next .code).2
  | .readLine, c => c.readLine.2

/-- Where operations one after the other leave the cursor. -/
def run (operations : List Operation) (c : Cursor) : Cursor :=
  operations.foldl (fun c operation => operation.move c) c

/-- An operation moves the cursor forward, if at all. -/
theorem isBefore_move (operation : Operation) (c : Cursor) : c.IsBefore (operation.move c) := by
  cases operation with
  | peek mode => exact c.isBefore_settle mode
  | peekAhead => exact .refl c
  | next mode => exact c.isBefore_next mode
  | previous => exact .refl c
  | atEnd => exact c.isBefore_settle .code
  | expect _ _ mode => exact c.isBefore_next mode
  | expectKind => exact c.isBefore_next .code
  | readLine => exact c.isBefore_readLine

/-- So do operations one after the other. -/
theorem isBefore_run (operations : List Operation) (c : Cursor) : c.IsBefore (run operations c) := by
  induction operations generalizing c with
  | nil => exact .refl c
  | cons operation operations ih => exact (isBefore_move operation c).trans (ih _)

/-- At the end of the header no operation moves the cursor. -/
theorem move_of_ahead_eq_nil {c : Cursor} (h : c.ahead = []) (operation : Operation) :
    operation.move c = c := by
  obtain ⟨file, passed, ahead, eof⟩ := c
  cases h
  have hsettle (mode : Mode) : settle mode ⟨file, passed, [], eof⟩ = ⟨file, passed, [], eof⟩ := by
    cases mode <;> rfl
  cases operation with
  | peek mode => exact hsettle mode
  | next mode => simp [Operation.move, next, hsettle, advance]
  | expect _ _ mode => simp [Operation.move, next, hsettle, advance]
  | expectKind => simp [Operation.move, next, hsettle, advance]
  | _ => rfl

/-! ## What a read finds -/

/-- From the index `i` on, `t` at the index `k` is the first token that a read in the mode does not
pass over. -/
structure Finds (tokens : List Token) (mode : Mode) (i k : Nat) (t : Token) : Prop where
  /-- The token stands at `i` or later. -/
  le : i ≤ k
  /-- It is the token at `k`. -/
  token : tokens[k]? = some t
  /-- It is not passed over. -/
  visible : mode = .code → t.kind ≠ .newline
  /-- What stands before it is passed over: line ends, in code mode. -/
  skipped : ∀ m e, i ≤ m → m < k → tokens[m]? = some e → mode = .code ∧ e.kind = .newline

/-- Behind the line ends that are passed over comes no line end. -/
theorem isLineEnd_current_settle (c : Cursor) (h : c.eof.isLineEnd = false) :
    (c.settle .code).current.isLineEnd = false := by
  cases hcase : (c.settle .code).ahead with
  | nil =>
    rw [current_eq, hcase, (c.isBefore_settle .code).2.1]
    exact h
  | cons t rest =>
    have ht := List.head?_dropWhile_not Token.isLineEnd c.ahead
    rw [← settle_ahead, hcase] at ht
    rw [current_eq, hcase]
    simpa using ht

/-- Peeking finds the next token that is not passed over. -/
theorem finds_peek {c : Cursor} (h : c.eof.isLineEnd = false) (mode : Mode) :
    Finds c.tokens mode c.index (c.peek mode).2.index (c.peek mode).1 := by
  have hbefore := c.isBefore_settle mode
  have htoken : c.tokens[(c.settle mode).index]? = some (c.settle mode).current := by
    rw [← hbefore.tokens_eq]
    exact getElem?_index _
  refine ⟨hbefore.index_le, htoken, ?_, ?_⟩
  · intro hmode
    have hvisible := c.isLineEnd_current_settle h
    subst hmode
    simpa [peek, Token.isLineEnd] using hvisible
  · intro m e hm hlt hget
    cases mode with
    | line => exact absurd hlt (Nat.not_lt.mpr hm)
    | code =>
      obtain ⟨n, rfl⟩ := Nat.exists_eq_add_of_le hm
      -- the index moves on by the number of line ends at the front of what is ahead
      have hindex : (c.settle .code).index =
          c.index + (c.ahead.takeWhile Token.isLineEnd).length := by
        simp [settle, skipLineEnds, index, Nat.add_comm]
      have hn : n < (c.ahead.takeWhile Token.isLineEnd).length := by
        change c.index + n < (c.settle .code).index at hlt
        omega
      have hsplit := List.takeWhile_append_dropWhile (p := Token.isLineEnd) (l := c.ahead)
      rw [getElem?_tokens, ← hsplit, List.append_assoc, List.getElem?_append_left hn] at hget
      have he := List.mem_takeWhile_imp (List.mem_of_getElem? hget)
      exact ⟨rfl, by simpa [Token.isLineEnd] using he⟩

/-- A read passes the token that peeking finds, unless that is the end of the header. -/
theorem index_next {c : Cursor} (heof : c.eof.kind = .eof) (hahead : ∀ t ∈ c.ahead, t.kind ≠ .eof)
    (mode : Mode) : (c.next mode).2.index =
      if (c.peek mode).1.kind = .eof then (c.peek mode).2.index else (c.peek mode).2.index + 1 := by
  have hbefore := c.isBefore_settle mode
  simp only [next, peek, index_advance, current_eq]
  cases hcase : (c.settle mode).ahead with
  | nil => simp [hbefore.2.1, heof]
  | cons t rest =>
    have ht : t.kind ≠ .eof := hahead t (hbefore.mem_ahead (by simp [hcase]))
    simp [ht]

/-- A token that has been brought to the cursor is at the cursor. -/
theorem settle_settle (c : Cursor) (mode : Mode) : (c.settle mode).settle mode = c.settle mode := by
  cases mode with
  | line => rfl
  | code =>
    unfold settle skipLineEnds
    dsimp only
    rw [drop_length_takeWhile, takeWhile_dropWhile]
    rfl

/-! ## Looking ahead -/

/-- The tokens ahead that reads in a mode return. -/
def visible (mode : Mode) (c : Cursor) : List Token :=
  match mode with
  | .code => c.code
  | .line => c.ahead

/-- A read returns the first visible token, if there is one, and leaves the others visible. -/
theorem next_visible (c : Cursor) (mode : Mode) :
    (c.next mode).1 = (c.visible mode).headD c.eof ∧
      (c.next mode).2.visible mode = (c.visible mode).tail := by
  cases mode with
  | line => exact ⟨c.current_eq, c.ahead_advance⟩
  | code =>
    have hcode := c.code_settle
    cases hcase : (c.settle .code).ahead with
    | nil =>
      have hnone : c.code = [] := by rw [← hcode, code, hcase, List.filter_nil]
      have heof := (c.isBefore_settle .code).2.1
      rw [visible, hnone, next, current_eq, hcase]
      refine ⟨heof, ?_⟩
      rw [visible, code, ahead_advance, hcase]
      rfl
    | cons t rest =>
      have ht : t.isLineEnd = false := by
        have hhead := List.head?_dropWhile_not Token.isLineEnd c.ahead
        rw [← settle_ahead, hcase] at hhead
        simpa using hhead
      have hfirst : c.code = t :: rest.filter fun t => !t.isLineEnd := by
        rw [← hcode, code, hcase, List.filter_cons_of_pos (by simp [ht])]
      obtain ⟨htoken, hrest⟩ := next_of_code hfirst
      simp only [visible, htoken, hrest, hfirst]
      exact ⟨rfl, rfl⟩

/-- What lies some places ahead is counted off the visible tokens, with the end behind them. -/
theorem peekAhead_eq_visible (c : Cursor) (offset : Nat) (mode : Mode) :
    c.peekAhead offset mode = ((c.visible mode)[offset]?).getD c.eof := by
  cases mode <;> rfl

/-- What lies `offset` places ahead is what the last of `offset + 1` reads returns. -/
theorem peekAhead_eq (c : Cursor) (offset : Nat) (mode : Mode) :
    c.peekAhead offset mode = (((fun c : Cursor => (c.next mode).2)^[offset] c).next mode).1 := by
  induction offset generalizing c with
  | zero =>
    rw [peekAhead_eq_visible, Function.iterate_zero_apply, (c.next_visible mode).1]
    cases c.visible mode <;> rfl
  | succ offset ih =>
    have heof : (c.next mode).2.eof = c.eof := (c.isBefore_next mode).2.1
    rw [Function.iterate_succ_apply, ← ih, peekAhead_eq_visible, peekAhead_eq_visible,
      (c.next_visible mode).2, heof, List.getElem?_tail]

/-! ## Lines -/

/-- From the index `i` on, `line` is what stands before the end of the line or of the header, and `j`
is the index behind the end of the line, or that of the end of the header. -/
structure IsRestOfLine (tokens : List Token) (i : Nat) (line : List Token) (j : Nat) : Prop where
  /-- The line consists of tokens of code. -/
  code : ∀ t ∈ line, t.kind ≠ .newline ∧ t.kind ≠ .eof
  /-- It stands at `i`, and what ends it stands behind it. -/
  ends : ∃ e rest, tokens.drop i = line ++ e :: rest ∧
    (e.kind = .newline ∧ j = i + line.length + 1 ∨ e.kind = .eof ∧ j = i + line.length)

/-- Reading a line passes it and what ends it, if that is no end of the header. -/
theorem index_readLine (c : Cursor) : c.readLine.2.index =
    if (c.ahead.dropWhile fun t => !t.isLineEnd) = [] then c.index + c.readLine.1.length
    else c.index + c.readLine.1.length + 1 := by
  unfold readLine
  dsimp only
  rw [index_advance, drop_length_takeWhile]
  simp [index, Nat.add_comm]

/-- Reading a line reads the rest of the line. -/
theorem isRestOfLine_readLine {c : Cursor} (heof : c.eof.kind = .eof)
    (hahead : ∀ t ∈ c.ahead, t.kind ≠ .eof) :
    IsRestOfLine c.tokens c.index c.readLine.1 c.readLine.2.index := by
  have hline : c.readLine.1 = c.ahead.takeWhile fun t => !t.isLineEnd := rfl
  have hsplit : c.readLine.1 ++ (c.ahead.dropWhile fun t => !t.isLineEnd) = c.ahead :=
    List.takeWhile_append_dropWhile
  refine ⟨?_, ?_⟩
  · intro t ht
    have hmem : t ∈ c.ahead := by
      rw [← hsplit]
      exact List.mem_append_left _ ht
    rw [hline] at ht
    exact ⟨by simpa [Token.isLineEnd] using List.mem_takeWhile_imp ht, hahead t hmem⟩
  · have hends := List.head?_dropWhile_not (fun t : Token => !t.isLineEnd) c.ahead
    rw [index_readLine, drop_tokens]
    cases hrest : c.ahead.dropWhile fun t => !t.isLineEnd with
    | nil =>
      rw [hrest, List.append_nil] at hsplit
      exact ⟨c.eof, [], by rw [hsplit], .inr ⟨heof, by simp⟩⟩
    | cons e rest =>
      rw [hrest] at hends hsplit
      have hkind : e.kind = .newline := by simpa [Token.isLineEnd] using hends
      exact ⟨e, rest ++ [c.eof], by simp [← hsplit], .inl ⟨hkind, by simp⟩⟩

/-! ## The laws of a cursor -/

/-- The cursor stands in the tokens, and this is what its operations do. -/
structure IsLawful (tokens : List Token) (c : Cursor) : Prop where
  /-- The tokens around the cursor are these. -/
  tokens_eq : c.tokens = tokens
  /-- The index lies within the tokens. -/
  index_lt : c.index < tokens.length
  /-- No operation makes the index smaller. -/
  index_le : ∀ operation : Operation, c.index ≤ (operation.move c).index
  /-- At the end of the header no operation moves the cursor. -/
  stays : ∀ t, tokens[c.index]? = some t → t.kind = .eof →
    ∀ operation : Operation, operation.move c = c
  /-- Peeking finds the next token that is not passed over and brings the cursor to it. -/
  peek : ∀ mode, Finds tokens mode c.index (c.peek mode).2.index (c.peek mode).1
  /-- Peeking again changes nothing. -/
  peek_peek : ∀ mode, (c.peek mode).2.peek mode = c.peek mode
  /-- Reading after peeking is reading. -/
  next_peek : ∀ mode, (c.peek mode).2.next mode = c.next mode
  /-- A read returns the token that peeking returns. -/
  next : ∀ mode, (c.next mode).1 = (c.peek mode).1
  /-- A read passes this token, unless it is the end of the header. -/
  index_next : ∀ mode, (c.next mode).2.index =
    if (c.peek mode).1.kind = .eof then (c.peek mode).2.index else (c.peek mode).2.index + 1
  /-- Looking ahead leaves the cursor where it is. -/
  move_peekAhead : ∀ offset mode, (Operation.peekAhead offset mode).move c = c
  /-- What lies some places ahead is what the last of so many reads and one more returns. -/
  peekAhead : ∀ offset mode,
    c.peekAhead offset mode = (((fun c : Cursor => (c.next mode).2)^[offset] c).next mode).1
  /-- Reading a line reads the rest of the line. -/
  readLine : IsRestOfLine tokens c.index c.readLine.1 c.readLine.2.index

/-- A cursor in the tokens of a header is lawful. -/
theorem isLawful {c : Cursor} (heof : c.eof.kind = .eof) (hahead : ∀ t ∈ c.ahead, t.kind ≠ .eof) :
    IsLawful c.tokens c where
  tokens_eq := rfl
  index_lt := c.index_lt_length
  index_le operation := (isBefore_move operation c).index_le
  stays t ht hkind := by
    apply move_of_ahead_eq_nil
    rw [getElem?_index, Option.some.injEq] at ht
    cases hcase : c.ahead with
    | nil => rfl
    | cons u rest =>
      rw [current_eq, hcase, List.headD_cons] at ht
      have hu : u.kind ≠ .eof := hahead u (by simp [hcase])
      rw [ht] at hu
      exact absurd hkind hu
  peek := finds_peek (by simp [Token.isLineEnd, heof])
  peek_peek mode := by
    unfold Cursor.peek
    simp only [settle_settle]
  next_peek mode := by
    unfold Cursor.peek Cursor.next
    simp only [settle_settle]
  next _ := rfl
  index_next := Cursor.index_next heof hahead
  move_peekAhead _ _ := rfl
  peekAhead := c.peekAhead_eq
  readLine := isRestOfLine_readLine heof hahead

/-- **The laws of a cursor.**  Whatever operations lead to a cursor from the start of a header, they
leave it within the tokens of the header, and from there on every operation does what is said of
it. -/
theorem isLawful_run (file source : String) {tokens : List Token}
    (h : (Lexer.lex file source).tokens? = .ok tokens) :
    ∃ start, ofTokens? file tokens = some start ∧ start.index = 0 ∧
      ∀ operations, IsLawful tokens (run operations start) := by
  obtain ⟨body, eof, rfl, heof, -, hbody⟩ := isTokenized_of_tokens? h
  refine ⟨⟨file, [], body, eof⟩, ofTokens?_concat file body heof, rfl, fun operations => ?_⟩
  have hbefore := isBefore_run operations ⟨file, [], body, eof⟩
  have heof' : (run operations ⟨file, [], body, eof⟩).eof.kind = .eof := by
    rw [hbefore.2.1]
    exact heof
  have hahead : ∀ t ∈ (run operations ⟨file, [], body, eof⟩).ahead, t.kind ≠ .eof := by
    intro t ht hkind
    rcases hbody t (hbefore.mem_ahead ht) with hcode | hbreak
    · simp [Token.isCode, hkind] at hcode
    · simp [Token.IsBreak, hkind] at hbreak
  have hlawful := isLawful heof' hahead
  rwa [hbefore.tokens_eq] at hlawful

/-- The tokens of two lines with an empty one between them. -/
def lineTokens : List Token :=
  [⟨.ident, "A", 1, 1⟩, ⟨.newline, "\n", 1, 2⟩, ⟨.newline, "\n", 2, 1⟩, ⟨.ident, "B", 3, 1⟩,
    ⟨.ident, "C", 3, 3⟩, ⟨.eof, "", 3, 4⟩]

/-- Line ends in a row, and a line that the header ends. -/
theorem isLawful_run_lines :
    (Lexer.lex "a.h" "A\n\nB C").tokens? = .ok lineTokens ∧
      ∃ start, ofTokens? "a.h" lineTokens = some start ∧ start.index = 0 ∧
        ∀ operations, IsLawful lineTokens (run operations start) := by
  have h : (Lexer.lex "a.h" "A\n\nB C").tokens? = .ok lineTokens := by
    decide +kernel
  exact ⟨h, isLawful_run "a.h" "A\n\nB C" h⟩

end SdkBindings.Cursor
