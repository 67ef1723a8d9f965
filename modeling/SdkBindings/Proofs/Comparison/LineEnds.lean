import SdkBindings.Proofs.Comparison.Headers

/-!
# Line ends matter in directives only

Two lists of tokens may differ in their line ends as long as each directive ends where it does.
`essence` is what they then have in common, together with which tokens of code touch each other
(`adjacencies`).  Reading such lists gives the same header and the same constants, or the same
failure at another place (`readTokens_lineEnds`).

The two cursors are alike in the comparison that leaves places out of account: wherever one side has
a line end that the other has not, no directive is being read, and the induction along both lists
passes over it.
-/

namespace SdkBindings

/-! ## Tokens of a header -/

/-- The tokens of a header as they are cut off: tokens of code and line ends, and then the end of the
header, where nothing is written. -/
def IsTokenized (tokens : List Token) : Prop :=
  ∃ body eof, tokens = body ++ [eof] ∧ eof.kind = .eof ∧ eof.text = "" ∧
    ∀ t ∈ body, t.isCode = true ∨ t.IsBreak

/-- What the lexer gives without a failure are the tokens of a header. -/
theorem isTokenized_of_failure {file source : String} (hfailure : (Lexer.lex file source).failure = none) :
    IsTokenized (Lexer.lex file source).tokens := by
  obtain ⟨pieces, eof, htokens, heof, hpieces⟩ := Lexer.tokens_eq_pieces hfailure
  refine ⟨pieces, eof, htokens, heof, ?_, fun t ht => (hpieces t ht).isCode_or_isBreak⟩
  have hmem : eof ∈ (Lexer.lex file source).tokens := by
    rw [Lexer.lex, htokens]
    exact List.mem_append_right pieces List.mem_cons_self
  rcases Lexer.isPiece_of_mem_lexFrom hmem with hpiece | ⟨-, htext⟩
  · rcases hpiece.isCode_or_isBreak with h | h
    · simp [Token.isCode, heof] at h
    · cases heof.symm.trans h.1
  · exact htext

/-- The tokens of a text that is read are the tokens of a header. -/
theorem isTokenized_of_tokens? {file source : String} {tokens : List Token}
    (h : (Lexer.lex file source).tokens? = .ok tokens) : IsTokenized tokens := by
  unfold Lexer.Lexed.tokens? at h
  split at h
  · cases h
  · rename_i hfailure
    cases h
    exact isTokenized_of_failure hfailure

/-- A cursor at the start of the tokens of a header. -/
theorem Cursor.ofTokens?_concat (file : String) (body : List Token) {eof : Token}
    (h : eof.kind = .eof) : Cursor.ofTokens? file (body ++ [eof]) = some ⟨file, [], body, eof⟩ := by
  unfold ofTokens?
  rw [List.getLast?_concat, List.dropLast_concat]
  exact if_pos h

/-! ## What line ends say -/

/-- What is written in tokens, of the line ends only those at which a directive ends.  A directive
goes from a `#` to the end of its line. -/
def essence (inDirective : Bool) : List Token → List (Token.Kind × String)
  | [] => []
  | t :: rest =>
    if t.isLineEnd then
      if inDirective then (t.kind, t.text) :: essence false rest else essence false rest
    else (t.kind, t.text) :: essence (inDirective || t.text = "#") rest

/-- For each token but the first, whether nothing separates it from the one before it. -/
def adjacencies : List Token → List Bool
  | t :: u :: rest => u.isAdjacentTo t :: adjacencies (u :: rest)
  | _ => []

/-- A token of code is essential. -/
theorem essence_code {t : Token} (h : t.isLineEnd = false) (inDirective : Bool) (rest : List Token) :
    essence inDirective (t :: rest) =
      (t.kind, t.text) :: essence (inDirective || t.text = "#") rest := by
  rw [essence, h]
  rfl

/-- A line end is essential within a directive. -/
theorem essence_break {e : Token} (h : e.isLineEnd = true) (inDirective : Bool) (rest : List Token) :
    essence inDirective (e :: rest) =
      if inDirective then (e.kind, e.text) :: essence false rest else essence false rest := by
  rw [essence, if_pos h]

/-- The end of a header is essential. -/
theorem essence_concat {eof : Token} (h : eof.isLineEnd = false) (inDirective : Bool)
    (body : List Token) :
    essence inDirective (body ++ [eof]) = essence inDirective body ++ [(eof.kind, eof.text)] := by
  induction body generalizing inDirective with
  | nil => rw [List.nil_append, essence_code h]; rfl
  | cons t rest ih =>
    rw [List.cons_append]
    cases ht : t.isLineEnd with
    | false => rw [essence_code ht, essence_code ht, ih, List.cons_append]
    | true => cases inDirective <;> simp [essence_break ht, ih]

namespace Comparison

/-- Places do not count, and the same is known to both sides. -/
def layouts : Comparison where
  place _ _ := True
  name _ := True
  table := Eq
  number?_eq := by
    rintro t _ n rfl -
    rfl
  insert := by
    rintro t _ n value rfl -
    rfl

/-- Tokens of one kind and text stand for each other, wherever they are. -/
theorem layouts_matches {t u : Token} (hkind : u.kind = t.kind) (htext : u.text = t.text) :
    layouts.Matches t u :=
  ⟨hkind, htext, trivial, fun _ _ => trivial⟩

/-- Where the same tokens touch those before them, so do the first ones, and so do the others. -/
theorem spacedAlike_of_adjacencies {previous : Option (Token × Token)} {t u : Token}
    {ts us : List Token}
    (h : adjacencies ((previous.map Prod.snd).toList ++ u :: us) =
      adjacencies ((previous.map Prod.fst).toList ++ t :: ts)) :
    SpacedAlike previous t u ∧ adjacencies (u :: us) = adjacencies (t :: ts) := by
  cases previous with
  | none => exact ⟨fun p hp => (nomatch hp), h⟩
  | some p =>
    obtain ⟨hfirst, hrest⟩ := List.cons.inj h
    refine ⟨fun q hq => ?_, hrest⟩
    rw [← Option.mem_some.mp hq]
    exact hfirst.symm

section

variable {inLine : Bool} {previous : Option (Token × Token)} {ts us : List Token}

/-- Where nothing essential is left on the first side, only line ends are left on the second. -/
theorem aligned_nil (hus : ∀ u ∈ us, u.isCode = true ∨ u.IsBreak)
    (hessence : essence inLine us = []) : layouts.Aligned inLine previous [] us := by
  induction us with
  | nil => exact .nil
  | cons u us ih =>
    obtain ⟨hu, hus⟩ := List.forall_mem_cons.mp hus
    rcases hu with hcode | hbreak
    · rw [essence_code (Token.isLineEnd_of_isCode hcode)] at hessence
      cases hessence
    · rw [essence_break hbreak.isLineEnd] at hessence
      cases inLine with
      | true => cases hessence
      | false => exact .right hbreak (ih hus hessence)

/-- Where a token of code comes first on the first side, only line ends come before it on the
second. -/
theorem aligned_code {t : Token} (ht : t.isCode = true)
    (hus : ∀ u ∈ us, u.isCode = true ∨ u.IsBreak)
    (hessence : essence inLine us = essence inLine (t :: ts))
    (hspaced : adjacencies ((previous.map Prod.snd).toList ++ us.filter Token.isCode) =
      adjacencies ((previous.map Prod.fst).toList ++ t :: ts.filter Token.isCode))
    (hrest : ∀ (u : Token) (us : List Token), (∀ u ∈ us, u.isCode = true ∨ u.IsBreak) →
      essence (inLine || t.text = "#") us = essence (inLine || t.text = "#") ts →
      adjacencies (u :: us.filter Token.isCode) = adjacencies (t :: ts.filter Token.isCode) →
      layouts.Aligned (inLine || t.text = "#") (some (t, u)) ts us) :
    layouts.Aligned inLine previous (t :: ts) us := by
  rw [essence_code (Token.isLineEnd_of_isCode ht)] at hessence
  induction us with
  | nil => cases hessence
  | cons u us ih =>
    obtain ⟨hu, hus⟩ := List.forall_mem_cons.mp hus
    rcases hu with hcode | hbreak
    · rw [essence_code (Token.isLineEnd_of_isCode hcode)] at hessence
      obtain ⟨hfirst, htail⟩ := List.cons.inj hessence
      obtain ⟨hkind, htext⟩ := Prod.mk.inj hfirst
      rw [htext] at htail
      rw [List.filter_cons_of_pos hcode] at hspaced
      obtain ⟨hspaced, hadjacent⟩ := spacedAlike_of_adjacencies hspaced
      exact .code ht (layouts_matches hkind htext) hspaced (hrest u us hus htail hadjacent)
    · rw [essence_break hbreak.isLineEnd] at hessence
      rw [List.filter_cons_of_neg (by simp [Token.isCode, hbreak.1])] at hspaced
      cases inLine with
      | false => exact .right hbreak (ih hus hessence hspaced)
      | true =>
        obtain ⟨hfirst, -⟩ := List.cons.inj hessence
        have hkind : u.kind = t.kind := (Prod.mk.inj hfirst).1
        simp [Token.isCode, ← hkind, hbreak.1] at ht

/-- Tokens that are essentially the same and touch each other alike are aligned. -/
theorem aligned_of_essence (hts : ∀ t ∈ ts, t.isCode = true ∨ t.IsBreak)
    (hus : ∀ u ∈ us, u.isCode = true ∨ u.IsBreak)
    (hessence : essence inLine us = essence inLine ts)
    (hspaced : adjacencies ((previous.map Prod.snd).toList ++ us.filter Token.isCode) =
      adjacencies ((previous.map Prod.fst).toList ++ ts.filter Token.isCode)) :
    layouts.Aligned inLine previous ts us := by
  induction ts generalizing inLine previous us with
  | nil => exact aligned_nil hus hessence
  | cons t ts ih =>
    obtain ⟨ht, hts⟩ := List.forall_mem_cons.mp hts
    rcases ht with hcode | hbreak
    · rw [List.filter_cons_of_pos hcode] at hspaced
      refine aligned_code hcode hus hessence hspaced fun u us hus hessence hspaced => ?_
      exact ih hts hus hessence hspaced
    · rw [List.filter_cons_of_neg (by simp [Token.isCode, hbreak.1])] at hspaced
      rw [essence_break hbreak.isLineEnd] at hessence
      cases inLine with
      | false => exact .left hbreak (ih hts hus hessence hspaced)
      | true =>
        -- within a directive the line end stands for the first token of the other side
        cases us with
        | nil => cases hessence
        | cons u us =>
          obtain ⟨hu, hus⟩ := List.forall_mem_cons.mp hus
          rcases hu with hcode | hbreak'
          · rw [essence_code (Token.isLineEnd_of_isCode hcode)] at hessence
            obtain ⟨hfirst, -⟩ := List.cons.inj hessence
            have hkind : u.kind = t.kind := (Prod.mk.inj hfirst).1
            simp [Token.isCode, hkind, hbreak.1] at hcode
          · rw [essence_break hbreak'.isLineEnd] at hessence
            obtain ⟨hfirst, htail⟩ := List.cons.inj hessence
            obtain ⟨hkind, htext⟩ := Prod.mk.inj hfirst
            rw [List.filter_cons_of_neg (by simp [Token.isCode, hbreak'.1])] at hspaced
            exact .both hbreak (layouts_matches hkind htext) (ih hts hus htail hspaced)

end

end Comparison

/-! ## Reading tokens -/

namespace Grammar

/-- The failure without the place where it was noticed. -/
def Failure.withoutPlace : Failure → Failure
  | .grammar e => .grammar { e with line := 0, column := 0 }
  | .constant e => .constant e
  | .unresolvedGuid file interface => .unresolvedGuid file interface

/-- Failures that differ in their places only are the same without them. -/
theorem withoutPlace_eq {f g : Failure} (h : Comparison.layouts.SameFailure f g) :
    g.withoutPlace = f.withoutPlace := by
  cases h with
  | @grammar e e' h =>
    show Failure.grammar _ = Failure.grammar _
    rw [h.file, h.expected, h.actual, h.context]
  | constant e => rfl
  | unresolvedGuid file interface => rfl

/-- Reads the tokens of a header in a session; the session goes on also after a failure. -/
def readTokens (strict : Bool) (file : String) (tokens : List Token) (session : Session) :
    Except Failure Header × Session :=
  match Cursor.ofTokens? file tokens with
  | some c => (headerOfCursor strict c).run session
  | none => (.ok (.empty file), session)

/-- Reading the text of a header is reading its tokens. -/
theorem readHeader_eq_readTokens (strict : Bool) {file source : String} {tokens : List Token}
    (h : (Lexer.lex file source).tokens? = .ok tokens) (session : Session) :
    readHeader strict file source session = readTokens strict file tokens session := by
  unfold readHeader header readTokens
  rw [h]
  dsimp only
  cases Cursor.ofTokens? file tokens <;> rfl

/-- **Line ends.**  Lists of tokens with the same essence, whose tokens of code touch each other
alike, are read to the same header and the same constants, or to failures that differ in their places
only. -/
theorem readTokens_lineEnds (strict : Bool) (file : String) {ts us : List Token}
    (hts : IsTokenized ts) (hus : IsTokenized us) (hessence : essence false us = essence false ts)
    (hspaced : adjacencies (us.filter Token.isCode) = adjacencies (ts.filter Token.isCode))
    (s s' : Session) (hsymbols : s'.symbols = s.symbols) :
    (readTokens strict file us s').1.mapError Failure.withoutPlace =
        (readTokens strict file ts s).1.mapError Failure.withoutPlace ∧
      (readTokens strict file us s').2.symbols = (readTokens strict file ts s).2.symbols := by
  obtain ⟨body, e, rfl, hkind, htext, hbody⟩ := hts
  obtain ⟨body', e', rfl, hkind', htext', hbody'⟩ := hus
  have hend {e : Token} (h : e.kind = .eof) : e.isLineEnd = false ∧ e.isCode = false := by
    simp [Token.isLineEnd, Token.isCode, h]
  rw [essence_concat (hend hkind).1, essence_concat (hend hkind').1, hkind, hkind', htext, htext']
    at hessence
  simp only [List.filter_append, List.filter_cons, (hend hkind).2, (hend hkind').2,
    Bool.false_eq_true, if_false, List.filter_nil, List.append_nil] at hspaced
  have haligned : Comparison.layouts.Aligned false none body body' :=
    Comparison.aligned_of_essence hbody hbody' (List.append_cancel_right hessence) hspaced
  have heof : Comparison.layouts.Matches e e' :=
    Comparison.layouts_matches (hkind'.trans hkind.symm) (htext'.trans htext.symm)
  have halike : Comparison.layouts.Alike (body.filter fun t => !t.isLineEnd).length
      ⟨file, [], body, e⟩ ⟨file, [], body', e'⟩ :=
    ⟨false, none, rfl, heof, hkind, htext, haligned, Nat.le_refl _⟩
  obtain ⟨houtcome, htable⟩ :=
    Comparison.headerOfCursor_alike strict halike s s' (hsymbols.symm : s.symbols = s'.symbols)
  unfold readTokens
  rw [Cursor.ofTokens?_concat file body hkind, Cursor.ofTokens?_concat file body' hkind']
  refine ⟨?_, htable.symm⟩
  dsimp only
  generalize ((headerOfCursor strict ⟨file, [], body, e⟩).run s).1 = r at houtcome
  generalize ((headerOfCursor strict ⟨file, [], body', e'⟩).run s').1 = r' at houtcome
  cases houtcome with
  | ok h => rw [h]
  | error h => exact congrArg Except.error (withoutPlace_eq h)

/-- An enumeration on one line and on several, after a macro. -/
theorem readTokens_lineEnds_enumeration :
    let ts := (Lexer.lex "a.h" "#define A 7\ntypedef enum { X = A } E;\n").tokens
    let us := (Lexer.lex "a.h" "\n#define A 7\n\ntypedef\nenum \x7b\nX\n= A \x7d\nE;").tokens
    IsTokenized ts ∧ IsTokenized us ∧ essence false us = essence false ts ∧
      adjacencies (us.filter Token.isCode) = adjacencies (ts.filter Token.isCode) ∧ us ≠ ts ∧
      (readTokens true "a.h" us .start).1.mapError Failure.withoutPlace =
        (readTokens true "a.h" ts .start).1.mapError Failure.withoutPlace ∧
      (readTokens true "a.h" us .start).2.symbols = (readTokens true "a.h" ts .start).2.symbols := by
  intro ts us
  have hts : IsTokenized ts := isTokenized_of_failure (by decide +kernel)
  have hus : IsTokenized us := isTokenized_of_failure (by decide +kernel)
  have hessence : essence false us = essence false ts := by decide +kernel
  have hspaced : adjacencies (us.filter Token.isCode) = adjacencies (ts.filter Token.isCode) := by
    decide +kernel
  exact ⟨hts, hus, hessence, hspaced, by decide +kernel,
    readTokens_lineEnds true "a.h" hts hus hessence hspaced .start .start rfl⟩

end Grammar

end SdkBindings
