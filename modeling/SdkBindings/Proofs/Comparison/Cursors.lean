import SdkBindings.Proofs.Comparison.Expressions
import SdkBindings.Proofs.Fields.Parts

/-!
# Comparing two readings: cursors

The tokens ahead of two cursors may differ in their line ends, but not within a directive: from a `#`
to the end of its line both have the same (`Comparison.Aligned`).  What a read in code mode returns
therefore stands for what it returns on the other side (`Comparison.AlikeAt.next`), and within a
directive the same is true of reads in line mode.

The line ends count for nothing, so what bounds the loops of the grammar is the number of tokens of
code ahead (`Cursor.code`), which two cursors have in common.
-/

namespace SdkBindings

/-! ## The code ahead -/

/-- The tokens ahead but the line ends. -/
def Cursor.code (c : Cursor) : List Token :=
  c.ahead.filter fun t => !t.isLineEnd

/-- What is left behind a front part. -/
theorem drop_length_takeWhile (p : Token → Bool) (ts : List Token) :
    ts.drop (ts.takeWhile p).length = ts.dropWhile p := by
  induction ts with
  | nil => rfl
  | cons t ts ih => by_cases h : p t <;> simp [h, ih]

/-- Passing over line ends takes no code away. -/
theorem filter_dropWhile_isLineEnd (ts : List Token) :
    (ts.dropWhile Token.isLineEnd).filter (fun t => !t.isLineEnd) =
      ts.filter fun t => !t.isLineEnd := by
  induction ts with
  | nil => rfl
  | cons t ts ih => by_cases h : t.isLineEnd <;> simp [h, ih]

/-- Passing over line ends takes them off what is ahead. -/
theorem Cursor.settle_ahead (c : Cursor) :
    (c.settle .code).ahead = c.ahead.dropWhile Token.isLineEnd :=
  drop_length_takeWhile _ _

/-- Passing over line ends takes no code away. -/
theorem Cursor.code_settle (c : Cursor) : (c.settle .code).code = c.code := by
  rw [code, settle_ahead, filter_dropWhile_isLineEnd]
  rfl

/-- Behind a front part no token of its class comes first. -/
theorem takeWhile_dropWhile (p : Token → Bool) (ts : List Token) :
    (ts.dropWhile p).takeWhile p = [] := by
  induction ts with
  | nil => rfl
  | cons t ts ih => by_cases h : p t <;> simp [h, ih]

/-- Where no line end comes first, a read in code mode passes over nothing. -/
theorem Cursor.next_settle (c : Cursor) : (c.settle .code).next .code = c.next .code := by
  have hsettle : (c.settle .code).settle .code = c.settle .code := by
    unfold settle skipLineEnds
    dsimp only
    rw [drop_length_takeWhile, takeWhile_dropWhile]
    rfl
  unfold next
  rw [hsettle]

/-- A token of code ends no line. -/
theorem Token.isLineEnd_of_isCode {t : Token} (h : t.isCode = true) : t.isLineEnd = false := by
  simp only [isCode, Bool.decide_and, Bool.and_eq_true, decide_eq_true_eq] at h
  simp [isLineEnd, h.1]

namespace Comparison

variable (K : Comparison)

/-! ## Aligned tokens -/

/-- The tokens ahead on two sides stand for each other up to line ends; within a directive
(`inLine`) the line ends stand for each other as well.  `previous` are the tokens of code before
them, if there are any. -/
inductive Aligned : Bool → Option (Token × Token) → List Token → List Token → Prop
  /-- Nothing is ahead. -/
  | nil {inLine : Bool} {previous : Option (Token × Token)} : Aligned inLine previous [] []
  /-- A line ends on the first side only. -/
  | left {previous : Option (Token × Token)} {e : Token} {ts us : List Token} (he : e.IsBreak)
      (hrest : Aligned false previous ts us) : Aligned false previous (e :: ts) us
  /-- A line ends on the second side only. -/
  | right {previous : Option (Token × Token)} {e : Token} {ts us : List Token} (he : e.IsBreak)
      (hrest : Aligned false previous ts us) : Aligned false previous ts (e :: us)
  /-- A line ends on both sides. -/
  | both {inLine : Bool} {previous : Option (Token × Token)} {e f : Token} {ts us : List Token}
      (he : e.IsBreak) (hmatch : K.Matches e f) (hrest : Aligned false previous ts us) :
      Aligned inLine previous (e :: ts) (f :: us)
  /-- A token of code is ahead on both sides. -/
  | code {inLine : Bool} {previous : Option (Token × Token)} {t u : Token} {ts us : List Token}
      (hcode : t.isCode = true) (hmatch : K.Matches t u) (hspaced : SpacedAlike previous t u)
      (hrest : Aligned (inLine || t.text = "#") (some (t, u)) ts us) :
      Aligned inLine previous (t :: ts) (u :: us)

/-- Of aligned tokens whose front is no line end, either none are left or the first two stand for
each other. -/
inductive Settled (previous : Option (Token × Token)) : List Token → List Token → Prop
  /-- Nothing is ahead. -/
  | nil : Settled previous [] []
  /-- A token of code is ahead on both sides. -/
  | code {inLine : Bool} {t u : Token} {ts us : List Token} (hcode : t.isCode = true)
      (hmatch : K.Matches t u) (hspaced : SpacedAlike previous t u)
      (hrest : K.Aligned (inLine || t.text = "#") (some (t, u)) ts us) :
      Settled previous (t :: ts) (u :: us)

variable {K} {inLine : Bool} {previous : Option (Token × Token)} {ts us : List Token}

/-- What stands for the end of a line is the end of a line. -/
theorem Matches.isBreak {e f : Token} (h : K.Matches e f) (he : e.IsBreak) : f.IsBreak :=
  ⟨h.kind.trans he.1, h.text ▸ he.2⟩

/-- What stands for a token of code is one. -/
theorem Matches.isCode {t u : Token} (h : K.Matches t u) : u.isCode = t.isCode := by
  simp only [Token.isCode, h.kind]

/-- Behind the line ends aligned tokens are settled. -/
theorem Aligned.dropWhile (h : K.Aligned inLine previous ts us) :
    K.Settled previous (ts.dropWhile Token.isLineEnd) (us.dropWhile Token.isLineEnd) := by
  induction h with
  | nil => exact .nil
  | left he _ ih => rwa [List.dropWhile_cons_of_pos he.isLineEnd]
  | right he _ ih => rwa [List.dropWhile_cons_of_pos he.isLineEnd]
  | both he hmatch _ ih =>
    rwa [List.dropWhile_cons_of_pos he.isLineEnd,
      List.dropWhile_cons_of_pos (hmatch.isBreak he).isLineEnd]
  | code hcode hmatch hspaced hrest _ =>
    have ht := Token.isLineEnd_of_isCode hcode
    have hu := Token.isLineEnd_of_isCode (hmatch.isCode.trans hcode)
    rw [List.dropWhile_cons_of_neg (by simp [ht]), List.dropWhile_cons_of_neg (by simp [hu])]
    exact .code hcode hmatch hspaced hrest

/-- Settled tokens are aligned. -/
theorem Settled.aligned (h : K.Settled previous ts us) :
    ∃ inLine, K.Aligned inLine previous ts us := by
  cases h with
  | nil => exact ⟨false, .nil⟩
  | code hcode hmatch hspaced hrest => exact ⟨_, .code hcode hmatch hspaced hrest⟩

/-- The code of aligned tokens corresponds. -/
theorem Aligned.code_corresponds (h : K.Aligned inLine previous ts us) :
    K.Corresponds previous (ts.filter fun t => !t.isLineEnd) (us.filter fun t => !t.isLineEnd) := by
  induction h with
  | nil => exact .nil
  | left he _ ih => simpa [he.isLineEnd] using ih
  | right he _ ih => simpa [he.isLineEnd] using ih
  | both he hmatch _ ih => simpa [he.isLineEnd, (hmatch.isBreak he).isLineEnd] using ih
  | code hcode hmatch hspaced _ ih =>
    have ht := Token.isLineEnd_of_isCode hcode
    have hu := Token.isLineEnd_of_isCode (hmatch.isCode.trans hcode)
    simpa [ht, hu] using .cons hmatch hspaced ih

/-- Tokens of a class that contains the line ends are taken off aligned tokens alike: their code
corresponds and what is left is aligned. -/
theorem Aligned.takeWhile (h : K.Aligned inLine previous ts us) {p : Token → Bool}
    (hbreak : ∀ e : Token, e.IsBreak → p e = true) (hp : ∀ {t u}, K.Matches t u → p u = p t) :
    K.Corresponds previous ((ts.takeWhile p).filter fun t => !t.isLineEnd)
        ((us.takeWhile p).filter fun t => !t.isLineEnd) ∧
      ∃ inLine previous, K.Aligned inLine previous (ts.dropWhile p) (us.dropWhile p) := by
  induction h with
  | nil => exact ⟨.nil, false, none, .nil⟩
  | left he _ ih => simpa [hbreak _ he, he.isLineEnd] using ih
  | right he _ ih => simpa [hbreak _ he, he.isLineEnd] using ih
  | both he hmatch _ ih =>
    have hf := hmatch.isBreak he
    simpa [hbreak _ he, he.isLineEnd, hbreak _ hf, hf.isLineEnd] using ih
  | @code inLine previous t u ts us hcode hmatch hspaced hrest ih =>
    have ht := Token.isLineEnd_of_isCode hcode
    have hu := Token.isLineEnd_of_isCode (hmatch.isCode.trans hcode)
    by_cases hclass : p t = true
    · have hclass' : p u = true := (hp hmatch).trans hclass
      obtain ⟨hcovered, haligned⟩ := ih
      refine ⟨?_, by simpa [hclass, hclass'] using haligned⟩
      simpa [hclass, hclass', ht, hu] using .cons hmatch hspaced hcovered
    · have hclass' : ¬ p u = true := fun h => hclass ((hp hmatch).symm.trans h)
      rw [List.takeWhile_cons_of_neg hclass, List.takeWhile_cons_of_neg hclass',
        List.dropWhile_cons_of_neg hclass, List.dropWhile_cons_of_neg hclass']
      exact ⟨.nil, inLine, previous, .code hcode hmatch hspaced hrest⟩

/-- Within a directive the rest of the line corresponds; behind it either nothing is left or the
ends of the line stand for each other. -/
theorem Aligned.line (h : K.Aligned true previous ts us) :
    K.Corresponds previous (ts.takeWhile fun t => !t.isLineEnd) (us.takeWhile fun t => !t.isLineEnd) ∧
      ((ts.dropWhile (fun t => !t.isLineEnd) = [] ∧ us.dropWhile (fun t => !t.isLineEnd) = []) ∨
        ∃ e f ts' us' previous', ts.dropWhile (fun t => !t.isLineEnd) = e :: ts' ∧
          us.dropWhile (fun t => !t.isLineEnd) = f :: us' ∧
          K.Aligned false previous' ts' us') := by
  generalize hline : true = inLine at h
  induction h with
  | nil => exact ⟨.nil, .inl ⟨rfl, rfl⟩⟩
  | left => cases hline
  | right => cases hline
  | @both _ previous e f ts us he hmatch hrest _ =>
    have hf := hmatch.isBreak he
    simp only [he.isLineEnd, hf.isLineEnd, Bool.not_true, List.takeWhile_cons_of_neg,
      List.dropWhile_cons_of_neg, Bool.false_eq_true, not_false_eq_true]
    exact ⟨.nil, .inr ⟨e, f, ts, us, previous, rfl, rfl, hrest⟩⟩
  | code hcode hmatch hspaced _ ih =>
    have ht := Token.isLineEnd_of_isCode hcode
    have hu := Token.isLineEnd_of_isCode (hmatch.isCode.trans hcode)
    obtain ⟨hcovered, hleft⟩ := ih (by rw [← hline, Bool.true_or])
    refine ⟨?_, by simpa [ht, hu] using hleft⟩
    simpa [ht, hu] using .cons hmatch hspaced hcovered

/-- Parenthesised arguments end at the same place of aligned tokens or on neither side. -/
theorem Aligned.argumentsLength? (h : K.Aligned inLine previous ts us) (depth : Nat) :
    (Grammar.argumentsLength? depth ts = none ∧ Grammar.argumentsLength? depth us = none) ∨
      ∃ m n inLine previous, Grammar.argumentsLength? depth ts = some m ∧
        Grammar.argumentsLength? depth us = some n ∧
        K.Aligned inLine previous (ts.drop m) (us.drop n) := by
  induction h generalizing depth with
  | nil => exact .inl ⟨rfl, rfl⟩
  | left he _ ih =>
    obtain ⟨hopen, hclose⟩ := he.not_parenthesis
    rcases ih depth with ⟨hts, hus⟩ | ⟨m, n, inLine, previous, hts, hus, hrest⟩
    · exact .inl ⟨by simp [Grammar.argumentsLength?, hopen, hclose, hts], hus⟩
    · refine .inr ⟨m + 1, n, inLine, previous, ?_, hus, by simpa using hrest⟩
      simp [Grammar.argumentsLength?, hopen, hclose, hts]
  | right he _ ih =>
    obtain ⟨hopen, hclose⟩ := he.not_parenthesis
    rcases ih depth with ⟨hts, hus⟩ | ⟨m, n, inLine, previous, hts, hus, hrest⟩
    · exact .inl ⟨hts, by simp [Grammar.argumentsLength?, hopen, hclose, hus]⟩
    · refine .inr ⟨m, n + 1, inLine, previous, hts, ?_, by simpa using hrest⟩
      simp [Grammar.argumentsLength?, hopen, hclose, hus]
  | both he hmatch _ ih =>
    obtain ⟨hopen, hclose⟩ := he.not_parenthesis
    rcases ih depth with ⟨hts, hus⟩ | ⟨m, n, inLine, previous, hts, hus, hrest⟩
    · left
      simp [Grammar.argumentsLength?, hmatch.text, hopen, hclose, hts, hus]
    · refine .inr ⟨m + 1, n + 1, inLine, previous, ?_, ?_, by simpa using hrest⟩
      · simp [Grammar.argumentsLength?, hopen, hclose, hts]
      · simp [Grammar.argumentsLength?, hmatch.text, hopen, hclose, hus]
  | @code inLine previous t u ts us hcode hmatch hspaced hrest ih =>
    -- counting goes on behind the token, with some depth
    have hgo (next : Nat)
        (ht : Grammar.argumentsLength? depth (t :: ts) =
          (Grammar.argumentsLength? next ts).map (· + 1))
        (hu : Grammar.argumentsLength? depth (u :: us) =
          (Grammar.argumentsLength? next us).map (· + 1)) :
        (Grammar.argumentsLength? depth (t :: ts) = none ∧
            Grammar.argumentsLength? depth (u :: us) = none) ∨
          ∃ m n inLine previous, Grammar.argumentsLength? depth (t :: ts) = some m ∧
            Grammar.argumentsLength? depth (u :: us) = some n ∧
            K.Aligned inLine previous ((t :: ts).drop m) ((u :: us).drop n) := by
      rcases ih next with ⟨hts, hus⟩ | ⟨m, n, inLine, previous, hts, hus, hrest⟩
      · exact .inl ⟨by rw [ht, hts]; rfl, by rw [hu, hus]; rfl⟩
      · refine .inr ⟨m + 1, n + 1, inLine, previous, ?_, ?_, by simpa using hrest⟩
        · rw [ht, hts]
          rfl
        · rw [hu, hus]
          rfl
    by_cases hopen : t.text = "("
    · apply hgo (depth + 1) <;> simp [Grammar.argumentsLength?, hmatch.text, hopen]
    · by_cases hclose : t.text = ")"
      · by_cases hdepth : depth ≤ 1
        · refine .inr ⟨1, 1, _, _, ?_, ?_, hrest⟩ <;>
            simp [Grammar.argumentsLength?, hmatch.text, hclose, hdepth]
        · apply hgo (depth - 1) <;>
            simp [Grammar.argumentsLength?, hmatch.text, hclose, hdepth]
      · apply hgo depth <;>
          simp [Grammar.argumentsLength?, hmatch.text, hopen, hclose]

/-! ## Alike cursors -/

variable (K)

/-- Two cursors in headers of one name with aligned tokens ahead and at most `n` tokens of code among
them. -/
structure AlikeAt (inLine : Bool) (previous : Option (Token × Token)) (n : Nat) (c d : Cursor) :
    Prop where
  /-- The headers have one name. -/
  file : d.file = c.file
  /-- The ends of the headers stand for each other. -/
  eof : K.Matches c.eof d.eof
  /-- They are ends of headers, -/
  eof_kind : c.eof.kind = .eof
  /-- and nothing is written there. -/
  eof_text : c.eof.text = ""
  /-- The tokens ahead are aligned. -/
  aligned : K.Aligned inLine previous c.ahead d.ahead
  /-- The number of tokens of code ahead is bounded. -/
  length_le : c.code.length ≤ n

/-- Two cursors are alike, whether within a directive or not. -/
def Alike (n : Nat) (c d : Cursor) : Prop :=
  ∃ inLine previous, K.AlikeAt inLine previous n c d

variable {K} {n : Nat} {c d : Cursor}

/-- The number of tokens of code itself is a bound, and there are at least as many tokens ahead on
either side. -/
theorem Alike.tight (h : K.Alike n c d) :
    ∃ m ≤ n, K.Alike m c d ∧ m ≤ c.ahead.length ∧ m ≤ d.ahead.length := by
  obtain ⟨inLine, previous, h⟩ := h
  have hsame : d.code.length = c.code.length := by
    have htexts := congrArg List.length h.aligned.code_corresponds.map_text
    rwa [List.length_map, List.length_map] at htexts
  refine ⟨c.code.length, h.length_le, ⟨inLine, previous, { h with length_le := Nat.le_refl _ }⟩,
    List.length_filter_le _ _, ?_⟩
  rw [← hsame]
  exact List.length_filter_le _ _

/-- Passing tokens on both sides leaves the cursors alike if what is ahead then is aligned and holds
no more code than bounded. -/
theorem AlikeAt.moved (h : K.AlikeAt inLine previous n c d) {inLine' : Bool}
    {previous' : Option (Token × Token)} {passed passed' ts us : List Token}
    (haligned : K.Aligned inLine' previous' ts us)
    (hlength : (ts.filter fun t => !t.isLineEnd).length ≤ m) :
    K.AlikeAt inLine' previous' m { c with passed := passed, ahead := ts }
      { d with passed := passed', ahead := us } :=
  ⟨h.file, h.eof, h.eof_kind, h.eof_text, haligned, hlength⟩

/-- Settled cursors are alike. -/
theorem AlikeAt.settle (h : K.AlikeAt inLine previous n c d) :
    K.Alike n (c.settle .code) (d.settle .code) := by
  obtain ⟨inLine', haligned⟩ := h.aligned.dropWhile.aligned
  refine ⟨inLine', previous, h.moved ?_ ?_⟩
  · rwa [drop_length_takeWhile, drop_length_takeWhile]
  · rw [drop_length_takeWhile, filter_dropWhile_isLineEnd]
    exact h.length_le

/-- A read in code mode returns the ends of the headers, or tokens of code that stand for each other,
and then less code is ahead. -/
theorem AlikeAt.next (h : K.AlikeAt inLine previous n c d) :
    ((c.next .code).1 = c.eof ∧ (d.next .code).1 = d.eof ∧
        K.Alike n (c.next .code).2 (d.next .code).2) ∨
      ∃ t u m inLine', (c.next .code).1 = t ∧ (d.next .code).1 = u ∧ t.isCode = true ∧
        K.Matches t u ∧ m < n ∧
        K.AlikeAt (inLine' || t.text = "#") (some (t, u)) m (c.next .code).2 (d.next .code).2 := by
  have hsettled := h.aligned.dropWhile
  rw [← c.settle_ahead, ← d.settle_ahead] at hsettled
  have hlength := h.length_le
  rw [← c.code_settle] at hlength
  obtain ⟨_, _, halike⟩ := h.settle
  unfold Cursor.code at hlength
  unfold Cursor.next
  dsimp only
  cases hc : (c.settle .code).ahead with
  | nil =>
    rw [hc] at hsettled
    generalize hd : (d.settle .code).ahead = us at hsettled
    cases hsettled
    left
    simp only [Cursor.current, Cursor.advance, hc, hd]
    exact ⟨rfl, rfl, _, _, halike⟩
  | cons t ts =>
    rw [hc] at hsettled hlength
    generalize hd : (d.settle .code).ahead = us at hsettled
    cases hsettled with
    | code hcode hmatch hspaced hrest =>
      right
      rw [List.filter_cons_of_pos (by rw [Token.isLineEnd_of_isCode hcode]; rfl)] at hlength
      simp only [Cursor.current, Cursor.advance, hc, hd]
      exact ⟨_, _, _, _, rfl, rfl, hcode, hmatch, hlength, halike.moved hrest (Nat.le_refl _)⟩

/-- Within a directive a read in line mode returns the ends of the headers, the ends of the lines or
tokens of the directive. -/
theorem AlikeAt.nextInLine (h : K.AlikeAt true previous n c d) :
    K.Matches (c.next .line).1 (d.next .line).1 ∧
      ((c.next .line).1.kind = .newline ∧ K.Alike n (c.next .line).2 (d.next .line).2 ∨
        K.AlikeAt true (some ((c.next .line).1, (d.next .line).1)) n (c.next .line).2
          (d.next .line).2) := by
  have haligned := h.aligned
  have hlength := h.length_le
  unfold Cursor.code at hlength
  unfold Cursor.next Cursor.settle Cursor.current Cursor.advance
  dsimp only
  cases hc : c.ahead with
  | nil =>
    rw [hc] at haligned
    generalize hd : d.ahead = us at haligned
    cases haligned with
    | nil =>
      refine ⟨h.eof, .inr ⟨h.file, h.eof, h.eof_kind, h.eof_text, ?_, ?_⟩⟩
      · rw [hc, hd]
        exact .nil
      · unfold Cursor.code
        rw [hc]
        exact Nat.zero_le _
  | cons t ts =>
    rw [hc] at haligned hlength
    generalize hd : d.ahead = us at haligned
    cases haligned with
    | both he hmatch hrest =>
      rw [List.filter_cons_of_neg (by simp [he.isLineEnd])] at hlength
      exact ⟨hmatch, .inl ⟨he.1, false, previous, h.moved hrest hlength⟩⟩
    | code hcode hmatch hspaced hrest =>
      rw [Bool.true_or] at hrest
      rw [List.filter_cons_of_pos (by rw [Token.isLineEnd_of_isCode hcode]; rfl)] at hlength
      refine ⟨hmatch, .inr ?_⟩
      exact h.moved hrest (Nat.le_of_succ_le hlength)

/-- Code behind a front part is code. -/
theorem length_filter_dropWhile_le (p : Token → Bool) (ts : List Token) :
    ((ts.dropWhile p).filter fun t => !t.isLineEnd).length ≤
      (ts.filter fun t => !t.isLineEnd).length :=
  ((List.dropWhile_sublist p).filter _).length_le

/-- Within a directive the rest of the line corresponds. -/
theorem AlikeAt.readLine (h : K.AlikeAt true previous n c d) :
    K.Corresponds previous c.readLine.1 d.readLine.1 ∧ K.Alike n c.readLine.2 d.readLine.2 := by
  obtain ⟨hline, hbehind⟩ := h.aligned.line
  have hlength := Nat.le_trans (length_filter_dropWhile_le (fun t => !t.isLineEnd) c.ahead) h.length_le
  refine ⟨hline, ?_⟩
  unfold Cursor.readLine Cursor.advance
  dsimp only
  rw [drop_length_takeWhile, drop_length_takeWhile]
  rcases hbehind with ⟨hc, hd⟩ | ⟨e, f, ts, us, previous', hc, hd, haligned⟩
  · rw [hc, hd]
    exact ⟨false, none, h.moved .nil (Nat.zero_le _)⟩
  · rw [hc, hd]
    rw [hc] at hlength
    refine ⟨false, previous', h.moved haligned (Nat.le_trans ?_ hlength)⟩
    exact ((List.sublist_cons_self e ts).filter _).length_le

end Comparison

end SdkBindings
