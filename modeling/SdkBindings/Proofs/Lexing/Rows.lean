import SdkBindings.Proofs.Formula.Numbers
import SdkBindings.Proofs.Lexing.Relexing

/-!
# Rows of tokens

Stored code is the text of a row: each of its tokens is taken off the joined text of those from it on
(`IsRow`).  So the text is cut to tokens again that form the same row (`IsRow.codeTokens_join`).

Tokens that stand next to each other on one line of a header are a row (`Stand.isRow`) if what follows
them continues neither a number nor an identifier: whatever is not taken off as something longer in front
of the rest of the header is not in front of the rest of the row either.  A row in parentheses with the
addition of one behind it is a row (`IsRowText.incremented`), and so is a number.
-/

namespace SdkBindings

open Lexer

/-- Each of the tokens is code and is taken off the joined text of those from it on. -/
def IsRow : List Token → Prop
  | [] => True
  | t :: ts =>
    (t.isCode = true ∧ '\n' ∉ t.text.toList ∧ TakesToken t (Token.joinAfter t ts)) ∧ IsRow ts

/-! ## The text of a row -/

section

variable {ts : List Token}

/-- No row has a line feed. -/
theorem IsRow.inline (h : IsRow ts) (previous : Token) : '\n' ∉ Token.joinAfter previous ts := by
  induction ts generalizing previous with
  | nil => exact List.not_mem_nil
  | cons t ts ih =>
    obtain ⟨⟨-, htext, -⟩, hts⟩ := h
    simp only [Token.joinAfter, List.mem_append, not_or]
    refine ⟨⟨?_, htext⟩, ih hts t⟩
    split <;> decide

/-- The text of a row is condensed. -/
theorem IsRow.condenses (h : IsRow ts) (previous : Token) :
    Condenses (Token.joinAfter previous ts) ts (Token.joinAfter previous ts) := by
  induction ts generalizing previous with
  | nil => exact .ended .nil
  | cons t ts ih =>
    obtain ⟨⟨-, -, htoken⟩, hts⟩ := h
    rw [Token.joinAfter, List.append_assoc]
    by_cases hadjacent : t.isAdjacentTo previous = true
    · rw [if_pos hadjacent]
      exact .token .nil htoken (ih hts t)
    · rw [if_neg hadjacent]
      exact .token (.blank (by decide) .nil) htoken (ih hts t)

/-- Tokens that correspond to a row are one. -/
theorem IsRow.of_corresponds {K : Comparison} {previous : Option (Token × Token)} {us : List Token}
    (h : IsRow ts) (hcorresponds : K.Corresponds previous ts us) : IsRow us := by
  induction hcorresponds with
  | nil => trivial
  | @cons _ t u ts us hmatch _ hrest ih =>
    obtain ⟨⟨hcode, htext, c, piece, hpiece, hscan⟩, hts⟩ := h
    refine ⟨⟨?_, hmatch.text ▸ htext, c, piece, hmatch.text ▸ hpiece, ?_⟩, ih hts⟩
    · rw [Token.isCode, hmatch.kind] at *
      exact hcode
    · rw [hrest.joinAfter, hmatch.kind]
      exact hscan

/-- The tokens of a row are code. -/
theorem IsRow.isCode (h : IsRow ts) : ∀ t ∈ ts, t.isCode = true := by
  induction ts with
  | nil => exact nofun
  | cons t ts ih => exact List.forall_mem_cons.mpr ⟨h.1.1, ih h.2⟩

/-- A row of tokens has a text. -/
theorem IsRow.join_ne_empty (h : IsRow ts) (hne : ts ≠ []) : Token.join ts ≠ "" := by
  cases ts with
  | nil => exact absurd rfl hne
  | cons t ts =>
    obtain ⟨⟨-, -, c, piece, hpiece, -⟩, -⟩ := h
    intro hempty
    have hlist := congrArg String.toList hempty
    rw [Token.join, String.toList_ofList, hpiece] at hlist
    cases hlist

/-- A line begins with a row. -/
theorem IsRow.begins (h : IsRow ts) : ∃ p text, '\n' ∉ text ∧ Begins p text ts := by
  cases ts with
  | nil => exact ⟨.start, [], List.not_mem_nil, .empty .nil⟩
  | cons t ts =>
    obtain ⟨⟨-, htext, htoken⟩, hts⟩ := h
    refine ⟨⟨t.line, t.column⟩, [] ++ (t.text.toList ++ Token.joinAfter t ts), ?_,
      .token .nil rfl htoken (hts.condenses t)⟩
    rw [List.nil_append, List.mem_append, not_or]
    exact ⟨htext, hts.inline t⟩

/-- **The text of a row is cut to it again.** -/
theorem IsRow.codeTokens_join (h : IsRow ts) :
    ∃ us, codeTokens (Token.join ts) = .ok us ∧ IsRow us ∧ Token.join us = Token.join ts := by
  obtain ⟨p, text, hline, hbegins⟩ := h.begins
  obtain ⟨us, eof, hlexed, heof, hus, hcorresponds⟩ :=
    hbegins.cutsAlike hline h.isCode "<string>" .start
  refine ⟨us, ?_, h.of_corresponds hcorresponds, hcorresponds.join⟩
  rw [codeTokens_eq_ok_iff, lex, hlexed]
  refine ⟨rfl, ?_⟩
  rw [List.filter_append, List.filter_eq_self.mpr hus]
  simp [heof]

end

/-! ## Where a row may end -/

/-- What separates a text from what follows: it continues no number and no identifier. -/
structure Separates (after : List Char) : Prop where
  /-- No number is continued. -/
  numberPart : after.takeWhile isNumberPart = []
  /-- No identifier is continued. -/
  identPart : after.takeWhile isIdentPart = []

/-- A class covers no more of a text in front of what it does not cover. -/
theorem takeWhile_append_of_nil {p : Char → Bool} {after : List Char} (h : after.takeWhile p = [])
    (text : List Char) : (text ++ after).takeWhile p = text.takeWhile p := by
  rw [List.takeWhile_append, h, List.append_nil]
  split
  · rename_i hall
    exact ((List.takeWhile_prefix p).eq_of_length hall).symm
  · rfl

/-- A comment that ends does so whatever follows. -/
theorem Lexer.commentLength?_append {text after : List Char}
    (h : commentLength? (text ++ after) = none) :
    commentLength? text = none := by
  cases hk : commentLength? text with
  | none => rfl
  | some k =>
    exfalso
    unfold commentLength? at hk
    split at hk
    · cases h
    · obtain ⟨n, hn, -⟩ := Option.map_eq_some_iff.mp hk
      obtain ⟨body, rest, rfl, hbody, -⟩ := commentEnd?_eq_some hn
      have hended := commentEnd?_append hbody (rest ++ after)
      simp [commentLength?, hended] at h
    · cases hk

/-- A line that is followed by something separate ends a token where it does with it. -/
theorem endsAlike_of_append {text after : List Char} (hline : '\n' ∉ text) (h : Separates after) :
    EndsAlike (text ++ after) text where
  inline := hline
  numberPart := (takeWhile_append_of_nil h.numberPart text).symm
  identPart := (takeWhile_append_of_nil h.identPart text).symm
  closing mark hmark hopen := by
    cases hclosed : closingMark? mark text with
    | none => rfl
    | some n =>
      have hother : mark ≠ '\\' := by rcases hmark with rfl | rfl <;> decide
      cases (closingMark?_append hother hclosed after).symm.trans hopen
  comment := commentLength?_append

/-! ## Tokens on one line of a header -/

/-- The tokens of code stand in the text that starts at `p`, each where it says, and each is taken off
what is left of the text.  Of the gaps between them only those within a line are described, and nothing
is said about what follows the last one. -/
inductive Stand : Position → List Char → List Token → Prop
  /-- No token is left. -/
  | ended {p : Position} {text : List Char} : Stand p text []
  /-- A token stands behind a gap. -/
  | token {p : Position} {gap text : List Char} {t : Token} {ts : List Token}
      (hgap : '\n' ∉ gap → Filler (t.text.toList ++ text) gap)
      (hplace : (⟨t.line, t.column⟩ : Position) = p.after gap) (hcode : t.isCode = true)
      (htoken : TakesToken t text)
      (rest : Stand ((⟨t.line, t.column⟩ : Position).after t.text.toList) text ts) :
      Stand p (gap ++ (t.text.toList ++ text)) (t :: ts)

/-- What gives no token of code belongs to the gap in front of the next one. -/
theorem Stand.skip {p : Position} {piece text : List Char} {ts : List Token}
    (h : Stand (p.after piece) text ts) (hpiece : '\n' ∉ piece → Filler text piece) :
    Stand p (piece ++ text) ts := by
  cases h with
  | ended => exact .ended
  | token hgap hplace hcode htoken rest =>
    rw [← List.append_assoc]
    rw [← Position.after_append] at hplace
    refine .token (fun hline => ?_) hplace hcode htoken rest
    rw [List.mem_append, not_or] at hline
    exact (hpiece hline.1).append (hgap hline.2)

/-- The tokens of code that a text is cut to stand in it. -/
theorem stand_of_lexFrom (file : String) (p : Position) (text : List Char) :
    Stand p text ((lexFrom file p text).tokens.filter Token.isCode) := by
  fun_induction lexFrom file p text with
  | case1 p => exact .ended
  | case2 p c rest hscan => exact .ended
  | case3 p c rest k piece tail hscan ih =>
    have htext : c :: rest = piece ++ rest.drop k := by simp [piece]
    rw [htext]
    exact ih.skip fun _ => filler_of_scan hscan
  | case4 p c rest k piece tail kind hscan ih =>
    have htext : c :: rest = piece ++ rest.drop k := by simp [piece]
    by_cases hkind : kind = .newline
    · have hfeed : '\n' ∈ piece := by
        rw [hkind] at hscan
        rcases newline_of_scan hscan with ⟨rfl, -⟩ | ⟨rfl, hhead, rfl⟩
        · exact List.mem_cons_self
        · obtain ⟨rest, rfl⟩ := List.head?_eq_some_iff.mp hhead
          simp [piece]
      rw [List.filter_cons_of_neg (by simp [Token.isCode, hkind]), htext]
      exact ih.skip fun hline => absurd hfeed hline
    · let t : Token := ⟨kind, String.ofList piece, p.line, p.column⟩
      have hpiece : t.text.toList = piece := String.toList_ofList
      have htoken : TakesToken t (rest.drop k) := by
        refine ⟨c, rest.take k, hpiece, ?_⟩
        rw [List.take_append_drop, List.length_take_of_le (length_le_of_scan hscan)]
        exact hscan
      have hcode : t.isCode = true := by
        simp [t, Token.isCode, hkind, kind_ne_eof_of_scan hscan]
      have hstand : Stand p ([] ++ (t.text.toList ++ rest.drop k))
          (t :: tail.tokens.filter Token.isCode) :=
        .token (fun _ => .nil) rfl hcode htoken (by rw [hpiece]; exact ih)
      rw [List.nil_append, hpiece, ← htext] at hstand
      rw [List.filter_cons_of_pos hcode]
      exact hstand

/-- The tokens behind some others stand somewhere. -/
theorem Stand.drop {p : Position} {text : List Char} {front ts : List Token}
    (h : Stand p text (front ++ ts)) : ∃ q rest, Stand q rest ts := by
  induction front generalizing p text with
  | nil => exact ⟨p, text, h⟩
  | cons t front ih =>
    cases h with
    | token _ _ _ _ rest => exact ih rest

/-- Lines are counted upwards. -/
theorem Lexer.Position.line_le_after (p : Position) (piece : List Char) :
    p.line ≤ (p.after piece).line := by
  induction piece generalizing p with
  | nil => exact Nat.le_refl _
  | cons c piece ih =>
    refine Nat.le_trans ?_ (ih (p.next c))
    rw [Position.next]
    split
    · exact Nat.le_succ _
    · exact Nat.le_refl _

/-- What stays on a line has no line feed. -/
theorem Lexer.Position.inline_of_line_le {p : Position} {piece : List Char}
    (h : (p.after piece).line ≤ p.line) : '\n' ∉ piece := by
  induction piece generalizing p with
  | nil => exact List.not_mem_nil
  | cons c piece ih =>
    have hle : (p.next c).line ≤ ((p.next c).after piece).line := (p.next c).line_le_after piece
    have hnext : ((p.next c).after piece).line ≤ p.line := h
    by_cases hc : c = '\n'
    · rw [Position.next, if_pos hc] at hle hnext
      exact absurd (Nat.le_trans hle hnext) (Nat.not_succ_le_self _)
    · have hline : (p.next c).line = p.line := by rw [Position.next, if_neg hc]
      rw [List.mem_cons, not_or]
      exact ⟨Ne.symm hc, ih (hline ▸ hnext)⟩

/-- No token stands on an earlier line. -/
theorem Stand.line_le {p : Position} {text : List Char} {t : Token} {ts : List Token}
    (h : Stand p text (t :: ts)) : p.line ≤ t.line := by
  cases h with
  | @token _ gap _ _ _ _ hplace =>
    rw [show t.line = (p.after gap).line from congrArg Position.line hplace]
    exact p.line_le_after gap

/-- What stands in front of tokens on the same line has no line feed. -/
theorem Stand.inline {p : Position} {piece text : List Char} {ts us : List Token} {u : Token}
    (h : Stand (p.after piece) text (ts ++ u :: us)) (hlines : ∀ t ∈ ts ++ [u], t.line = p.line) :
    '\n' ∉ piece := by
  refine Position.inline_of_line_le (p := p) ?_
  cases ts with
  | nil => exact Nat.le_trans h.line_le (Nat.le_of_eq (hlines u (List.mem_singleton_self u)))
  | cons t ts => exact Nat.le_trans h.line_le (Nat.le_of_eq (hlines t List.mem_cons_self))

/-- Filler only depends on the first character behind it. -/
theorem Lexer.Filler.of_head? {after after' gap : List Char} (h : Filler after gap)
    (hhead : after'.head? = after.head?) : Filler after' gap := by
  induction h with
  | nil => exact .nil
  | blank hc _ ih => exact .blank hc ih
  | continued _ ih => exact .continued ih
  | continuedReturn _ ih => exact .continuedReturn ih
  | @comment piece gap hcomment _ ih =>
    refine .comment ?_ ih
    cases hcomment with
    | line hbody hend => exact .line hbody (by rwa [List.head?_append, hhead, ← List.head?_append])
    | block hbody => exact .block hbody

/-- A gap within a line separates, or there is none. -/
theorem Lexer.Filler.separates {after gap text : List Char} (h : Filler after gap) (hline : '\n' ∉ gap)
    (htext : Separates text) : Separates (gap ++ text) := by
  by_cases hne : gap = []
  · rwa [hne]
  · obtain ⟨c, rest, rfl, hc⟩ := h.exists_cons hline hne
    have hseparate : isNumberPart c = false ∧ isIdentPart c = false := by
      rcases hc with hc | rfl
      · exact ⟨(isSeparate_of_isSpace hc).not_numberPart, (isSeparate_of_isSpace hc).not_identPart⟩
      · exact ⟨by decide, by decide⟩
    constructor
    · exact List.takeWhile_cons_of_neg (by simp [hseparate.1])
    · exact List.takeWhile_cons_of_neg (by simp [hseparate.2])

section

variable {u : Token} (hu : ∀ rest, Separates (u.text.toList ++ rest))

include hu

/-- The text of tokens on one line is condensed to what is joined, up to a token that separates them
from what follows. -/
theorem Stand.condenses {previous : Token} {text : List Char} {ts us : List Token}
    (h : Stand ⟨previous.line, previous.endColumn⟩ text (ts ++ u :: us))
    (hlines : ∀ t ∈ ts ++ [u], t.line = previous.line) :
    ∃ front after, text = front ++ after ∧ '\n' ∉ front ∧ Separates after ∧
      Condenses front ts (Token.joinAfter previous ts) := by
  induction ts generalizing previous text with
  | nil =>
    have hline : u.line = previous.line := hlines u (List.mem_singleton_self u)
    cases h with
    | @token _ gap _ _ _ hgap hplace _ _ _ =>
      have hinline : '\n' ∉ gap := by
        refine Position.inline_of_line_le (p := ⟨previous.line, previous.endColumn⟩) ?_
        rw [← hplace]
        exact Nat.le_of_eq hline
      exact ⟨[], _, rfl, List.not_mem_nil, (hgap hinline).separates hinline (hu _), .ended .nil⟩
  | cons t ts ih =>
    obtain ⟨ht, hts⟩ := List.forall_mem_cons.mp hlines
    cases h with
    | @token _ gap text _ _ hgap hplace hcode htoken rest =>
      have hinline : '\n' ∉ gap := by
        refine Position.inline_of_line_le (p := ⟨previous.line, previous.endColumn⟩) ?_
        rw [← hplace]
        exact Nat.le_of_eq ht
      have hpiece : '\n' ∉ t.text.toList := rest.inline fun v hv => (hts v hv).trans ht.symm
      rw [Position.after_inline _ hpiece, String.length_toList] at rest
      obtain ⟨front, after, rfl, hfront, hafter, hcondenses⟩ := ih rest fun v hv =>
        (hts v hv).trans ht.symm
      have htoken' := htoken.of_endsAlike (endsAlike_of_append hfront hafter) hcode
      have hgap' : Filler (t.text.toList ++ front) gap := by
        refine (hgap hinline).of_head? ?_
        obtain ⟨c, piece, hpiece, -⟩ := htoken
        rw [hpiece]
        rfl
      have hline : '\n' ∉ gap ++ (t.text.toList ++ front) := by
        simp only [List.mem_append, not_or]
        exact ⟨hinline, hpiece, hfront⟩
      exact ⟨gap ++ (t.text.toList ++ front), after, by simp only [List.append_assoc], hline, hafter,
        (Begins.token hgap' hplace htoken' hcondenses).condenses hline⟩

/-- **Tokens on one line of a header are a row**, up to one that separates them from what follows. -/
theorem Stand.isRow {p : Position} {text : List Char} {ts us : List Token} {line : Nat}
    (h : Stand p text (ts ++ u :: us)) (hlines : ∀ t ∈ ts ++ [u], t.line = line) : IsRow ts := by
  induction ts generalizing p text with
  | nil => trivial
  | cons t ts ih =>
    obtain ⟨ht, hts⟩ := List.forall_mem_cons.mp hlines
    cases h with
    | @token _ gap _ _ _ hgap hplace hcode htoken rest =>
      have hpiece : '\n' ∉ t.text.toList := rest.inline fun v hv => (hts v hv).trans ht.symm
      refine ⟨⟨hcode, hpiece, ?_⟩, ih rest hts⟩
      rw [Position.after_inline _ hpiece, String.length_toList] at rest
      obtain ⟨front, after, rfl, hfront, hafter, hcondenses⟩ :=
        Stand.condenses hu rest fun v hv => (hts v hv).trans ht.symm
      exact (htoken.of_endsAlike (endsAlike_of_append hfront hafter) hcode).condensed hcondenses hfront
        hcode

end

/-! ## A row with an addition behind it -/

/-- The tokens of the addition of one that stand behind a token, with the parenthesis that closes in
front of it. -/
def Token.addition (last : Token) : List Token :=
  [⟨.punct, ")", last.line, last.endColumn⟩, ⟨.punct, "+", last.line, last.endColumn + 2⟩,
    ⟨.number, "1", last.line, last.endColumn + 4⟩]

/-- The addition is joined as it is written. -/
theorem Token.joinAfter_addition (last : Token) :
    Token.joinAfter last last.addition = ") + 1".toList := by
  have hclose : ")".length = 1 := by decide
  have hplus : "+".length = 1 := by decide
  simp [Token.addition, Token.joinAfter, Token.isAdjacentTo, Token.endColumn, hclose, hplus]

/-- So it is behind other tokens. -/
theorem Token.joinAfter_append_addition (previous : Token) (ts : List Token) :
    Token.joinAfter previous (ts ++ ((ts.getLast?).getD previous).addition) =
      Token.joinAfter previous ts ++ ") + 1".toList := by
  induction ts generalizing previous with
  | nil => exact previous.joinAfter_addition
  | cons t ts ih =>
    have hlast : ((t :: ts).getLast?).getD previous = (ts.getLast?).getD t := by
      rw [List.getLast?_cons, Option.getD_some]
    rw [hlast, List.cons_append, Token.joinAfter, Token.joinAfter, ih t,
      List.append_assoc _ _ ") + 1".toList]

/-- The addition behind a line ends a token where the line does. -/
theorem endsAlike_addition {text : List Char} (hline : '\n' ∉ text) :
    EndsAlike text (text ++ ") + 1".toList) := by
  have hline' : '\n' ∉ text ++ ") + 1".toList := by
    rw [List.mem_append, not_or]
    exact ⟨hline, by decide⟩
  have hsurvives {σ : Type} (w : Watch σ) (hrest : ∀ s, (w.run s ") + 1".toList).isSome) {s : σ}
      {text : List Char} (h : (w.run s text).isSome) : (w.run s (text ++ ") + 1".toList)).isSome := by
    obtain ⟨s', hs'⟩ := Option.isSome_iff_exists.mp h
    rw [w.run_append, hs']
    exact hrest s'
  refine ⟨hline', takeWhile_append_of_nil (by decide) text, takeWhile_append_of_nil (by decide) text,
    fun mark hmark hopen => ?_, fun hopen => ?_⟩
  · refine (markWatch_run hmark hline').mp (hsurvives _ ?_ ((markWatch_run hmark hline).mpr hopen))
    rcases hmark with rfl | rfl <;> decide
  · cases text with
    | nil => decide
    | cons c text =>
      by_cases hstar : c = '*'
      · subst hstar
        have hrun := (closingWatch_run text).mpr (Option.map_eq_none_iff.mp hopen)
        exact Option.map_eq_none_iff.mpr
          ((closingWatch_run (text ++ _)).mp (hsurvives closingWatch (by decide) hrun))
      · refine commentLength?_eq_none fun d hd => ?_
        obtain rfl := Option.some.inj hd
        refine ⟨?_, hstar⟩
        rintro rfl
        cases hopen

/-- The addition is a row. -/
theorem isRow_addition (last : Token) : IsRow last.addition := by
  have hlength : ")".length = 1 ∧ "+".length = 1 := by decide
  have hinline : '\n' ∉ ")".toList ∧ '\n' ∉ "+".toList ∧ '\n' ∉ "1".toList := by decide
  have hscan : scan ')' " + 1".toList = some (some .punct, 0) ∧
      scan '+' " 1".toList = some (some .punct, 0) ∧ scan '1' [] = some (some .number, 0) := by
    decide +kernel
  refine ⟨⟨rfl, hinline.1, ')', [], by simp, ?_⟩, ⟨rfl, hinline.2.1, '+', [], by simp, ?_⟩,
    ⟨rfl, hinline.2.2, '1', [], by simp, hscan.2.2⟩, trivial⟩
  · refine Eq.trans ?_ hscan.1
    simp [Token.joinAfter, Token.isAdjacentTo, Token.endColumn, hlength]
  · refine Eq.trans ?_ hscan.2.1
    simp [Token.joinAfter, Token.isAdjacentTo, Token.endColumn, hlength]

/-- A row with the addition behind it is a row. -/
theorem IsRow.append_addition {ts : List Token} (h : IsRow ts) (previous : Token) :
    IsRow (ts ++ ((ts.getLast?).getD previous).addition) := by
  induction ts generalizing previous with
  | nil => exact isRow_addition previous
  | cons t ts ih =>
    obtain ⟨⟨hcode, htext, htoken⟩, hts⟩ := h
    have hlast : ((t :: ts).getLast?).getD previous = (ts.getLast?).getD t := by
      rw [List.getLast?_cons, Option.getD_some]
    rw [hlast, List.cons_append]
    refine ⟨⟨hcode, htext, ?_⟩, ih hts t⟩
    rw [Token.joinAfter_append_addition]
    exact htoken.of_endsAlike (endsAlike_addition (hts.inline t)) hcode

/-- The token one column further. -/
def Token.shifted (t : Token) : Token :=
  { t with column := t.column + 1 }

/-- Tokens that are all shifted are joined as before. -/
theorem Token.joinAfter_shifted (previous : Token) (ts : List Token) :
    Token.joinAfter previous.shifted (ts.map Token.shifted) = Token.joinAfter previous ts := by
  induction ts generalizing previous with
  | nil => rfl
  | cons t ts ih =>
    have hadjacent : t.shifted.isAdjacentTo previous.shifted = t.isAdjacentTo previous := by
      simp only [Token.isAdjacentTo, Token.endColumn, Token.shifted, Nat.add_right_comm _ 1,
        Nat.add_right_cancel_iff]
      rfl
    rw [List.map_cons, Token.joinAfter, Token.joinAfter, hadjacent, ih t]
    rfl

/-- So they are a row if they have been one. -/
theorem IsRow.shifted {ts : List Token} (h : IsRow ts) : IsRow (ts.map Token.shifted) := by
  induction ts with
  | nil => trivial
  | cons t ts ih =>
    obtain ⟨⟨hcode, htext, htoken⟩, hts⟩ := h
    refine ⟨⟨hcode, htext, ?_⟩, ih hts⟩
    rw [Token.joinAfter_shifted]
    exact htoken

/-- The text is that of a row. -/
def IsRowText (text : String) : Prop :=
  ∃ ts, IsRow ts ∧ Token.join ts = text

/-- The text of a row is cut to a row. -/
theorem IsRowText.codeTokens {text : String} (h : IsRowText text) :
    ∃ ts, codeTokens text = .ok ts ∧ IsRow ts ∧ Token.join ts = text := by
  obtain ⟨ts, hts, rfl⟩ := h
  exact hts.codeTokens_join

/-- A row in parentheses with one added to it is a row. -/
theorem IsRowText.incremented {text : String} (h : IsRowText text) :
    IsRowText ("(" ++ text ++ ") + 1") := by
  obtain ⟨ts, hts, rfl⟩ := h
  -- the parenthesis takes the place of the first token
  let place : Position := (ts.head?.map fun t => ⟨t.line, t.column⟩).getD .start
  let opening : Token := ⟨.punct, "(", place.line, place.column⟩
  have hjoined : Token.joinAfter opening (ts.map Token.shifted) = (Token.join ts).toList := by
    cases ts with
    | nil => rfl
    | cons t ts =>
      have hlength : "(".length = 1 := by decide
      have hadjacent : t.shifted.isAdjacentTo opening = true := by
        simp [Token.isAdjacentTo, Token.endColumn, Token.shifted, opening, place, hlength]
      rw [List.map_cons, Token.joinAfter, if_pos hadjacent, Token.joinAfter_shifted, Token.join,
        String.toList_ofList]
      rfl
  have hopening (after : List Char) : TakesToken opening after :=
    ⟨'(', [], by simp [opening], scan_punct (by decide) (by decide) (by decide)
      (fun h => absurd h (by decide)) (fun h => absurd h (by decide)) (fun h => absurd h (by decide))⟩
  refine ⟨opening :: _, ⟨⟨rfl, by simp [opening], hopening _⟩, hts.shifted.append_addition opening⟩, ?_⟩
  rw [Token.join, Token.joinAfter_append_addition, hjoined]
  apply String.toList_inj.mp
  simp [opening]

/-- A number is a row. -/
theorem isRowText_toString (n : Nat) : IsRowText (toString n) := by
  have hdigits {c : Char} (hc : c ∈ Nat.toDigits 10 n) : Text.isDecimalDigit c = true :=
    Formula.isDecimalDigit_of_mem_toDigits hc
  obtain ⟨c, rest, hc⟩ := List.exists_cons_of_ne_nil (Formula.toDigits_ne_nil n)
  have hnumber := numberLength?_digits (Formula.toDigits_ne_nil n) fun c => hdigits
  rw [hc] at hnumber
  have hjoin : Token.join [⟨.number, toString n, 1, 1⟩] = toString n := by
    rw [Token.join, Token.joinAfter, List.append_nil, String.ofList_toList]
  refine ⟨[⟨.number, toString n, 1, 1⟩], ⟨⟨rfl, ?_, c, rest, ?_, ?_⟩, trivial⟩, hjoin⟩
  · rw [Formula.toList_toString]
    intro hfeed
    exact absurd (hdigits hfeed) (by decide +kernel)
  · rw [Formula.toList_toString, hc]
  · rw [Token.joinAfter, List.append_nil, scan_number hnumber]
    rfl

end SdkBindings
