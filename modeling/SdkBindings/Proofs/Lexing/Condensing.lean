import SdkBindings.Proofs.Lexing.Joined
import SdkBindings.Proofs.Lexing.Tiling

/-!
# Condensing a line of code

Stored code has one space where the header had blanks or comments between two tokens, and nothing in
front of the first token or behind the last one (`Condensed`).  This is how the tokens of a line are
joined (`Begins.condensed`).

What starts in the middle of a line is condensed as well (`Condenses`), and then goes on with the same
characters up to the first gap (`Condenses.takeWhile`).  For everything that depends on the rest of the
line there is one argument: a machine that reads characters, and that a blank brings to the same state
as the end of a comment does, cannot tell the line from the condensed one by stopping
(`Condenses.survives`).  Two such machines look for the end of a block comment and for the closing mark
of a literal.
-/

namespace SdkBindings

namespace Lexer

/-! ## Condensed text -/

/-- The scanner takes the token off the front of a text that goes on with `after`. -/
def TakesToken (t : Token) (after : List Char) : Prop :=
  ∃ c piece, t.text.toList = c :: piece ∧
    scan c (piece ++ after) = some (some t.kind, piece.length)

/-- Behind a token, `text` consists of the given tokens with blanks and comments between them, and
`joined` has one space for each of these gaps, but none at the end. -/
inductive Condenses : List Char → List Token → List Char → Prop
  | ended {gap : List Char} (hgap : Filler [] gap) : Condenses gap [] []
  | token {gap text joined : List Char} {t : Token} {ts : List Token}
      (hgap : Filler (t.text.toList ++ text) gap) (htoken : TakesToken t text)
      (rest : Condenses text ts joined) :
      Condenses (gap ++ (t.text.toList ++ text)) (t :: ts)
        ((if gap = [] then [] else [' ']) ++ (t.text.toList ++ joined))

/-- A whole `text` consists of the given tokens with blanks and comments around them, and `joined` has
one space for each gap between two tokens. -/
inductive Condensed : List Char → List Token → List Char → Prop
  | empty {gap : List Char} (hgap : Filler [] gap) : Condensed gap [] []
  | token {gap text joined : List Char} {t : Token} {ts : List Token}
      (hgap : Filler (t.text.toList ++ text) gap) (htoken : TakesToken t text)
      (rest : Condenses text ts joined) :
      Condensed (gap ++ (t.text.toList ++ text)) (t :: ts) (t.text.toList ++ joined)

/-- A gap within a line starts with a blank or with the slash of a comment. -/
theorem Filler.exists_cons {after gap : List Char} (h : Filler after gap) (hline : '\n' ∉ gap)
    (hne : gap ≠ []) : ∃ c rest, gap = c :: rest ∧ (isSpace c = true ∨ c = '/') := by
  cases h with
  | nil => exact absurd rfl hne
  | blank hc _ => exact ⟨_, _, rfl, .inl hc⟩
  | continued => simp at hline
  | continuedReturn => simp at hline
  | comment hcomment _ =>
    cases hcomment with
    | line => exact ⟨_, _, rfl, .inr rfl⟩
    | block => exact ⟨_, _, rfl, .inr rfl⟩

/-! ## What condensing keeps -/

/-- A condensed line is a line. -/
theorem Condenses.inline {text joined : List Char} {ts : List Token} (h : Condenses text ts joined)
    (hline : '\n' ∉ text) : '\n' ∉ joined := by
  induction h with
  | ended => exact List.not_mem_nil
  | @token gap text joined t ts _ _ _ ih =>
    simp only [List.mem_append, not_or] at hline ⊢
    refine ⟨?_, hline.2.1, ih hline.2.2⟩
    split <;> simp

/-- A class without blanks and slashes covers as much of a condensed text. -/
theorem Condenses.takeWhile {p : Char → Bool} (hspace : ∀ c, isSpace c = true → p c = false)
    (hslash : p '/' = false) {text joined : List Char} {ts : List Token}
    (h : Condenses text ts joined) (hline : '\n' ∉ text) :
    joined.takeWhile p = text.takeWhile p := by
  have hgap {after gap : List Char} (h : Filler after gap) (hline : '\n' ∉ gap) (hne : gap ≠ [])
      (rest : List Char) : (gap ++ rest).takeWhile p = [] := by
    obtain ⟨c, gap, rfl, hc⟩ := h.exists_cons hline hne
    apply List.takeWhile_cons_of_neg
    rcases hc with hc | rfl
    · simp [hspace c hc]
    · simp [hslash]
  induction h with
  | @ended gap hfiller =>
    by_cases hne : gap = []
    · rw [hne]
    · have hnone := hgap hfiller hline hne []
      rw [List.append_nil] at hnone
      rw [hnone, List.takeWhile_nil]
  | @token gap text joined t ts hfiller _ _ ih =>
    simp only [List.mem_append, not_or] at hline
    by_cases hne : gap = []
    · rw [if_pos hne, hne, List.nil_append, List.nil_append, List.takeWhile_append,
        List.takeWhile_append, ih hline.2.2]
    · rw [if_neg hne, hgap hfiller hline.1 hne, List.singleton_append]
      exact List.takeWhile_cons_of_neg (by simp [hspace ' ' (by decide)])

/-- A machine that reads a text character by character until it stops.  It is in one state after every
blank, and after every end of a comment at which it does not stop. -/
structure Watch (σ : Type) where
  /-- What a character does to a state. -/
  step : σ → Char → Option σ
  /-- The state after a blank. -/
  rest : σ
  /-- A blank leads to this state. -/
  blank : ∀ s c, isSpace c = true → step s c = some rest
  /-- The end of a comment leads to this state or stops the machine. -/
  closing : ∀ s s', (step s '*').bind (step · '/') = some s' → s' = rest

namespace Watch

variable {σ : Type} (w : Watch σ)

/-- The state after a text, if the machine does not stop. -/
def run (s : σ) (text : List Char) : Option σ :=
  text.foldlM w.step s

/-- One text is read after another. -/
theorem run_append (s : σ) (front back : List Char) :
    w.run s (front ++ back) = (w.run s front).bind (w.run · back) := by
  rw [run, List.foldlM_append]
  rfl

/-- The characters of a text are read one by one. -/
@[simp]
theorem run_cons (s : σ) (c : Char) (text : List Char) :
    w.run s (c :: text) = (w.step s c).bind (w.run · text) := by
  rw [run, List.foldlM_cons]
  rfl

/-- Nothing is read of an empty text. -/
@[simp]
theorem run_nil (s : σ) : w.run s [] = some s :=
  rfl

/-- A gap in front of a token on the same line leads to the state after a blank. -/
theorem run_gap {after gap : List Char} (h : Filler after gap) (hafter : after ≠ [])
    (hline : '\n' ∉ gap ++ after) {s s' : σ} (hrun : w.run s gap = some s') :
    gap = [] ∨ s' = w.rest := by
  -- what follows a part of the gap that leads to this state keeps it
  have hfurther {gap : List Char} (hrun : w.run w.rest gap = some s')
      (ih : ∀ {s : σ}, w.run s gap = some s' → gap = [] ∨ s' = w.rest) : s' = w.rest := by
    rcases ih hrun with rfl | hrest
    · exact (Option.some.inj hrun).symm
    · exact hrest
  induction h generalizing s with
  | nil => exact .inl rfl
  | blank hc _ ih =>
    rw [run_cons, w.blank s _ hc, Option.bind_some] at hrun
    have hline' := fun hmem => hline (List.mem_cons_of_mem _ hmem)
    exact .inr (hfurther hrun (ih hline'))
  | continued => simp at hline
  | continuedReturn => simp at hline
  | @comment piece gap hcomment _ ih =>
    have hline' : '\n' ∉ gap ++ after := fun hmem =>
      hline (by simpa only [List.append_assoc] using List.mem_append_right piece hmem)
    rw [run_append] at hrun
    obtain ⟨s₁, hpiece, hgap⟩ := Option.bind_eq_some_iff.mp hrun
    cases hcomment with
    | line _ hend =>
      -- a comment up to the end of the line has nothing behind it
      exfalso
      cases hrest : gap ++ after with
      | nil => exact hafter (List.append_eq_nil_iff.mp hrest).2
      | cons c rest =>
        rw [hrest] at hend hline'
        rw [hend c rfl] at hline'
        exact hline' List.mem_cons_self
    | @block body _ _ =>
      have hclosing : '/' :: '*' :: (body ++ ['*', '/']) = ('/' :: '*' :: body) ++ ['*', '/'] := by
        simp
      rw [hclosing, run_append] at hpiece
      obtain ⟨s₂, -, hend⟩ := Option.bind_eq_some_iff.mp hpiece
      simp only [run_cons, run_nil, Option.bind_fun_some] at hend
      obtain rfl := w.closing s₂ s₁ hend
      exact .inr (hfurther hgap (ih hline'))

end Watch

/-- A machine that reads a text to its end also reads the condensed text to its end. -/
theorem Condenses.survives {σ : Type} (w : Watch σ) {text joined : List Char} {ts : List Token}
    (h : Condenses text ts joined) (hline : '\n' ∉ text) {s : σ} (hrun : (w.run s text).isSome) :
    (w.run s joined).isSome := by
  induction h generalizing s with
  | ended => exact rfl
  | @token gap text joined t ts hfiller htoken _ ih =>
    have hne : t.text.toList ++ text ≠ [] := by
      obtain ⟨c, piece, hpiece, -⟩ := htoken
      simp [hpiece]
    have hrest : '\n' ∉ text := fun hmem => hline (by simp [hmem])
    have htext {s : σ} (hrun : (w.run s (t.text.toList ++ text)).isSome) :
        (w.run s (t.text.toList ++ joined)).isSome := by
      rw [w.run_append] at hrun ⊢
      obtain ⟨s₁, hs₁⟩ := Option.isSome_iff_exists.mp hrun
      obtain ⟨s₂, htoken, hafter⟩ := Option.bind_eq_some_iff.mp hs₁
      rw [htoken, Option.bind_some]
      exact ih hrest (Option.isSome_of_eq_some hafter)
    rw [w.run_append] at hrun
    obtain ⟨s₁, hs₁⟩ := Option.isSome_iff_exists.mp hrun
    obtain ⟨s₂, hgap, hafter⟩ := Option.bind_eq_some_iff.mp hs₁
    have hafter' := Option.isSome_of_eq_some hafter
    by_cases hempty : gap = []
    · subst hempty
      obtain rfl := Option.some.inj hgap
      exact htext hafter'
    · rcases w.run_gap hfiller hne hline hgap with hnone | rfl
      · exact absurd hnone hempty
      · rw [if_neg hempty, List.singleton_append, w.run_cons, w.blank s ' ' rfl, Option.bind_some]
        exact htext hafter'

/-! ## Comments and literals that do not end -/

/-- The machine that stops at the end of a block comment; it remembers an asterisk. -/
def closingWatch : Watch Bool where
  step starred c := if starred = true ∧ c = '/' then none else some (decide (c = '*'))
  rest := false
  blank := by
    intro starred c hc
    have hmark := (isSeparate_of_isSpace hc).not_mem
    simp only [List.mem_cons, not_or] at hmark
    rw [if_neg fun h => hmark.1 h.2, decide_eq_false hmark.2.1]
  closing := by
    intro s s' h
    simp at h

/-- It reads a text to its end if no comment ends there. -/
theorem closingWatch_run (text : List Char) :
    (closingWatch.run false text).isSome ↔ commentEnd? text = none := by
  -- an asterisk that is remembered is read as if it stood in front
  have hstarred (starred : Bool) : (closingWatch.run starred text).isSome ↔
      commentEnd? (if starred then '*' :: text else text) = none := by
    induction text generalizing starred with
    | nil => cases starred <;> decide
    | cons c text ih =>
      have hplain : (closingWatch.run (decide (c = '*')) text).isSome ↔
          commentEnd? (c :: text) = none := by
        rw [ih]
        by_cases hc : c = '*'
        · simp [hc]
        · rw [decide_eq_false hc, commentEnd?, Option.map_eq_none_iff]
          · rfl
          · exact fun _ hstar _ => hc hstar
      cases starred with
      | false =>
        rw [Watch.run_cons]
        exact hplain
      | true =>
        by_cases hslash : c = '/'
        · simp [hslash, closingWatch, commentEnd?]
        · have hstep : closingWatch.step true c = some (decide (c = '*')) :=
            if_neg fun h => hslash h.2
          rw [Watch.run_cons, hstep, Option.bind_some, hplain, if_pos rfl]
          show _ ↔ commentEnd? ('*' :: c :: text) = none
          rw [commentEnd?.eq_def ('*' :: c :: text)]
          split
          · rename_i heq
            cases heq
            exact absurd rfl hslash
          · rename_i heq
            cases heq
            rw [Option.map_eq_none_iff]
          · rename_i heq
            cases heq
  exact hstarred false

/-- The machine that stops at the closing mark of a literal; it remembers a backslash. -/
def markWatch (mark : Char) (hmark : mark = '"' ∨ mark = '\'') : Watch Bool where
  step escaped c :=
    if escaped then some false
    else if c = '\\' then some true
    else if c = mark then none
    else some false
  rest := false
  blank := by
    intro escaped c hc
    have hother : c ≠ '\\' ∧ c ≠ mark := by
      constructor
      · rintro rfl
        cases hc
      · rintro rfl
        rcases hmark with rfl | rfl <;> cases hc
    rw [if_neg hother.1, if_neg hother.2, ite_self]
  closing := by
    intro s s' h
    have hother : '*' ≠ mark ∧ '/' ≠ mark := by rcases hmark with rfl | rfl <;> decide
    cases s <;> simpa [hother.1, hother.2] using h.symm

/-- It reads a text within a line to its end if no literal is closed there. -/
theorem markWatch_run {mark : Char} (hmark : mark = '"' ∨ mark = '\'') {text : List Char}
    (hline : '\n' ∉ text) :
    ((markWatch mark hmark).run false text).isSome ↔ closingMark? mark text = none := by
  have hbackslash : mark ≠ '\\' := by rcases hmark with rfl | rfl <;> decide
  fun_induction closingMark? mark text with
  | case1 => simp
  | case2 escaped rest ih =>
    simp only [List.mem_cons, not_or] at hline
    rw [Option.map_eq_none_iff]
    exact ih hline.2.2
  | case3 rest hescape => simp [markWatch, hbackslash]
  | case4 c rest hescape hother hend =>
    -- a backslash has nothing behind it here
    simp only [List.mem_cons, not_or] at hline
    obtain rfl := hend.resolve_right (Ne.symm hline.1)
    cases rest with
    | nil => simp [markWatch]
    | cons d rest => exact absurd rfl (hescape d rest rfl)
  | case5 c rest hescape hother hend ih =>
    simp only [List.mem_cons, not_or] at hline
    have hstep : (markWatch mark hmark).step false c = some false := by
      simp [markWatch, hother, (not_or.mp hend).1]
    rw [Option.map_eq_none_iff, Watch.run_cons, hstep]
    exact ih hline.2

/-- Where no comment starts behind a slash, none starts there in the condensed text. -/
theorem Condenses.commentLength? {text joined : List Char} {ts : List Token}
    (h : Condenses text ts joined) (hline : '\n' ∉ text) (hnone : Lexer.commentLength? text = none) :
    Lexer.commentLength? joined = none := by
  cases h with
  | ended => rfl
  | @token gap text joined t ts _ htoken hrest =>
    by_cases hgap : gap = []
    · obtain ⟨c, piece, hpiece, hscan⟩ := htoken
      rw [if_pos hgap, hpiece, List.nil_append]
      rw [hgap, hpiece, List.nil_append] at hnone
      by_cases hstar : c = '*'
      · -- the asterisk is a token by itself, and no comment ends behind it
        have hmark : scan '*' (piece ++ text) = some (some .punct, 0) :=
          scan_punct (by decide) (by decide) (by decide) (fun h => absurd h (by decide))
            (fun h => absurd h (by decide)) (fun h => absurd h (by decide))
        rw [hstar, hmark, Option.some.injEq, Prod.mk.injEq] at hscan
        obtain rfl := List.length_eq_zero_iff.mp hscan.2.symm
        rw [hstar] at hnone ⊢
        have hopen : commentEnd? text = none := Option.map_eq_none_iff.mp hnone
        have hrun := hrest.survives closingWatch (fun hmem => hline (by simp [hmem]))
          ((closingWatch_run text).mpr hopen)
        exact Option.map_eq_none_iff.mpr ((closingWatch_run joined).mp hrun)
      · refine commentLength?_eq_none fun d hd => ?_
        obtain rfl := Option.some.inj hd
        refine ⟨?_, hstar⟩
        rintro rfl
        cases hnone
    · rw [if_neg hgap]
      exact commentLength?_eq_none (by simp)

/-! ## Joined tokens -/

/-- A text that starts at `p` has these tokens, and what is joined behind the first of them is the
condensed rest. -/
inductive Begins (p : Position) : List Char → List Token → Prop
  | empty {gap : List Char} (hgap : Filler [] gap) : Begins p gap []
  | token {gap text : List Char} {t : Token} {ts : List Token}
      (hgap : Filler (t.text.toList ++ text) gap)
      (hplace : (⟨t.line, t.column⟩ : Position) = p.after gap) (htoken : TakesToken t text)
      (rest : Condenses text ts (Token.joinAfter t ts)) :
      Begins p (gap ++ (t.text.toList ++ text)) (t :: ts)

/-- A gap in front of a text belongs to what the text begins with. -/
theorem Begins.skip {p : Position} {piece text : List Char} {ts : List Token}
    (h : Begins (p.after piece) text ts) (hpiece : Filler text piece) : Begins p (piece ++ text) ts := by
  cases h with
  | empty hgap =>
    rw [← List.append_nil text] at hpiece
    exact .empty (hpiece.append hgap)
  | token hgap hplace htoken rest =>
    rw [← List.append_assoc]
    rw [← Position.after_append] at hplace
    exact .token (hpiece.append hgap) hplace htoken rest

/-- Behind a token the text of the others is condensed to what is joined. -/
theorem Begins.condenses {text : List Char} {previous : Token} {ts : List Token}
    (h : Begins ⟨previous.line, previous.endColumn⟩ text ts) (hline : '\n' ∉ text) :
    Condenses text ts (Token.joinAfter previous ts) := by
  cases h with
  | empty hgap => exact .ended hgap
  | @token gap text t ts hgap hplace htoken rest =>
    have hinline : '\n' ∉ gap := fun hmem => hline (List.mem_append_left _ hmem)
    have hadjacent : t.isAdjacentTo previous = decide (gap = []) := by
      rw [Position.after_inline _ hinline, Position.mk.injEq] at hplace
      rw [Token.isAdjacentTo, hplace.1, hplace.2]
      simp
    have hjoined : Token.joinAfter previous (t :: ts) =
        (if gap = [] then [] else [' ']) ++ (t.text.toList ++ Token.joinAfter t ts) := by
      rw [Token.joinAfter, hadjacent, List.append_assoc]
      simp only [decide_eq_true_eq]
    rw [hjoined]
    exact .token hgap htoken rest

/-- A whole text is condensed to its tokens joined. -/
theorem Begins.condensed {p : Position} {text : List Char} {ts : List Token} (h : Begins p text ts) :
    Condensed text ts (Token.join ts).toList := by
  cases h with
  | empty hgap => exact .empty hgap
  | token hgap _ htoken rest =>
    rw [Token.join, String.toList_ofList]
    exact .token hgap htoken rest

/-- A token is not longer than the text. -/
theorem length_le_of_scan {c : Char} {rest : List Char} {kind : Token.Kind} {k : Nat}
    (h : scan c rest = some (some kind, k)) : k ≤ rest.length := by
  have hclosing {mark : Char} (h : closingMark? mark rest = some k) : k ≤ rest.length := by
    obtain ⟨body, after, rfl, rfl, -⟩ := literalBody_of_closingMark? h
    simp
  rcases scan_eq_some h with rfl | ⟨-, n, hn, rfl⟩ | ⟨-, -, rfl⟩ | ⟨-, -, hmark⟩ | ⟨-, -, hmark⟩ |
    ⟨-, -, rfl⟩
  · rcases newline_of_scan h with ⟨-, rfl⟩ | ⟨-, hhead, rfl⟩
    · exact Nat.zero_le _
    · obtain ⟨tail, rfl⟩ := List.head?_eq_some_iff.mp hhead
      simp
  · have hle := numberLength?_le_length hn
    rw [List.length_cons] at hle
    omega
  · exact run_le_length isIdentPart rest
  · exact hclosing hmark
  · exact hclosing hmark
  · exact Nat.zero_le _

/-- What a line is cut to: its tokens of code and the end. -/
theorem begins_of_lexFrom {file : String} {p : Position} {text : List Char} (hline : '\n' ∉ text)
    (hnone : (lexFrom file p text).failure = none) :
    ∃ ts eof, (lexFrom file p text).tokens = ts ++ [eof] ∧ eof.isCode = false ∧
      (∀ t ∈ ts, t.isCode = true) ∧ Begins p text ts := by
  fun_induction lexFrom file p text with
  | case1 p => exact ⟨[], _, rfl, rfl, List.forall_mem_nil _, .empty .nil⟩
  | case2 p c rest hscan => cases hnone
  | case3 p c rest k piece tail hscan ih =>
    have htext : c :: rest = piece ++ rest.drop k := by simp [piece]
    rw [htext, List.mem_append, not_or] at hline
    obtain ⟨ts, eof, htokens, heof, hcode, hbegins⟩ := ih hline.2 hnone
    rw [htext]
    exact ⟨ts, eof, htokens, heof, hcode, hbegins.skip (filler_of_scan hscan)⟩
  | case4 p c rest k piece tail kind hscan ih =>
    have htext : c :: rest = piece ++ rest.drop k := by simp [piece]
    have hkind : kind ≠ .newline := by
      rintro rfl
      rcases newline_of_scan hscan with ⟨rfl, -⟩ | ⟨-, hhead, -⟩
      · exact hline List.mem_cons_self
      · exact hline (List.mem_cons_of_mem c (List.mem_of_mem_head? hhead))
    rw [htext, List.mem_append, not_or] at hline
    obtain ⟨ts, eof, htokens, heof, hcode, hbegins⟩ := ih hline.2 hnone
    let t : Token := ⟨kind, String.ofList piece, p.line, p.column⟩
    have hpiece : t.text.toList = piece := String.toList_ofList
    have hplace : p.after piece = ⟨t.line, t.endColumn⟩ := by
      rw [Position.after_inline p hline.1, ← hpiece, String.length_toList]
      rfl
    have htoken : TakesToken t (rest.drop k) := by
      refine ⟨c, rest.take k, hpiece, ?_⟩
      rw [List.take_append_drop, List.length_take_of_le (length_le_of_scan hscan)]
      exact hscan
    have hbegins' : Begins p ([] ++ (t.text.toList ++ rest.drop k)) (t :: ts) := by
      rw [hplace] at hbegins
      exact .token .nil rfl htoken (hbegins.condenses hline.2)
    rw [List.nil_append, hpiece, ← htext] at hbegins'
    refine ⟨t :: ts, eof, congrArg (t :: ·) htokens, heof, ?_, hbegins'⟩
    refine List.forall_mem_cons.mpr ⟨?_, hcode⟩
    simp [t, Token.isCode, hkind, kind_ne_eof_of_scan hscan]

end Lexer

end SdkBindings
