import SdkBindings.Proofs.Skipping.Constructs
import SdkBindings.Proofs.Skipping.Forms

/-!
# Items are complete

Statements see no further than readers do (`Exchange.GoesAlong`), in the same session and with the same
session behind them.  So a declaration that has once been read up to its end is complete: it is read in
the same way whatever follows it (`comesTo_of_isReadTo`).

The exception are type declarations, which look at a token that they leave ahead.  With a body they
still read on (`comesTo_body`); an alias is complete together with its semicolon (`comesTo_typedef`), and
what has neither is skipped.  These are the items of a header (`IsCompleteItem`), and any number of them
in a row is complete (`comesTo_of_areCompleteItems`).
-/

namespace SdkBindings

open Grammar Grammar.Reader

namespace Exchange

/-! ## Statements -/

section

variable (E : Exchange) {α β : Type}

/-- Where the first statement stops within the common tokens, fewer than `n` of which are code, the
second one stops at the same place, with the same result and in the same session. -/
structure GoesAlong (n : Nat) (m m' : Statement α) : Prop where
  /-- The first statement moves forward. -/
  forward : IsForward m
  /-- The second one goes along. -/
  same {front front' : List Token} {c d : Cursor} {s : Session} {a : α} {c' : Cursor} {s' : Session} :
    (front.filter fun t => !t.isLineEnd).length < n → c.ahead = front ++ E.old →
      d.ahead = front ++ E.new → m.exec c s = (.ok (a, c'), s') → c'.ahead = front' ++ E.old →
      ∃ d', m'.exec d s = (.ok (a, d'), s') ∧ d'.ahead = front' ++ E.new

variable {E} {n : Nat} {m m' : Statement α} {k k' : α → Statement β}

namespace GoesAlong

/-- No tokens are fewer than none. -/
theorem zero (h : IsForward m) : E.GoesAlong 0 m m' :=
  ⟨h, fun hlength => absurd hlength (Nat.not_lt_zero _)⟩

/-- Reading nothing. -/
theorem pure (a : α) : E.GoesAlong n (Pure.pure a : Statement α) (Pure.pure a) := by
  refine ⟨.pure a, ?_⟩
  rintro front front' c d s _ _ _ - hc hd ⟨⟩ hend
  obtain rfl : front = front' := List.append_cancel_right (hc.symm.trans hend)
  exact ⟨d, rfl, hd⟩

/-- A reader. -/
theorem read {m m' : Reader α} (h : E.Follows n m m') :
    E.GoesAlong n (Grammar.read m) (Grammar.read m') := by
  refine ⟨.read h.forward, ?_⟩
  intro front front' c d s a c' s' hlength hc hd h' hend
  obtain ⟨hread, rfl⟩ := exec_read_ok.mp h'
  obtain ⟨d', hread', hend'⟩ := h.same hlength hc hd hread hend
  exact ⟨d', exec_read_ok.mpr ⟨hread', rfl⟩, hend'⟩

/-- An action in the session. -/
theorem lift (m : InSession α) : E.GoesAlong n (liftM m : Statement α) (liftM m) := by
  refine ⟨.lift m, ?_⟩
  intro front front' c d s a c' s' _ hc hd h hend
  obtain ⟨hm, rfl⟩ := exec_lift_ok.mp h
  obtain rfl : front = front' := List.append_cancel_right (hc.symm.trans hend)
  exact ⟨d, exec_lift_ok.mpr ⟨hm, rfl⟩, hd⟩

/-- Statements in a row. -/
theorem bind (hm : E.GoesAlong n m m') (hk : ∀ a, E.GoesAlong n (k a) (k' a)) :
    E.GoesAlong n (m >>= k) (m' >>= k') := by
  refine ⟨hm.forward.bind fun a => (hk a).forward, ?_⟩
  intro front front'' c d s b c'' s'' hlength hc hd h hend
  obtain ⟨a, c', s', ha, hb⟩ := exec_bind_ok h
  obtain ⟨-, -, read, -, hread⟩ := (hk a).forward c' s' b c'' s'' hb
  rw [hend, ← List.append_assoc] at hread
  obtain ⟨d', ha', hd'⟩ := hm.same hlength hc hd ha hread
  have htaken := length_code_front hc hread (j := 0) (length_code_le (hm.forward c s a c' s' ha))
  obtain ⟨d'', hb', hd''⟩ := (hk a).same (Nat.lt_of_le_of_lt htaken hlength) hread hd' hb hend
  exact ⟨d'', (exec_bind ha').trans hb', hd''⟩

/-- A reader that takes a token, in front of a statement. -/
theorem taking_bind {m m' : Reader α} (hm : E.Takes n m m')
    (hk : ∀ a, E.GoesAlong (n - 1) (k a) (k' a)) :
    E.GoesAlong n (Grammar.read m >>= k) (Grammar.read m' >>= k') := by
  refine ⟨(IsForward.read hm.forward).bind fun a => (hk a).forward, ?_⟩
  intro front front'' c d s b c'' s'' hlength hc hd h hend
  obtain ⟨a, c', s', hfirst, hb⟩ := exec_bind_ok h
  obtain ⟨ha, rfl⟩ := exec_read_ok.mp hfirst
  obtain ⟨-, -, read, -, hread⟩ := (hk a).forward c' s' b c'' s'' hb
  rw [hend, ← List.append_assoc] at hread
  obtain ⟨d', ha', hd'⟩ := hm.same hlength hc hd ha hread
  have htaken := length_code_front hc hread (hm.advances c a c' ha)
  obtain ⟨d'', hb', hd''⟩ := (hk a).same (by omega) hread hd' hb hend
  exact ⟨d'', (exec_bind (exec_read_ok.mpr ⟨ha', rfl⟩)).trans hb', hd''⟩

/-- Statements chosen by a condition. -/
theorem ite {p : Prop} [Decidable p] {l l' : Statement α} (hm : p → E.GoesAlong n m m')
    (hl : ¬ p → E.GoesAlong n l l') : E.GoesAlong n (if p then m else l) (if p then m' else l') := by
  by_cases hp : p
  · rw [if_pos hp, if_pos hp]
    exact hm hp
  · rw [if_neg hp, if_neg hp]
    exact hl hp

/-- Nothing comes after a failure. -/
theorem fail_bind {token : Token} {expected context : String} {l : Statement β} :
    E.GoesAlong n (Grammar.read (Reader.fail token expected context) >>= k) l := by
  refine ⟨?_, ?_⟩
  · rintro c s _ _ _ ⟨⟩
  · rintro front front' c d s _ _ _ - - - ⟨⟩

/-- The numbers of tokens ahead are no smaller than that of the common tokens of code. -/
theorem ahead_bind {k k' : Nat → Statement β}
    (hk : ∀ l ≤ n, ∀ b b', l ≤ b + 1 → l ≤ b' + 1 → E.GoesAlong l (k b) (k' b')) :
    E.GoesAlong n (Grammar.read Reader.ahead >>= k) (Grammar.read Reader.ahead >>= k') := by
  have hforward (b : Nat) : IsForward (k b) :=
    (hk 0 (Nat.zero_le n) b b (Nat.zero_le _) (Nat.zero_le _)).forward
  refine ⟨(IsForward.read .ahead).bind hforward, ?_⟩
  intro front front' c d s b c' s' hlength hc hd h hend
  have hle (l : List Token) : (front.filter fun t => !t.isLineEnd).length ≤ (front ++ l).length := by
    rw [List.length_append]
    exact Nat.le_trans (List.length_filter_le _ _) (Nat.le_add_right _ _)
  exact (hk _ hlength c.ahead.length d.ahead.length (Nat.succ_le_succ (hc ▸ hle E.old))
    (Nat.succ_le_succ (hd ▸ hle E.new))).same (Nat.lt_succ_self _) hc hd h hend

end GoesAlong

variable (E) in
/-- The second statement goes along with the first one, which takes at least `j` tokens of code. -/
structure GoesOn (j n : Nat) (m m' : Statement α) : Prop extends E.GoesAlong n m m' where
  /-- The tokens are taken. -/
  advances {c : Cursor} {s : Session} {a : α} {c' : Cursor} {s' : Session} :
    m.exec c s = (.ok (a, c'), s') → c'.code.length ≤ c.code.length - j

namespace GoesOn

variable {j : Nat}

/-- Whatever moves forward takes no tokens at least. -/
theorem of_goesAlong (h : E.GoesAlong n m m') : E.GoesOn 0 n m m' :=
  ⟨h, fun hread => length_code_le (h.forward _ _ _ _ _ hread)⟩

/-- A reader that takes a token, in front of what takes others. -/
theorem taking_bind {m m' : Reader α} (hm : E.Takes n m m') (hk : ∀ a, E.GoesOn j n (k a) (k' a)) :
    E.GoesOn (j + 1) n (Grammar.read m >>= k) (Grammar.read m' >>= k') := by
  refine ⟨(GoesAlong.read hm.toFollows).bind fun a => (hk a).toGoesAlong, fun h => ?_⟩
  obtain ⟨a, c', s', hfirst, hb⟩ := exec_bind_ok h
  have htaken := hm.advances _ a c' (exec_read_ok.mp hfirst).1
  have hmore := (hk a).advances hb
  omega

/-- An action in the session comes first. -/
theorem lift_bind {m : InSession α} (hk : ∀ a, E.GoesOn j n (k a) (k' a)) :
    E.GoesOn j n ((liftM m : Statement α) >>= k) ((liftM m : Statement α) >>= k') := by
  refine ⟨(GoesAlong.lift m).bind fun a => (hk a).toGoesAlong, fun h => ?_⟩
  obtain ⟨a, c', s', hfirst, hb⟩ := exec_bind_ok h
  obtain ⟨-, rfl⟩ := exec_lift_ok.mp hfirst
  exact (hk a).advances hb

/-- Statements chosen by a condition. -/
theorem ite {p : Prop} [Decidable p] {l l' : Statement α} (hm : p → E.GoesOn j n m m')
    (hl : ¬ p → E.GoesOn j n l l') : E.GoesOn j n (if p then m else l) (if p then m' else l') := by
  by_cases hp : p
  · rw [if_pos hp, if_pos hp]
    exact hm hp
  · rw [if_neg hp, if_neg hp]
    exact hl hp

end GoesOn

/-- Two tokens that are looked at are taken by what follows. -/
theorem GoesAlong.peekTwo_bind {k k' : Token → Token → Statement β} (hk : ∀ t u, E.GoesOn 2 n (k t u) (k' t u)) :
    E.GoesAlong n (Grammar.read peek >>= fun t => Grammar.read peekSecond >>= k t)
      (Grammar.read peek >>= fun t => Grammar.read peekSecond >>= k' t) := by
  refine ⟨(IsForward.read .peek).bind fun t => (IsForward.read .peekSecond).bind fun u =>
    (hk t u).forward, ?_⟩
  intro front front' c d s b c' s' hlength hc hd h hend
  have hread : (k (c.settle .code).current (((c.settle .code).code[1]?).getD c.eof)).exec
      (c.settle .code) s = (.ok (b, c'), s') := h
  have htaken := (hk _ _).advances hread
  rw [c.code_settle] at htaken
  have htwo := length_code_front hc hend htaken
  rcases first_token hc hd with hsettled | ⟨t, more, ht, hcode, hc, hd⟩
  · have htaken := (hk _ _).advances hread
    have hnone : (c.settle .code).ahead = [] ++ E.old := hsettled
    exact absurd (length_code_front hnone hend htaken) (Nat.not_succ_le_zero _)
  · -- the second token is a common one too, because two are taken
    have hfront : ((t :: more).filter fun t => !t.isLineEnd).length < n := by
      rwa [List.filter_cons_of_pos (by rw [ht]; rfl), ← hcode]
    have hsecond (rest : List Token) :
        (((t :: (more ++ rest)).filter fun t => !t.isLineEnd)[1]?) =
          (more.filter fun t => !t.isLineEnd)[0]? := by
      rw [hcode, List.length_cons] at htwo
      rw [List.filter_cons_of_pos (by rw [ht]; rfl), List.filter_append, List.getElem?_cons_succ,
        List.getElem?_append_left (by omega)]
    have hsome : ∃ u, (more.filter fun t => !t.isLineEnd)[0]? = some u := by
      rw [hcode, List.length_cons] at htwo
      exact ⟨_, List.getElem?_eq_getElem (by omega)⟩
    obtain ⟨u, hu⟩ := hsome
    obtain ⟨d', hread', hend'⟩ := (hk _ _).same hfront hc hd hread hend
    refine ⟨d', ?_, hend'⟩
    show (k' (d.settle .code).current (((d.settle .code).code[1]?).getD d.eof)).exec
      (d.settle .code) s = _
    rw [← hread']
    simp only [Cursor.current, Cursor.code, hc, hd, hsecond, hu, Option.getD_some]

end

/-! ## Enumerations and structs -/

variable {E : Exchange} {n b b' : Nat} (draft : Draft)

/-- The constants of an enumeration. -/
theorem goesAlong_enumerators (enum : String) (hb : n ≤ b) (hb' : n ≤ b') (previous : Option Value) :
    E.GoesAlong n (enumerators enum b previous) (enumerators enum b' previous) := by
  induction n generalizing b b' previous with
  | zero => exact .zero (isForward_enumerators enum b previous)
  | succ n ih =>
    obtain ⟨b, rfl⟩ := Nat.exists_eq_add_of_lt hb
    obtain ⟨b', rfl⟩ := Nat.exists_eq_add_of_lt hb'
    rw [enumerators, enumerators]
    refine .taking_bind (takes_writtenEnumerator enum) fun written => ?_
    cases written with
    | none => exact .pure []
    | some written =>
      refine (GoesAlong.lift _).bind fun value => .ite (fun _ => .pure _) fun _ => ?_
      exact (ih (Nat.le_add_right n b) (Nat.le_add_right n b') _).bind fun _ => .pure _

/-- An enumeration behind its opening brace. -/
theorem goesAlong_enumeration (tag : String) :
    E.GoesAlong n (enumeration tag) (enumeration tag) := by
  refine .ahead_bind fun l _ b b' hb hb' => (goesAlong_enumerators tag hb hb' none).bind fun list => ?_
  refine (GoesAlong.read (.expectKind _ _)).bind fun name => ?_
  exact (GoesAlong.read (.expect _ _)).bind fun _ => .pure _

/-- A declaration of an enumeration behind its opening brace. -/
def enumBody (tag : Token) : Statement Draft := do
  let enum ← enumeration (if tag.text = "\x7b" then "" else tag.text)
  let header := draft.header
  pure { draft with header := { header with enums := header.enums ++ [enum] } }

/-- A declaration of a struct behind its opening brace. -/
def structBody (tag : Token) : Statement Draft := do
  let table ← symbols
  let members ← read (fields table .members)
  let name ← read (expectKind .ident "struct name")
  let ident := if tag.kind = .ident then tag.text else name.text
  let _ ← read (expect ";" ("end of struct " ++ ident))
  pure (draft.addStruct ident members)

theorem goesAlong_enumBody (tag : Token) :
    E.GoesAlong n (enumBody draft tag) (enumBody draft tag) :=
  (goesAlong_enumeration _).bind fun _ => .pure _

theorem goesAlong_structBody (tag : Token) :
    E.GoesAlong n (structBody draft tag) (structBody draft tag) := by
  refine (GoesAlong.lift _).bind fun table => ?_
  refine (GoesAlong.read (takes_fields table .members).toFollows).bind fun members => ?_
  refine (GoesAlong.read (.expectKind _ _)).bind fun name => ?_
  exact (GoesAlong.read (.expect _ _)).bind fun _ => .pure _

/-! ## Interfaces and functions -/

/-- Interface identifiers. -/
theorem goesAlong_interfaceGuid : E.GoesAlong n (interfaceGuid draft) (interfaceGuid draft) := by
  refine (GoesAlong.read (.expect _ _)).bind fun _ => (GoesAlong.read (.expectKind _ _)).bind fun _ => ?_
  exact (GoesAlong.read (.expect _ _)).bind fun _ =>
    (GoesAlong.read (.expectKind _ _)).bind fun _ => .pure _

/-- Interfaces. -/
theorem goesAlong_interface : E.GoesAlong n (interface draft) (interface draft) := by
  refine (GoesAlong.read (.expectKind _ _)).bind fun name => (GoesAlong.read .next).bind fun token => ?_
  refine .ite (fun _ => .pure _) fun _ => .ite (fun _ => .fail_bind) fun _ => ?_
  refine (GoesAlong.lift _).bind fun table => ?_
  exact (GoesAlong.read (takes_fields table .members).toFollows).bind fun members => .pure _

/-- Functions.  The two tokens that are looked at are taken, at the latest with the semicolon. -/
theorem goesAlong_function : E.GoesAlong n (function draft) (function draft) := by
  refine (GoesAlong.read .next).bind fun convention => .ite (fun _ => .pure _) fun _ => ?_
  refine (GoesAlong.read (.expectKind _ _)).bind fun name => (GoesAlong.read (.expect _ _)).bind fun _ => ?_
  refine .peekTwo_bind fun first second => .ite (fun _ => ?_) fun _ => ?_
  · refine .taking_bind .next fun _ => .taking_bind .next fun _ => .of_goesAlong ?_
    refine (GoesAlong.pure []).bind fun parameters => ?_
    exact (GoesAlong.read (.expect _ _)).bind fun _ => .pure _
  · refine .lift_bind fun table => .taking_bind (takes_fields table .parameters) fun parameters => ?_
    exact .taking_bind (.expect _ _) fun _ => .of_goesAlong (.pure _)

/-! ## Directives -/

/-- The next token of a line. -/
theorem follows_nextInLine : E.Follows n nextInLine nextInLine := by
  refine ⟨.nextInLine, ?_⟩
  rintro front front' c d _ _ - hc hd ⟨⟩ hend
  cases front with
  | nil =>
    refine absurd ?_ (more_ne (E := E) front')
    simpa [Cursor.settle, Cursor.advance, hc, old] using hend
  | cons t front =>
    have hfront : front = front' := by simpa [Cursor.settle, Cursor.advance, hc] using hend
    refine ⟨(d.next .line).2, ?_, ?_⟩
    · show Except.ok (d.next .line) = _
      simp [Cursor.next, Cursor.settle, Cursor.current, hc, hd]
    · simp [Cursor.next, Cursor.settle, Cursor.advance, hd, hfront]

/-- The rest of a line. -/
theorem follows_readLine : E.Follows n readLine readLine := by
  refine ⟨.readLine, ?_⟩
  rintro front front' c d _ _ - hc hd ⟨⟩ hend
  have hrest (c : Cursor) : (c.readLine).2.ahead = (c.ahead.dropWhile fun t => !t.isLineEnd).tail := by
    unfold Cursor.readLine Cursor.advance
    dsimp only
    rw [drop_length_takeWhile]
    generalize (c.ahead.dropWhile fun t => !t.isLineEnd) = left
    cases left <;> rfl
  have hend : c.readLine.2.ahead = front' ++ E.old := hend
  rcases takeWhile_front (fun t => !t.isLineEnd) front with hall | ⟨covered, t, left, -, hsame⟩
  · -- the line would go on into what is exchanged
    rw [hrest, hc, List.dropWhile_append_of_pos hall] at hend
    have hlength := congrArg List.length hend
    rw [old, List.dropWhile_cons_of_pos (by rw [E.isLineEnd_mark]; rfl), List.length_tail,
      List.length_append, List.length_cons] at hlength
    have hle := (List.dropWhile_sublist (l := E.more) fun t => !t.isLineEnd).length_le
    omega
  · rw [hrest, hc, (hsame E.old).2] at hend
    have hleft : left = front' := List.append_cancel_right hend
    refine ⟨d.readLine.2, ?_, ?_⟩
    · show Except.ok d.readLine = _
      refine congrArg Except.ok (Prod.ext ?_ rfl)
      show d.ahead.takeWhile _ = c.ahead.takeWhile _
      rw [hc, hd, (hsame E.old).1, (hsame E.new).1]
    · rw [hrest, hd, (hsame E.new).2, List.tail_cons, hleft]

/-- Directives. -/
theorem goesAlong_directive : E.GoesAlong n (directive draft) (directive draft) := by
  refine (GoesAlong.read follows_nextInLine).bind fun word => .ite (fun _ => .pure _) fun _ => ?_
  refine .ite (fun _ => (GoesAlong.read follows_readLine).bind fun _ => .pure _) fun _ => ?_
  refine (GoesAlong.read follows_nextInLine).bind fun name => .ite (fun _ => .fail_bind) fun _ => ?_
  refine (GoesAlong.read follows_readLine).bind fun body => .ite (fun _ => ?_) fun _ => ?_
  · exact (GoesAlong.lift _).bind fun _ => .pure _
  · refine (GoesAlong.lift _).bind fun table => (GoesAlong.lift _).bind fun value => ?_
    cases value with
    | none => exact .pure draft
    | some v => exact (GoesAlong.lift _).bind fun _ => .pure _

/-- Declarations of anything but types. -/
theorem goesAlong_declaration {t : Token} (ht : t.text ≠ "typedef") :
    E.GoesAlong n (declaration draft t) (declaration draft t) := by
  unfold declaration
  split
  · exact goesAlong_directive draft
  · exact goesAlong_interfaceGuid draft
  · contradiction
  · exact goesAlong_function draft
  · exact goesAlong_interface draft
  · exact .pure draft

end Exchange

/-! ## Complete items -/

namespace Grammar

variable {file : String} {draft draft' : Draft} {s s' : Session} {t : Token} {run : List Token}

/-- If behind its first tokens a declaration is a statement that goes along with itself, it is
complete. -/
theorem comesTo_of_goesAlong {m : Statement Draft} (lead : List Token) (ht : t.isCode = true)
    (hlead : ∀ passed rest eof, (declaration draft t).exec ⟨file, passed, lead ++ rest, eof⟩ s =
      m.exec ⟨file, lead.reverse ++ passed, rest, eof⟩ s)
    (hm : ∀ (E : Exchange) n, E.GoesAlong n m m) {c c' : Cursor} {mark : Token} {more : List Token}
    (hmark : mark.isLineEnd = false) (hahead : c.ahead = run ++ mark :: more)
    (hread : m.exec c s = (.ok (draft', c'), s')) (hend : c'.ahead = mark :: more) :
    ComesTo file draft s (t :: (lead ++ run)) (.ok draft') s' := by
  refine comesTo_outcome ht fun passed rest eof _ => ?_
  rw [List.append_assoc, hlead]
  have hgoes := hm ⟨mark, more, rest, hmark⟩ ((run.filter fun t => !t.isLineEnd).length + 1)
  have hnone : c'.ahead = [] ++ mark :: more := hend
  obtain ⟨d', hread', hend'⟩ := hgoes.same (Nat.lt_succ_self _) hahead
    (d := ⟨file, lead.reverse ++ t :: passed, run ++ rest, eof⟩) rfl hread hnone
  obtain ⟨hfile, heof, read, hpassed, htaken⟩ :=
    (hm ⟨mark, more, rest, hmark⟩ 0).forward _ _ _ _ _ hread'
  rw [hend'] at htaken
  obtain rfl : run = read := List.append_cancel_right htaken
  have hd' : d' = ⟨file, (lead ++ run).reverse ++ t :: passed, rest, eof⟩ := by
    rw [List.reverse_append, List.append_assoc, ← hpassed]
    exact Cursor.mk.injEq _ _ _ _ _ _ _ _ ▸ ⟨hfile, rfl, hend', heof⟩
  rw [hread', hd']
  rfl

/-- The declaration that starts with the token takes the run, in front of some token of code. -/
def IsReadTo (draft : Draft) (s : Session) (t : Token) (run : List Token) (draft' : Draft)
    (s' : Session) : Prop :=
  ∃ (c c' : Cursor) (mark : Token) (more : List Token), mark.isLineEnd = false ∧
    c.ahead = run ++ mark :: more ∧ (declaration draft t).exec c s = (.ok (draft', c'), s') ∧
    c'.ahead = mark :: more

/-- A declaration that is read up to its end in front of some token of code is complete, unless it is
that of a type. -/
theorem comesTo_of_isReadTo (ht : t.isCode = true) (htypedef : t.text ≠ "typedef")
    (h : IsReadTo draft s t run draft' s') : ComesTo file draft s (t :: run) (.ok draft') s' := by
  obtain ⟨c, c', mark, more, hmark, hahead, hread, hend⟩ := h
  exact comesTo_of_goesAlong [] ht (fun _ _ _ => rfl)
    (fun _ _ => Exchange.goesAlong_declaration draft htypedef) hmark hahead hread hend

/-! ## Declarations of types -/

/-- What opens a body: a brace, with a tag in front of it or in its place. -/
inductive OpensBody : Token → List Token → Prop
  /-- A tag and a brace. -/
  | tagged {ends ends' : List Token} {tag brace : Token} (hends : ∀ e ∈ ends, e.isLineEnd = true)
      (hends' : ∀ e ∈ ends', e.isLineEnd = true) (htag : tag.isCode = true) (hne : tag.text ≠ "\x7b")
      (hbrace : brace.isCode = true) (hopen : brace.text = "\x7b") :
      OpensBody tag (ends ++ tag :: (ends' ++ [brace]))
  /-- A brace alone. -/
  | anonymous {ends : List Token} {brace : Token} (hends : ∀ e ∈ ends, e.isLineEnd = true)
      (hbrace : brace.isCode = true) (hopen : brace.text = "\x7b") : OpensBody brace (ends ++ [brace])

/-- What opens a body is passed, whatever follows it. -/
theorem openBody_some {tag : Token} {opening : List Token} (h : OpensBody tag opening) (file : String)
    (passed rest : List Token) (eof : Token) :
    openBody ⟨file, passed, opening ++ rest, eof⟩ =
      .ok (some tag, ⟨file, opening.reverse ++ passed, rest, eof⟩) := by
  cases h with
  | @tagged ends ends' tag brace hends hends' htag hne hbrace hopen =>
    have hsplit : ends ++ tag :: (ends' ++ [brace]) ++ rest =
        ends ++ tag :: (ends' ++ brace :: rest) := by simp
    have hpassed : (ends ++ tag :: (ends' ++ [brace])).reverse ++ passed =
        brace :: (ends'.reverse ++ tag :: (ends.reverse ++ passed)) := by simp
    have hnone : ∀ e ∈ ([] : List Token), e.isLineEnd = true := fun e he => nomatch he
    rw [hsplit, hpassed, openBody, reader_bind (next_breaks file passed _ eof hends htag), if_neg hne,
      reader_bind (peek_breaks file _ rest eof hends' hbrace), if_pos hopen]
    exact reader_bind (next_breaks file _ rest eof hnone hbrace)
  | anonymous hends hbrace hopen =>
    rw [List.append_assoc, List.singleton_append, List.reverse_append, openBody,
      reader_bind (next_breaks file passed rest eof hends hbrace), if_pos hopen]
    rfl

/-- The declaration of a type with a body is complete, if it is read up to its end in front of some
token of code. -/
theorem comesTo_body {kind tag : Token} {ends opening : List Token} (ht : t.isCode = true)
    (hkeyword : t.text = "typedef") (hends : ∀ e ∈ ends, e.isLineEnd = true)
    (hcode : kind.isCode = true) (hkind : kind.text = "struct" ∨ kind.text = "enum")
    (hopening : OpensBody tag opening)
    (h : IsReadTo draft s t (ends ++ kind :: opening ++ run) draft' s') :
    ComesTo file draft s (t :: (ends ++ kind :: opening ++ run)) (.ok draft') s' := by
  obtain ⟨⟨file', passed', ahead', eof'⟩, c', mark, more, hmark, hahead, hread, hend⟩ := h
  have hdeclaration : declaration draft t = typedef draft := by
    simp only [declaration, hkeyword]
  let body := if kind.text = "enum" then Exchange.enumBody draft tag else Exchange.structBody draft tag
  have hlead (file : String) (passed rest : List Token) (eof : Token) :
      (declaration draft t).exec ⟨file, passed, ends ++ kind :: opening ++ rest, eof⟩ s =
        body.exec ⟨file, (ends ++ kind :: opening).reverse ++ passed, rest, eof⟩ s := by
    have hsplit : ends ++ kind :: opening ++ rest = ends ++ kind :: (opening ++ rest) := by simp
    have hpassed : (ends ++ kind :: opening).reverse ++ passed =
        opening.reverse ++ kind :: (ends.reverse ++ passed) := by simp
    have hopened := openBody_some hopening file (kind :: (ends.reverse ++ passed)) rest eof
    rw [hdeclaration, hsplit, hpassed, typedef, exec_next_bind _ _ _ hends hcode]
    by_cases henum : kind.text = "enum"
    · simp only [body, if_pos henum]
      rw [typedefEnum, exec_bind (exec_read_ok.mpr ⟨hopened, rfl⟩)]
      rfl
    · simp only [body, if_neg henum]
      rw [if_pos (hkind.resolve_right henum), typedefStruct, exec_bind (exec_read_ok.mpr ⟨hopened, rfl⟩)]
      rfl
  obtain rfl : ahead' = ends ++ kind :: opening ++ (run ++ mark :: more) :=
    hahead.trans (List.append_assoc _ _ _)
  rw [hlead] at hread
  refine comesTo_of_goesAlong _ ht (hlead file) (fun E n => ?_) hmark rfl hread hend
  exact .ite (fun _ => Exchange.goesAlong_enumBody draft tag) fun _ =>
    Exchange.goesAlong_structBody draft tag

/-- What a type declaration adds that is not that of an enumeration, a struct or an interface: an
alias, or nothing. -/
def Draft.addTypedef (draft : Draft) (kind name last : Token) : Draft :=
  if kind.text = "UINT" then draft.addAlias name.text uint32Expr
  else if (kind.kind = .ident ∧ name.kind = .ident) ∧ last.text = ";" then
    draft.addAlias name.text kind.text
  else draft

/-- Such a declaration is complete together with the token behind the name, which may have been looked
at, and whatever is left of it. -/
theorem comesTo_typedef {kind name last : Token} {ts : List Token} (hkeyword : t.text = "typedef")
    (htype : kind.text ∉ ["enum", "struct", "interface"])
    (hleft : ∀ t ∈ last :: ts, StartsNothing t)
    (hwritten : ∀ t ∈ run, t.isCode = true ∨ t.IsBreak)
    (hrun : run.filter (fun t => !t.isLineEnd) = t :: kind :: name :: last :: ts) :
    ComesTo file draft s run (.ok (draft.addTypedef kind name last)) s := by
  obtain ⟨ends, run, rfl, hends, hcode, hwritten₁, hrun⟩ := exists_first hwritten hrun
  obtain ⟨ends₁, run, rfl, hends₁, hcode₁, hwritten₂, hrun⟩ := exists_first hwritten₁ hrun
  obtain ⟨ends₂, run, rfl, hends₂, hcode₂, hwritten₃, hrun⟩ := exists_first hwritten₂ hrun
  obtain ⟨ends₃, more, rfl, hends₃, hcode₃, -, hmore⟩ := exists_first hwritten₃ hrun
  have hdeclaration : declaration draft t = typedef draft := by
    simp only [declaration, hkeyword]
  obtain ⟨henum, hstruct, hinterface⟩ : kind.text ≠ "enum" ∧ kind.text ≠ "struct" ∧
      kind.text ≠ "interface" := by
    simpa using htype
  -- where the last token is looked at, the line ends in front of it are passed
  by_cases hlooked : kind.text ≠ "UINT" ∧ kind.kind = .ident ∧ name.kind = .ident
  · obtain ⟨huint, hidents⟩ := hlooked
    have hsplit : ends ++ t :: (ends₁ ++ kind :: (ends₂ ++ name :: (ends₃ ++ last :: more))) =
        ends ++ t :: (ends₁ ++ kind :: (ends₂ ++ name :: ends₃) ++ last :: more) := by simp
    rw [hsplit] at hwritten ⊢
    refine comesTo_part hwritten hends hcode (fun passed rest eof => ?_) ?_
    · have hahead : ends₁ ++ kind :: (ends₂ ++ name :: ends₃) ++ (last :: more ++ rest) =
          ends₁ ++ kind :: (ends₂ ++ name :: (ends₃ ++ last :: (more ++ rest))) := by simp
      have hpassed : (ends₁ ++ kind :: (ends₂ ++ name :: ends₃)).reverse ++ t :: passed =
          ends₃.reverse ++ name :: (ends₂.reverse ++ kind :: (ends₁.reverse ++ t :: passed)) := by
        simp
      rw [hdeclaration, hahead, hpassed, typedef, exec_next_bind _ _ _ hends₁ hcode₁, if_neg henum,
        if_neg hstruct, if_neg hinterface, exec_next_bind _ _ _ hends₂ hcode₂, if_neg huint,
        if_pos hidents, exec_bind (exec_read_ok.mpr ⟨peek_breaks file _ _ eof hends₃ hcode₃, rfl⟩),
        Draft.addTypedef, if_neg huint]
      by_cases hlast : last.text = ";"
      · rw [if_pos hlast, if_pos ⟨hidents, hlast⟩]
        rfl
      · rw [if_neg hlast, if_neg fun h => hlast h.2]
        rfl
    · rwa [List.filter_cons_of_pos (by rw [Token.isLineEnd_of_isCode hcode₃]; rfl), hmore]
  · have hsplit : ends ++ t :: (ends₁ ++ kind :: (ends₂ ++ name :: (ends₃ ++ last :: more))) =
        ends ++ t :: (ends₁ ++ kind :: (ends₂ ++ [name]) ++ (ends₃ ++ last :: more)) := by simp
    rw [hsplit] at hwritten ⊢
    refine comesTo_part hwritten hends hcode (fun passed rest eof => ?_) (hrun ▸ hleft)
    have hahead : ends₁ ++ kind :: (ends₂ ++ [name]) ++ (ends₃ ++ last :: more ++ rest) =
        ends₁ ++ kind :: (ends₂ ++ name :: (ends₃ ++ last :: (more ++ rest))) := by simp
    have hpassed : (ends₁ ++ kind :: (ends₂ ++ [name])).reverse ++ t :: passed =
        name :: (ends₂.reverse ++ kind :: (ends₁.reverse ++ t :: passed)) := by simp
    rw [hdeclaration, hahead, hpassed, typedef, exec_next_bind _ _ _ hends₁ hcode₁, if_neg henum,
      if_neg hstruct, if_neg hinterface, exec_next_bind _ _ _ hends₂ hcode₂, Draft.addTypedef,
      List.append_assoc]
    by_cases huint : kind.text = "UINT"
    · rw [if_pos huint, if_pos huint]
      rfl
    · have hidents : ¬ (kind.kind = .ident ∧ name.kind = .ident) := fun h => hlooked ⟨huint, h⟩
      rw [if_neg huint, if_neg huint, if_neg hidents, if_neg fun h => hidents h.1]
      rfl

/-! ## Items in a row -/

/-- An item that is read up to its end, from a header that has been read so far and a session on. -/
inductive IsCompleteItem (draft : Draft) (s : Session) : List Token → Draft → Session → Prop
  /-- Code that is skipped. -/
  | skipped {run : List Token} (h : IsSkippedCode (run.filter fun t => !t.isLineEnd)) :
      IsCompleteItem draft s run draft s
  /-- A directive, or the declaration of anything but a type. -/
  | declared {t : Token} {run : List Token} {draft' : Draft} {s' : Session}
      (ht : t.isCode = true) (htypedef : t.text ≠ "typedef") (h : IsReadTo draft s t run draft' s') :
      IsCompleteItem draft s (t :: run) draft' s'
  /-- The declaration of a type with a body. -/
  | body {t kind tag : Token} {ends opening run : List Token} {draft' : Draft} {s' : Session}
      (ht : t.isCode = true) (hkeyword : t.text = "typedef") (hends : ∀ e ∈ ends, e.isLineEnd = true)
      (hcode : kind.isCode = true) (hkind : kind.text = "struct" ∨ kind.text = "enum")
      (hopening : OpensBody tag opening)
      (h : IsReadTo draft s t (ends ++ kind :: opening ++ run) draft' s') :
      IsCompleteItem draft s (t :: (ends ++ kind :: opening ++ run)) draft' s'
  /-- The declaration of another type, which may be an alias. -/
  | other {t kind name last : Token} {ts run : List Token} (hkeyword : t.text = "typedef")
      (htype : kind.text ∉ ["enum", "struct", "interface"])
      (hleft : ∀ t ∈ last :: ts, StartsNothing t)
      (hrun : run.filter (fun t => !t.isLineEnd) = t :: kind :: name :: last :: ts) :
      IsCompleteItem draft s run (draft.addTypedef kind name last) s

/-- Complete items in a row, from a header that has been read so far and a session on.  The last one
of them may fail, whatever follows it. -/
inductive AreCompleteItems (file : String) :
    Draft → Session → List Token → Except Failure Draft → Session → Prop
  /-- No items. -/
  | nil {draft : Draft} {s : Session} : AreCompleteItems file draft s [] (.ok draft) s
  /-- An item and more of them. -/
  | cons {draft draft' : Draft} {s s' s'' : Session} {run more : List Token}
      {result : Except Failure Draft} (h : IsCompleteItem draft s run draft' s')
      (hmore : AreCompleteItems file draft' s' more result s'') :
      AreCompleteItems file draft s (run ++ more) result s''
  /-- An item that fails, and anything behind it. -/
  | fails {draft : Draft} {s s' : Session} {run more : List Token} {f : Failure}
      (h : ComesTo file draft s run (.error f) s') :
      AreCompleteItems file draft s (run ++ more) (.error f) s'

/-- An item is complete. -/
theorem comesTo_of_isCompleteItem (hwritten : ∀ t ∈ run, t.isCode = true ∨ t.IsBreak)
    (h : IsCompleteItem draft s run draft' s') : ComesTo file draft s run (.ok draft') s' := by
  cases h with
  | skipped h => exact comesTo_of_isSkippedCode hwritten h
  | declared ht htypedef h => exact comesTo_of_isReadTo ht htypedef h
  | body ht hkeyword hends hcode hkind hopening h =>
    exact comesTo_body ht hkeyword hends hcode hkind hopening h
  | other hkeyword htype hleft hrun => exact comesTo_typedef hkeyword htype hleft hwritten hrun

/-- Items in a row are complete. -/
theorem comesTo_of_areCompleteItems {result : Except Failure Draft}
    (hwritten : ∀ t ∈ run, t.isCode = true ∨ t.IsBreak) (h : AreCompleteItems file draft s run result s') :
    ComesTo file draft s run result s' := by
  induction h with
  | nil => exact .nil
  | cons h _ ih =>
    have hmore := fun t ht => hwritten t (List.mem_append_right _ ht)
    exact (comesTo_of_isCompleteItem (fun t ht => hwritten t (List.mem_append_left _ ht)) h).append
      (ih hmore) hmore
  | fails h => exact h.append_error fun t ht => hwritten t (List.mem_append_right _ ht)

end Grammar

end SdkBindings
