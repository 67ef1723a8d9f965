import SdkBindings.Proofs.Comparison.Statements

/-!
# Comparing two readings: whole headers

Reading a header has the same outcome on alike cursors in sessions with related constants
(`headerOfCursor_alike`): the same header, or failures that differ in their places only, and related
constants afterwards.

Line ends are seen by directives alone, and a directive starts with a `#`, behind which the tokens of
both sides agree up to the end of the line.
-/

namespace SdkBindings.Comparison

open Grammar Grammar.Reader

variable {K : Comparison} {n : Nat} {draft : Draft} {c d : Cursor}

/-! ## Declarations without values -/

/-- Bodies are opened alike. -/
theorem openBody_alike :
    K.ReadsAlike n (fun _ => Option.Rel K.Matches) openBody openBody := by
  refine ReadsAlike.next.read_bind fun l tag p htag => ?_
  refine .ite Iff.rfl (fun _ => .pure (.some htag.matched)) fun _ => ?_
  refine ReadsAlike.peek.matched_bind fun _ token q _ _ => .ite Iff.rfl (fun _ => ?_) fun _ => .pure .none
  exact ReadsAlike.next.bind fun _ _ _ _ _ => .pure (.some htag.matched)

/-- Interface identifiers are read alike. -/
theorem interfaceGuid_alike : K.StatesAlike n Same (interfaceGuid draft) (interfaceGuid draft) := by
  refine (StatesAlike.read .expect).bind fun _ _ _ _ _ => ?_
  refine (StatesAlike.read .expectKind).bind ?_
  rintro _ guid guid' - ⟨hguid, -⟩
  refine (StatesAlike.read .expect).bind fun _ _ _ _ _ => ?_
  refine (StatesAlike.read .expectKind).bind ?_
  rintro _ name name' - ⟨hname, -⟩
  rw [hguid.matched.text, hname.matched.text]
  exact .pure rfl

/-- Enumerations are read alike. -/
theorem typedefEnum_alike : K.StatesAlike n Same (typedefEnum draft) (typedefEnum draft) := by
  refine (StatesAlike.read openBody_alike).bind fun _ _ _ _ htag => ?_
  cases htag with
  | none => exact .pure rfl
  | some htag =>
    dsimp only
    rw [htag.text]
    exact (enumeration_alike _).same_bind fun _ enum _ => .pure rfl

/-- Structs are read alike. -/
theorem typedefStruct_alike : K.StatesAlike n Same (typedefStruct draft) (typedefStruct draft) := by
  refine (StatesAlike.read openBody_alike).bind fun _ _ _ _ htag => ?_
  cases htag with
  | none => exact .pure rfl
  | some htag =>
    refine StatesAlike.symbols_bind fun table table' htable => ?_
    refine (StatesAlike.read (fields_alike htable .members)).same_bind fun _ members _ => ?_
    refine (StatesAlike.read .expectKind).bind ?_
    rintro _ name name' - ⟨hname, -⟩
    dsimp only
    rw [htag.text, htag.kind, hname.matched.text]
    exact (StatesAlike.read .expect).bind fun _ _ _ _ _ => .pure rfl

/-- Type declarations are read alike. -/
theorem typedef_alike : K.StatesAlike n Same (typedef draft) (typedef draft) := by
  refine StatesAlike.read_bind .next fun _ kind p _ => ?_
  refine .ite Iff.rfl (fun _ => typedefEnum_alike) fun _ => ?_
  refine .ite Iff.rfl (fun _ => typedefStruct_alike) fun _ => ?_
  refine .ite Iff.rfl (fun _ => .pure rfl) fun _ => ?_
  refine StatesAlike.read_bind .next fun _ name q _ => ?_
  refine .ite Iff.rfl (fun _ => .pure rfl) fun _ => .ite Iff.rfl (fun _ => ?_) fun _ => .pure rfl
  refine StatesAlike.matched_bind .peek fun _ token r _ _ => ?_
  exact .ite Iff.rfl (fun _ => .pure rfl) fun _ => .pure rfl

/-- Exported functions are read alike. -/
theorem function_alike : K.StatesAlike n Same (function draft) (function draft) := by
  refine StatesAlike.read_bind .next fun _ convention p _ => ?_
  refine .ite Iff.rfl (fun _ => .pure rfl) fun _ => ?_
  refine (StatesAlike.read .expectKind).bind ?_
  rintro _ name name' - ⟨hname, -⟩
  rw [hname.matched.text]
  refine (StatesAlike.read .expect).bind fun _ _ _ _ _ => ?_
  refine StatesAlike.matched_bind .peek fun _ first q _ _ => ?_
  refine StatesAlike.matched_bind .peekSecond fun _ second r _ _ => ?_
  dsimp only
  refine .ite Iff.rfl (fun _ => ?_) fun _ => ?_
  · refine (StatesAlike.read .next).bind fun _ _ _ _ _ => ?_
    refine (StatesAlike.read .next).bind fun _ _ _ _ _ => ?_
    refine (StatesAlike.pure (R := Same) rfl).same_bind fun _ parameters _ => ?_
    exact (StatesAlike.read .expect).bind fun _ _ _ _ _ => .pure rfl
  · refine StatesAlike.symbols_bind fun table table' htable => ?_
    refine (StatesAlike.read (fields_alike htable .parameters)).same_bind fun _ parameters _ => ?_
    exact (StatesAlike.read .expect).bind fun _ _ _ _ _ => .pure rfl

/-- Interfaces are read alike. -/
theorem interface_alike : K.StatesAlike n Same (interface draft) (interface draft) := by
  refine (StatesAlike.read .expectKind).bind ?_
  rintro _ name name' - ⟨hname, -⟩
  rw [hname.matched.text]
  refine StatesAlike.read_bind .next fun _ token p htoken => ?_
  refine .ite Iff.rfl (fun _ => .pure rfl) fun _ => ?_
  refine .ite Iff.rfl (fun _ => .fail_bind htoken.matched) fun _ => ?_
  refine StatesAlike.symbols_bind fun table table' htable => ?_
  refine (StatesAlike.read (fields_alike htable .members)).same_bind fun _ members _ => ?_
  exact .pure rfl

/-! ## Directives -/

/-- What a definition comes to, given the name and the body of its macro. -/
def defineMacro (draft : Draft) (name : Token) (body : List Token) : Statement Draft := do
  if Rules.isSkippedMacro name.text (body.map Token.text) then do
    report [debug ("Skipping macro " ++ name.text ++ ": listed skip rule")]
    pure draft
  else do
    let table ← symbols
    let value ← evaluated (Constant.macroNotes table name body)
      (Constant.evaluateMacro table name body) fun e => debug ("Skipping macro " ++ e.message)
    match value with
    | none => pure draft
    | some v => do
      define name.text v
      let header := draft.header
      pure { draft with header := { header with macros := header.macros ++ [⟨name.text, v⟩] } }

/-- Macros with corresponding bodies come to the same. -/
theorem defineMacro_alike {name name' : Token} {body body' : List Token}
    (hname : K.Matches name name') (hkind : name.kind = .ident)
    (hbody : K.Corresponds (some (name, name')) body body') :
    K.StatesAlike n Same (defineMacro draft name body) (defineMacro draft name' body') := by
  unfold defineMacro
  rw [hname.text, hbody.map_text]
  refine .ite Iff.rfl (fun _ => ?_) fun _ => ?_
  · exact (StatesAlike.lift (.report _ _)).same_bind fun _ _ _ => .pure rfl
  · refine StatesAlike.symbols_bind fun table table' htable => ?_
    rw [evaluateMacro_eq htable hname hbody]
    refine (StatesAlike.lift (.evaluated _ _ _ _ _)).same_bind fun _ value _ => ?_
    cases value with
    | none => exact .pure rfl
    | some v => exact (StatesAlike.lift (.define (hname.isName hkind) v)).same_bind fun _ _ _ => .pure rfl

/-- A choice at a cursor. -/
theorem ActsAlike.ite_at {p p' : Prop} [Decidable p] [Decidable p'] {m k m' k' : Statement Draft}
    (h : p' ↔ p) (hm : p → K.ActsAlike (K.After n Same) (m c) (m' d))
    (hk : ¬ p → K.ActsAlike (K.After n Same) (k c) (k' d)) :
    K.ActsAlike (K.After n Same) ((if p then m else k) c) ((if p' then m' else k') d) := by
  by_cases hp : p
  · rw [if_pos hp, if_pos (h.mpr hp)]
    exact hm hp
  · rw [if_neg hp, if_neg fun hp' => hp (h.mp hp')]
    exact hk hp

/-- Directives are read alike. -/
theorem directive_alike {previous : Option (Token × Token)} (h : K.AlikeAt true previous n c d) :
    K.ActsAlike (K.After n Same) (directive draft c) (directive draft d) := by
  -- a read in line mode goes on with what it returns at the cursor behind it
  have hnext {k k' : Token → Statement Draft} {c d : Cursor}
      (hk : K.ActsAlike (K.After n Same) (k (c.next .line).1 (c.next .line).2)
        (k' (d.next .line).1 (d.next .line).2)) :
      K.ActsAlike (K.After n Same) ((Grammar.read nextInLine >>= k) c)
        ((Grammar.read nextInLine >>= k') d) := hk
  have hline {k k' : List Token → Statement Draft} {c d : Cursor}
      (hk : K.ActsAlike (K.After n Same) (k c.readLine.1 c.readLine.2)
        (k' d.readLine.1 d.readLine.2)) :
      K.ActsAlike (K.After n Same) ((Grammar.read readLine >>= k) c)
        ((Grammar.read readLine >>= k') d) := hk
  obtain ⟨hword, hrest⟩ := h.nextInLine
  have hhere : K.Alike n (c.next .line).2 (d.next .line).2 :=
    hrest.elim And.right fun halike => ⟨_, _, halike⟩
  refine hnext (.ite_at (by rw [hword.kind]) (fun _ => .pure ⟨n, Nat.le_refl n, rfl, hhere⟩) ?_)
  intro hkind
  have hrest := hrest.resolve_left fun hleft => hkind hleft.1
  refine .ite_at (by rw [hword.text]) (fun _ => hline ?_) fun _ => hnext ?_
  · exact .pure ⟨n, Nat.le_refl n, rfl, hrest.readLine.2⟩
  · obtain ⟨hname, hbehind⟩ := hrest.nextInLine
    dsimp only
    refine .ite_at (by rw [hname.kind]) (fun hkind => ?_) fun hkind => hline ?_
    · have hhere : K.Alike n _ _ := hbehind.elim And.right fun halike => ⟨_, _, halike⟩
      exact StatesAlike.fail_bind hname _ _ hhere
    · have hkind := Classical.not_not.mp hkind
      have hbehind := hbehind.resolve_left fun hleft => by
        cases hkind.symm.trans hleft.1
      obtain ⟨hbody, halike⟩ := hbehind.readLine
      exact defineMacro_alike hname hkind hbody _ _ halike

/-! ## Declarations -/

/-- The declarations that corresponding words start are read alike. -/
theorem declaration_alike {inLine : Bool} {t u : Token} (ht : K.Matches t u)
    (h : K.AlikeAt (inLine || t.text = "#") (some (t, u)) n c d) :
    K.ActsAlike (K.After n Same) (declaration draft t c) (declaration draft u d) := by
  have hsame : declaration draft u = declaration draft t := by
    unfold declaration
    rw [ht.text]
  rw [hsame]
  by_cases hhash : t.text = "#"
  · have hdirective : declaration draft t = directive draft := by
      simp only [declaration, hhash]
    rw [hhash, decide_eq_true rfl, Bool.or_true] at h
    rw [hdirective]
    exact directive_alike h
  · have hdeclaration : K.StatesAlike n Same (declaration draft t) (declaration draft t) := by
      unfold declaration
      split
      · contradiction
      · exact interfaceGuid_alike
      · exact typedef_alike
      · exact function_alike
      · exact interface_alike
      · exact .pure rfl
    exact hdeclaration c d ⟨_, _, h⟩

/-- Declarations are read alike. -/
theorem declarations_alike {b b' : Nat} (hb : n < b) (hb' : n < b') :
    K.StatesAlike n Same (declarations b draft) (declarations b' draft) := by
  induction b generalizing n b' draft with
  | zero => exact absurd hb (Nat.not_lt_zero n)
  | succ b ih =>
    cases b' with
    | zero => exact absurd hb' (Nat.not_lt_zero n)
    | succ b' =>
      rintro c d ⟨inLine, previous, h⟩
      have hnext {k k' : Token → Statement Draft} {c d : Cursor}
          (hk : K.ActsAlike (K.After n Same) (k (c.next .code).1 (c.next .code).2)
            (k' (d.next .code).1 (d.next .code).2)) :
          K.ActsAlike (K.After n Same) ((Grammar.read next >>= k) (c.settle .code))
            ((Grammar.read next >>= k') (d.settle .code)) := by
        rw [← c.next_settle, ← d.next_settle] at hk
        exact hk
      have hpeek {k k' : Token → Statement Draft}
          (hk : K.ActsAlike (K.After n Same) (k (c.next .code).1 (c.settle .code))
            (k' (d.next .code).1 (d.settle .code))) :
          K.ActsAlike (K.After n Same) ((Grammar.read peek >>= k) c)
            ((Grammar.read peek >>= k') d) := hk
      rw [declarations, declarations]
      refine hpeek ?_
      rcases h.next with ⟨hc, hd, -⟩ | ⟨t, u, m, inLine', hc, hd, hcode, hmatch, hm, halike⟩
      · rw [hc, hd, if_pos h.eof_kind, if_pos (h.eof.kind.trans h.eof_kind)]
        exact .pure ⟨n, Nat.le_refl n, rfl, h.settle⟩
      · have hkind : t.kind ≠ .eof := by
          intro hkind
          simp [Token.isCode, hkind] at hcode
        rw [hc, hd, if_neg hkind, if_neg (hmatch.kind ▸ hkind)]
        apply hnext
        rw [hc, hd]
        show K.ActsAlike _ (declaration draft t _ >>= fun p => declarations b p.1 p.2)
          (declaration draft u _ >>= fun p => declarations b' p.1 p.2)
        refine (declaration_alike hmatch halike).bind ?_
        rintro ⟨draft', c'⟩ ⟨draft'', d'⟩ ⟨l, hl, hdraft, hafter⟩
        obtain rfl : draft'' = draft' := hdraft
        have hlt := Nat.lt_of_le_of_lt hl hm
        refine (ih (Nat.lt_of_lt_of_le hlt (Nat.le_of_lt_succ hb))
          (Nat.lt_of_lt_of_le hlt (Nat.le_of_lt_succ hb')) c' d' hafter).imp ?_
        rintro _ _ ⟨r, hr, hresult, hend⟩
        exact ⟨r, Nat.le_trans hr (Nat.le_of_lt hlt), hresult, hend⟩

/-! ## Headers -/

/-- Identifiers that belong to nothing are dealt with alike. -/
theorem checkGuids_alike (strict : Bool) :
    K.ActsAlike Eq (checkGuids strict draft) (checkGuids strict draft) := by
  unfold checkGuids
  split
  · exact .pure rfl
  · exact .ite Iff.rfl (fun _ => .throw (.unresolvedGuid _ _)) fun _ => .report _ _

/-- Headers are read alike. -/
theorem headerOfCursor_alike (strict : Bool) (h : K.Alike n c d) :
    K.ActsAlike Eq (headerOfCursor strict c) (headerOfCursor strict d) := by
  obtain ⟨l, -, halike, hc, hd⟩ := h.tight
  have hdeclarations : K.StatesAlike l Same
      (declarations (c.ahead.length + 1) ⟨.empty c.file, [], []⟩)
      (declarations (d.ahead.length + 1) ⟨.empty c.file, [], []⟩) :=
    declarations_alike (Nat.lt_succ_of_le hc) (Nat.lt_succ_of_le hd)
  unfold headerOfCursor
  rw [h.file]
  refine (hdeclarations c d halike).bind ?_
  rintro ⟨draft, c'⟩ ⟨draft', d'⟩ ⟨_, _, hdraft, -⟩
  obtain rfl : draft' = draft := hdraft
  refine (checkGuids_alike strict).bind fun _ _ _ => ?_
  exact (ActsAlike.report _ _).bind fun _ _ _ => .pure rfl

end SdkBindings.Comparison
