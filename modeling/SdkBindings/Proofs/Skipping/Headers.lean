import SdkBindings.Proofs.Skipping.Items

/-!
# Skipped material is inert

Between the complete items of a header, and in front of the first and behind the last one, anything that
is skipped may be inserted: the header that is read, the constants that are known behind it and the
failure, but for its place, stay the same (`readTokens_skipped`).

The items in front of the place lead to the same header and session on both sides because they are
complete, what is inserted leads on to that header and those constants (`readTokens_inserted`), and behind
it the same is written at other places.
-/

namespace SdkBindings.Grammar

open Comparison

/-! ## Going on from a header -/

/-- Reads what is ahead from a header that has been read so far. -/
def headerFrom (strict : Bool) (draft : Draft) (c : Cursor) : InSession Header := do
  let (draft, _) ← declarationsAhead draft c
  checkGuids strict draft
  let header := draft.finish
  report [summary header]
  pure header

/-- The tokens of a header are read from an empty one. -/
theorem readTokens_concat (strict : Bool) (file : String) (body : List Token) {eof : Token}
    (heof : eof.kind = .eof) (s : Session) :
    readTokens strict file (body ++ [eof]) s =
      (headerFrom strict ⟨.empty file, [], []⟩ ⟨file, [], body, eof⟩).run s := by
  rw [readTokens, Cursor.ofTokens?_concat file _ heof]
  rfl

section

variable {file : String} {draft : Draft} {s s' : Session} {run rest : List Token} {eof : Token}
  {result : Except Failure Draft}

/-- In front of a complete run a header is what it is behind the run. -/
theorem ComesTo.run_headerFrom (h : ComesTo file draft s run result s') (strict : Bool)
    (passed : List Token) (hrest : IsTokenized (rest ++ [eof])) :
    (headerFrom strict draft ⟨file, passed, run ++ rest, eof⟩).run s =
      match result with
      | .ok draft' => (headerFrom strict draft' ⟨file, run.reverse ++ passed, rest, eof⟩).run s'
      | .error f => (.error f, s') := by
  have hread := h passed rest eof hrest
  unfold headerFrom
  rw [run_bind]
  cases result with
  | ok draft' =>
    have hread : (declarationsAhead draft ⟨file, passed, run ++ rest, eof⟩).run s =
        (declarationsAhead draft' ⟨file, run.reverse ++ passed, rest, eof⟩).run s' := hread
    rw [hread]
    exact (run_bind _ _ s').symm
  | error f =>
    have hread : (declarationsAhead draft ⟨file, passed, run ++ rest, eof⟩).run s = (.error f, s') :=
      hread
    rw [hread]

/-- From one header, alike cursors go on alike. -/
theorem headerFrom_alike {K : Comparison} {n : Nat} {c d : Cursor} (strict : Bool) (draft : Draft)
    (h : K.Alike n c d) : K.ActsAlike Eq (headerFrom strict draft c) (headerFrom strict draft d) := by
  obtain ⟨l, -, halike, hc, hd⟩ := h.tight
  have hdeclarations : K.StatesAlike l Same (declarations (c.ahead.length + 1) draft)
      (declarations (d.ahead.length + 1) draft) :=
    declarations_alike (Nat.lt_succ_of_le hc) (Nat.lt_succ_of_le hd)
  refine (hdeclarations c d halike).bind ?_
  rintro ⟨draft, c'⟩ ⟨draft', d'⟩ ⟨_, _, hdraft, -⟩
  obtain rfl : draft' = draft := hdraft
  refine (checkGuids_alike strict).bind fun _ _ _ => ?_
  exact (ActsAlike.report _ _).bind fun _ _ _ => .pure rfl

end

/-- Where the same is written ahead and touches alike, cursors are alike. -/
theorem alike_of_essence (file : String) {body body' : List Token} {eof eof' : Token}
    (h : IsTokenized (body ++ [eof])) (h' : IsTokenized (body' ++ [eof']))
    (hessence : essence false body' = essence false body)
    (hspaced : adjacencies (body'.filter Token.isCode) = adjacencies (body.filter Token.isCode))
    (passed passed' : List Token) :
    layouts.Alike (body.filter fun t => !t.isLineEnd).length ⟨file, passed, body, eof⟩
      ⟨file, passed', body', eof'⟩ := by
  obtain ⟨hkind, htext, hbody⟩ := isTokenized_concat.mp h
  obtain ⟨hkind', htext', hbody'⟩ := isTokenized_concat.mp h'
  have haligned : layouts.Aligned false none body body' :=
    aligned_of_essence hbody hbody' hessence hspaced
  have heof : layouts.Matches eof eof' :=
    layouts_matches (hkind'.trans hkind.symm) (htext'.trans htext.symm)
  exact ⟨false, none, rfl, heof, hkind, htext, haligned, Nat.le_refl _⟩

/-! ## Inserting -/

/-- Behind a complete run anything may be inserted that is skipped there. -/
theorem readTokens_inserted (strict : Bool) (file : String) {front inserted back back' : List Token}
    {eof eof' : Token} {s s₁ : Session} {result : Except Failure Draft}
    (hts : IsTokenized (front ++ back ++ [eof]))
    (hus : IsTokenized (front ++ inserted ++ back' ++ [eof']))
    (hfront : ComesTo file ⟨.empty file, [], []⟩ s front result s₁)
    (hinserted : IsSkipped s₁.symbols inserted)
    (hessence : essence false back' = essence false back)
    (hspaced : adjacencies (back'.filter Token.isCode) = adjacencies (back.filter Token.isCode)) :
    (readTokens strict file (front ++ inserted ++ back' ++ [eof']) s).1.mapError Failure.withoutPlace =
        (readTokens strict file (front ++ back ++ [eof]) s).1.mapError Failure.withoutPlace ∧
      (readTokens strict file (front ++ inserted ++ back' ++ [eof']) s).2.symbols =
        (readTokens strict file (front ++ back ++ [eof]) s).2.symbols := by
  obtain ⟨hkind, htext, hbody⟩ := isTokenized_concat.mp hts
  obtain ⟨hkind', htext', hbody'⟩ := isTokenized_concat.mp hus
  have hback : IsTokenized (back ++ [eof]) :=
    isTokenized_concat.mpr ⟨hkind, htext, fun t ht => hbody t (List.mem_append_right _ ht)⟩
  have hback' : IsTokenized (back' ++ [eof']) :=
    isTokenized_concat.mpr ⟨hkind', htext', fun t ht => hbody' t (List.mem_append_right _ ht)⟩
  have hwritten : ∀ t ∈ inserted, t.isCode = true ∨ t.IsBreak := fun t ht =>
    hbody' t (List.mem_append_left _ (List.mem_append_right _ ht))
  rw [readTokens_concat strict file _ hkind, readTokens_concat strict file _ hkind',
    hfront.run_headerFrom strict [] hback]
  cases result with
  | error f =>
    have hfails := hfront.append_error hwritten
    rw [hfails.run_headerFrom strict [] hback']
    exact ⟨rfl, rfl⟩
  | ok draft =>
    obtain ⟨s₂, hskipped, hsymbols⟩ :
        ∃ s₂, ComesTo file draft s₁ inserted (.ok draft) s₂ ∧ s₂.symbols = s₁.symbols :=
      comesTo_of_isSkipped hinserted hwritten
    have hboth := hfront.append hskipped hwritten
    rw [hboth.run_headerFrom strict [] hback']
    dsimp only
    have halike := alike_of_essence file hback hback' hessence hspaced
      (front.reverse ++ []) ((front ++ inserted).reverse ++ [])
    obtain ⟨houtcome, htable⟩ := headerFrom_alike strict draft halike s₁ s₂
      (hsymbols.symm : s₁.symbols = s₂.symbols)
    refine ⟨?_, htable.symm⟩
    generalize ((headerFrom strict draft ⟨file, front.reverse ++ [], back, eof⟩).run s₁).1 = r at houtcome
    generalize ((headerFrom strict draft
      ⟨file, (front ++ inserted).reverse ++ [], back', eof'⟩).run s₂).1 = r' at houtcome
    cases houtcome with
    | ok h => rw [h]
    | error h => exact congrArg Except.error (withoutPlace_eq h)

/-- **Inertness.**  Between complete items, in front of the first and behind the last one, anything may
be inserted that is skipped with the constants that the items in front of it define.  Behind it the same
is written, wherever it stands. -/
theorem readTokens_skipped (strict : Bool) (file : String) {front inserted back back' : List Token}
    {eof eof' : Token} {s s₁ : Session} {result : Except Failure Draft}
    (hts : IsTokenized (front ++ back ++ [eof]))
    (hus : IsTokenized (front ++ inserted ++ back' ++ [eof']))
    (hfront : AreCompleteItems file ⟨.empty file, [], []⟩ s front result s₁)
    (hinserted : IsSkipped s₁.symbols inserted)
    (hessence : essence false back' = essence false back)
    (hspaced : adjacencies (back'.filter Token.isCode) = adjacencies (back.filter Token.isCode)) :
    (readTokens strict file (front ++ inserted ++ back' ++ [eof']) s).1.mapError Failure.withoutPlace =
        (readTokens strict file (front ++ back ++ [eof]) s).1.mapError Failure.withoutPlace ∧
      (readTokens strict file (front ++ inserted ++ back' ++ [eof']) s).2.symbols =
        (readTokens strict file (front ++ back ++ [eof]) s).2.symbols := by
  obtain ⟨-, -, hbody⟩ := isTokenized_concat.mp hts
  have hwritten : ∀ t ∈ front, t.isCode = true ∨ t.IsBreak := fun t ht =>
    hbody t (List.mem_append_left back ht)
  have hcomplete : ComesTo file ⟨.empty file, [], []⟩ s front result s₁ :=
    comesTo_of_areCompleteItems hwritten hfront
  exact readTokens_inserted strict file hts hus hcomplete hinserted hessence hspaced

/-- The outcome of a statement that succeeds, as far as it can be computed and compared. -/
theorem exists_exec_ok {α : Type} {m : Statement α} {c : Cursor} {s : Session} {ahead : List Token}
    {table : SymbolTable}
    (h : (m.exec c s).1.toOption.map (fun p => p.2.ahead) = some ahead ∧ (m.exec c s).2.symbols = table) :
    ∃ a c' s', m.exec c s = (.ok (a, c'), s') ∧ c'.ahead = ahead ∧ s'.symbols = table := by
  obtain ⟨⟨a, c'⟩, hread, hahead⟩ := Option.map_eq_some_iff.mp h.1
  exact ⟨a, c', _, Prod.ext (eq_ok_of_toOption hread) rfl, hahead, h.2⟩

/-- A struct and two aliases.  Between the aliases come a definition of something unknown, another
directive and an interface that is announced. -/
theorem readTokens_skipped_between :
    let struct : List Token := [⟨.ident, "typedef", 1, 1⟩, ⟨.ident, "struct", 1, 9⟩,
      ⟨.punct, "\x7b", 1, 16⟩, ⟨.ident, "A", 1, 18⟩, ⟨.ident, "a", 1, 20⟩, ⟨.punct, ";", 1, 21⟩,
      ⟨.punct, "\x7d", 1, 23⟩, ⟨.ident, "S", 1, 25⟩, ⟨.punct, ";", 1, 26⟩]
    let aliased : List Token := [⟨.newline, "\n", 1, 27⟩, ⟨.ident, "typedef", 2, 1⟩, ⟨.ident, "S", 2, 9⟩,
      ⟨.ident, "T", 2, 11⟩, ⟨.punct, ";", 2, 12⟩, ⟨.newline, "\n", 2, 13⟩]
    let unknown : List Token := [⟨.punct, "#", 3, 1⟩, ⟨.ident, "define", 3, 2⟩, ⟨.ident, "M", 3, 9⟩,
      ⟨.ident, "LATER", 3, 11⟩, ⟨.newline, "\n", 3, 16⟩]
    let pragma : List Token := [⟨.punct, "#", 4, 1⟩, ⟨.ident, "pragma", 4, 2⟩, ⟨.ident, "once", 4, 9⟩,
      ⟨.newline, "\n", 4, 13⟩]
    let announced : List Token := [⟨.ident, "typedef", 5, 1⟩, ⟨.ident, "interface", 5, 9⟩,
      ⟨.ident, "I", 5, 19⟩, ⟨.newline, "\n", 5, 20⟩, ⟨.ident, "I", 6, 1⟩, ⟨.punct, ";", 6, 2⟩]
    let back : List Token := [⟨.ident, "typedef", 3, 1⟩, ⟨.ident, "T", 3, 9⟩, ⟨.ident, "U", 3, 11⟩,
      ⟨.punct, ";", 3, 12⟩]
    let back' : List Token := back.map fun t => { t with line := 7 }
    let eof : Token := ⟨.eof, "", 8, 1⟩
    let front := struct ++ (aliased ++ [])
    let inserted := unknown ++ pragma ++ announced
    (readTokens true "a.h" (front ++ inserted ++ back' ++ [eof]) .start).1.mapError Failure.withoutPlace =
        (readTokens true "a.h" (front ++ back ++ [eof]) .start).1.mapError Failure.withoutPlace ∧
      (readTokens true "a.h" (front ++ inserted ++ back' ++ [eof]) .start).2.symbols =
        (readTokens true "a.h" (front ++ back ++ [eof]) .start).2.symbols := by
  intro struct aliased unknown pragma announced back back' eof front inserted
  have hts : IsTokenized (front ++ back ++ [eof]) := isTokenized_concat.mpr ⟨rfl, rfl, by decide⟩
  have hus : IsTokenized (front ++ inserted ++ back' ++ [eof]) :=
    isTokenized_concat.mpr ⟨rfl, rfl, by decide⟩
  -- the struct is complete: in front of a semicolon it is read up to its end
  let mark : Token := ⟨.punct, ";", 9, 1⟩
  obtain ⟨draft, c, s₀, hread, hend, htable⟩ :=
    @exists_exec_ok _ (declaration ⟨.empty "a.h", [], []⟩ ⟨.ident, "typedef", 1, 1⟩)
      ⟨"a.h", [], struct.tail ++ [mark], mark⟩ .start [mark] .empty (by decide +kernel)
  have hopening : OpensBody ⟨.punct, "\x7b", 1, 16⟩ [⟨.punct, "\x7b", 1, 16⟩] :=
    @OpensBody.anonymous [] _ nofun (by decide) rfl
  have hstruct : IsCompleteItem ⟨.empty "a.h", [], []⟩ .start struct draft s₀ :=
    @IsCompleteItem.body _ _ ⟨.ident, "typedef", 1, 1⟩ ⟨.ident, "struct", 1, 9⟩ _ [] _ (struct.drop 3)
      _ _ (by decide) rfl nofun (by decide) (.inl rfl) hopening
      ⟨⟨"a.h", [], struct.tail ++ [mark], mark⟩, c, mark, [], by decide, rfl, hread, hend⟩
  -- and so is the alias
  have haliased : IsCompleteItem draft s₀ aliased (draft.addTypedef ⟨.ident, "S", 2, 9⟩ ⟨.ident, "T", 2, 11⟩
      ⟨.punct, ";", 2, 12⟩) s₀ :=
    @IsCompleteItem.other _ _ ⟨.ident, "typedef", 2, 1⟩ _ _ _ [] _ rfl (by decide) (by decide) (by decide)
  have hfront : AreCompleteItems "a.h" ⟨.empty "a.h", [], []⟩ .start front
      (.ok (draft.addTypedef ⟨.ident, "S", 2, 9⟩ ⟨.ident, "T", 2, 11⟩ ⟨.punct, ";", 2, 12⟩)) s₀ :=
    .cons hstruct (.cons haliased .nil)
  -- what is inserted is skipped
  have hunknown : IsSkippedMacro s₀.symbols ⟨.ident, "M", 3, 9⟩ [⟨.ident, "LATER", 3, 11⟩] := by
    rw [htable]
    decide +kernel
  have hinserted : IsSkipped s₀.symbols inserted := by
    refine .append (.append ?_ ?_) ?_
    · exact @IsSkipped.definition _ _ _ _ _ [_] rfl rfl (by decide) rfl (by decide) (by decide) hunknown
    · exact @IsSkipped.directive _ _ _ [_, _] rfl (by decide) (by decide) (by decide)
    · exact .code (.announced rfl rfl (by decide))
  have hessence : essence false back' = essence false back := by decide
  have hspaced : adjacencies (back'.filter Token.isCode) = adjacencies (back.filter Token.isCode) := by
    decide
  exact readTokens_skipped true "a.h" hts hus hfront hinserted hessence hspaced

end SdkBindings.Grammar
