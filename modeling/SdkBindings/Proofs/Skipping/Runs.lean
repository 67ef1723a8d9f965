import SdkBindings.Proofs.Comparison.LineEnds
import SdkBindings.Proofs.Enumeration.Bodies
import SdkBindings.Proofs.Grammar.Evaluations

/-!
# Runs of tokens that are read on their own

A header is read item by item, and the reader of one item does not know where the next one starts.  A
run of tokens is complete if it makes no difference what follows it: the declarations ahead of the run
come to what the declarations behind it come to, from the header and the session that the run leads to,
or they fail within the run (`ComesTo`).

Complete runs one after the other are a complete run (`ComesTo.append`), and so is a declaration
together with a complete run behind it (`comesTo_declaration`).  No bound is mentioned: the number of
tokens ahead is always enough, and nothing depends on how much more than enough it is.
-/

namespace SdkBindings

instance : DecidablePred Token.IsBreak :=
  fun t => inferInstanceAs (Decidable (t.kind = .newline ∧ (t.text = "\n" ∨ t.text = "\r\n")))

/-- The tokens of a header are those of its body and its end. -/
theorem isTokenized_concat {body : List Token} {eof : Token} :
    IsTokenized (body ++ [eof]) ↔
      eof.kind = .eof ∧ eof.text = "" ∧ ∀ t ∈ body, t.isCode = true ∨ t.IsBreak := by
  constructor
  · rintro ⟨body', eof', heq, hkind, htext, hbody⟩
    obtain ⟨rfl, heof⟩ := List.append_inj' heq rfl
    cases heof
    exact ⟨hkind, htext, hbody⟩
  · rintro ⟨hkind, htext, hbody⟩
    exact ⟨body, eof, rfl, hkind, htext, hbody⟩

namespace Cursor

variable (file : String) (passed rest : List Token) (eof : Token)

/-- A token of code at the cursor stays there. -/
theorem settle_cons_code {t : Token} (ht : t.isLineEnd = false) :
    settle .code ⟨file, passed, t :: rest, eof⟩ = ⟨file, passed, t :: rest, eof⟩ := by
  simp [settle, skipLineEnds, ht]

/-- Line ends at the cursor are passed over. -/
theorem settle_append_breaks {ends : List Token} (hends : ∀ e ∈ ends, e.isLineEnd = true) :
    settle .code ⟨file, passed, ends ++ rest, eof⟩ =
      settle .code ⟨file, ends.reverse ++ passed, rest, eof⟩ := by
  have htake : (ends ++ rest).takeWhile Token.isLineEnd = ends ++ rest.takeWhile Token.isLineEnd :=
    List.takeWhile_append_of_pos hends
  simp only [settle, skipLineEnds, htake, List.reverse_append, List.append_assoc, List.length_append,
    List.drop_length_add_append]

/-- Line ends in front of a token of code are passed over when it is read. -/
theorem next_breaks_code {ends : List Token} (hends : ∀ e ∈ ends, e.isLineEnd = true) {t : Token}
    (ht : t.isLineEnd = false) :
    next ⟨file, passed, ends ++ t :: rest, eof⟩ .code =
      (t, ⟨file, t :: (ends.reverse ++ passed), rest, eof⟩) := by
  rw [next, settle_append_breaks _ _ _ _ hends, settle_cons_code _ _ _ _ ht]
  rfl

end Cursor

namespace Grammar

open Reader

/-! ## The declarations ahead -/

/-- All declarations ahead. -/
def declarationsAhead (draft : Draft) : Statement Draft :=
  fun c => declarations (c.ahead.length + 1) draft c

section

variable {draft : Draft} {c : Cursor} {s : Session}

/-- Where a token is at the cursor, its declaration is read and then the others. -/
theorem exec_declarations_cons {file : String} {passed rest : List Token} {eof t : Token}
    (ht : t.isCode = true) (bound : Nat) :
    (declarations (bound + 1) draft).exec ⟨file, passed, t :: rest, eof⟩ s =
      (declaration draft t >>= declarations bound).exec ⟨file, t :: passed, rest, eof⟩ s := by
  have hline := Token.isLineEnd_of_isCode ht
  have hpeek : peek ⟨file, passed, t :: rest, eof⟩ = .ok (t, ⟨file, passed, t :: rest, eof⟩) := by
    show Except.ok (Cursor.current _, Cursor.settle .code _) = _
    rw [Cursor.settle_cons_code _ _ _ _ hline]
    rfl
  have hnext : next ⟨file, passed, t :: rest, eof⟩ = .ok (t, ⟨file, t :: passed, rest, eof⟩) := by
    show Except.ok (Cursor.current (Cursor.settle .code _), Cursor.advance (Cursor.settle .code _)) = _
    rw [Cursor.settle_cons_code _ _ _ _ hline]
    rfl
  have hkind : t.kind ≠ .eof := by
    intro hkind
    simp [Token.isCode, hkind] at ht
  rw [declarations, exec_bind (exec_read_ok.mpr ⟨hpeek, rfl⟩), if_neg hkind,
    exec_bind (exec_read_ok.mpr ⟨hnext, rfl⟩)]

/-- Line ends ahead make no difference to the declarations. -/
theorem exec_declarations_settle (bound : Nat) :
    (declarations (bound + 1) draft).exec (c.settle .code) s =
      (declarations (bound + 1) draft).exec c s := by
  have hsettle : (c.settle .code).settle .code = c.settle .code := by
    unfold Cursor.settle Cursor.skipLineEnds
    dsimp only
    rw [drop_length_takeWhile, takeWhile_dropWhile]
    rfl
  have hsettled : peek (c.settle .code) = .ok ((c.settle .code).current, c.settle .code) := by
    show Except.ok (Cursor.peek (c.settle .code) .code) = _
    rw [Cursor.peek, hsettle]
  have hpeek : peek c = .ok ((c.settle .code).current, c.settle .code) := rfl
  rw [declarations, exec_bind (exec_read_ok.mpr ⟨hsettled, rfl⟩),
    exec_bind (exec_read_ok.mpr ⟨hpeek, rfl⟩)]

/-- Where only line ends are ahead, no declarations are. -/
theorem exec_declarations_end (h : (c.settle .code).current.kind = .eof) (bound : Nat) :
    (declarations (bound + 1) draft).exec c s = (.ok (draft, c.settle .code), s) := by
  have hpeek : peek c = .ok ((c.settle .code).current, c.settle .code) := rfl
  rw [declarations, exec_bind (exec_read_ok.mpr ⟨hpeek, rfl⟩), if_pos h]
  rfl

/-- Any bound that is greater than the number of tokens ahead is as good as any other. -/
theorem exec_declarations_bound (heof : c.eof.kind = .eof) {b b' : Nat} (hb : c.ahead.length < b)
    (hb' : c.ahead.length < b') :
    (declarations b draft).exec c s = (declarations b' draft).exec c s := by
  induction b generalizing b' draft c s with
  | zero => exact absurd hb (Nat.not_lt_zero _)
  | succ b ih =>
    cases b' with
    | zero => exact absurd hb' (Nat.not_lt_zero _)
    | succ b' =>
      by_cases hend : (c.settle .code).current.kind = .eof
      · rw [exec_declarations_end hend, exec_declarations_end hend]
      rw [← exec_declarations_settle b, ← exec_declarations_settle b']
      have hlength := (c.isBefore_settle .code).length_le
      have heof : (c.settle .code).eof.kind = .eof := heof
      have hfirst := takeWhile_dropWhile Token.isLineEnd c.ahead
      rw [← c.settle_ahead] at hfirst
      generalize c.settle .code = d at hend hlength heof hfirst
      obtain ⟨file, passed, _ | ⟨t, rest⟩, eof⟩ := d
      · exact absurd heof hend
      have hline : t.isLineEnd = false := by
        cases hline : t.isLineEnd with
        | false => rfl
        | true => simp [hline] at hfirst
      have hcode : t.isCode = true := by
        have hkind : t.kind ≠ .eof := hend
        simp only [Token.isLineEnd, decide_eq_false_iff_not] at hline
        simp [Token.isCode, hline, hkind]
      rw [List.length_cons] at hlength
      rw [exec_declarations_cons hcode, exec_declarations_cons hcode]
      -- behind the token fewer tokens are ahead, whatever the declaration makes of them
      show (declaration draft t _ >>= fun p => declarations b p.1 p.2).run s =
        (declaration draft t _ >>= fun p => declarations b' p.1 p.2).run s
      rw [run_bind, run_bind]
      rcases hread : (declaration draft t ⟨file, t :: passed, rest, eof⟩).run s with ⟨f | ⟨draft', c'⟩, s'⟩
      · rfl
      · have hbefore := isForward_declaration draft t _ _ _ _ _ hread
        have hshorter := hbefore.length_le
        dsimp only at hshorter ⊢
        refine ih (hbefore.2.1.symm ▸ heof) ?_ ?_ <;> omega

end

/-- The declarations ahead of a token are its own and those behind it. -/
theorem exec_declarationsAhead_cons {draft : Draft} {s : Session} {file : String}
    {passed rest : List Token} {eof t : Token} (heof : eof.kind = .eof) (ht : t.isCode = true) :
    (declarationsAhead draft).exec ⟨file, passed, t :: rest, eof⟩ s =
      (declaration draft t >>= declarationsAhead).exec ⟨file, t :: passed, rest, eof⟩ s := by
  show (declarations (rest.length + 1 + 1) draft).exec _ s = _
  rw [exec_declarations_cons ht]
  show (declaration draft t _ >>= fun p => declarations (rest.length + 1) p.1 p.2).run s =
    (declaration draft t _ >>= fun p => declarationsAhead p.1 p.2).run s
  rw [run_bind, run_bind]
  rcases hread : (declaration draft t ⟨file, t :: passed, rest, eof⟩).run s with ⟨f | ⟨draft', c'⟩, s'⟩
  · rfl
  · have hbefore := isForward_declaration draft t _ _ _ _ _ hread
    exact exec_declarations_bound (hbefore.2.1.symm ▸ heof) (Nat.lt_succ_of_le hbefore.length_le)
      (Nat.lt_succ_self _)

/-- Line ends ahead make no difference. -/
theorem exec_declarationsAhead_break {draft : Draft} {s : Session} {file : String}
    {passed rest : List Token} {eof e : Token} (heof : eof.kind = .eof) (he : e.isLineEnd = true) :
    (declarationsAhead draft).exec ⟨file, passed, e :: rest, eof⟩ s =
      (declarationsAhead draft).exec ⟨file, e :: passed, rest, eof⟩ s := by
  have hsettle : Cursor.settle .code ⟨file, passed, e :: rest, eof⟩ =
      Cursor.settle .code ⟨file, e :: passed, rest, eof⟩ :=
    Cursor.settle_append_breaks file passed rest eof fun u hu => List.mem_singleton.mp hu ▸ he
  have hmore : (declarationsAhead draft).exec ⟨file, e :: passed, rest, eof⟩ s =
      (declarations (rest.length + 1 + 1) draft).exec ⟨file, e :: passed, rest, eof⟩ s :=
    exec_declarations_bound heof (Nat.lt_succ_self _) (Nat.lt_succ_of_lt (Nat.lt_succ_self _))
  have hahead : (declarationsAhead draft).exec ⟨file, passed, e :: rest, eof⟩ s =
      (declarations (rest.length + 1 + 1) draft).exec ⟨file, passed, e :: rest, eof⟩ s :=
    rfl
  rw [hahead, hmore, ← exec_declarations_settle, hsettle, exec_declarations_settle]

/-! ## Complete runs -/

/-- Whatever follows the run, the declarations ahead of it come to what those behind it come to, from
another header and session, or they fail. -/
def ComesTo (file : String) (draft : Draft) (s : Session) (run : List Token)
    (result : Except Failure Draft) (s' : Session) : Prop :=
  ∀ passed rest eof, IsTokenized (rest ++ [eof]) →
    (declarationsAhead draft).exec ⟨file, passed, run ++ rest, eof⟩ s =
      match result with
      | .ok draft' => (declarationsAhead draft').exec ⟨file, run.reverse ++ passed, rest, eof⟩ s'
      | .error f => (.error f, s')

section

variable {file : String} {draft draft' : Draft} {s s' s'' : Session} {run more : List Token}
  {result : Except Failure Draft}

/-- An empty run comes to what there was before. -/
theorem ComesTo.nil : ComesTo file draft s [] (.ok draft) s :=
  fun _ _ _ _ => rfl

/-- Complete runs one after the other are complete. -/
theorem ComesTo.append (hrun : ComesTo file draft s run (.ok draft') s')
    (hmore : ComesTo file draft' s' more result s'')
    (hwritten : ∀ t ∈ more, t.isCode = true ∨ t.IsBreak) :
    ComesTo file draft s (run ++ more) result s'' := by
  intro passed rest eof hrest
  obtain ⟨hkind, htext, hbody⟩ := isTokenized_concat.mp hrest
  have hboth : IsTokenized (more ++ rest ++ [eof]) :=
    isTokenized_concat.mpr ⟨hkind, htext, fun t ht =>
      (List.mem_append.mp ht).elim (hwritten t) (hbody t)⟩
  rw [List.append_assoc]
  refine (hrun passed (more ++ rest) eof hboth).trans ?_
  rw [List.reverse_append, List.append_assoc]
  exact hmore (run.reverse ++ passed) rest eof hrest

/-- Nothing is read behind a run that fails. -/
theorem ComesTo.append_error {f : Failure} (hrun : ComesTo file draft s run (.error f) s')
    (hwritten : ∀ t ∈ more, t.isCode = true ∨ t.IsBreak) :
    ComesTo file draft s (run ++ more) (.error f) s' := by
  intro passed rest eof hrest
  obtain ⟨hkind, htext, hbody⟩ := isTokenized_concat.mp hrest
  rw [List.append_assoc]
  exact hrun passed (more ++ rest) eof (isTokenized_concat.mpr ⟨hkind, htext, fun t ht =>
    (List.mem_append.mp ht).elim (hwritten t) (hbody t)⟩)

/-- A declaration that is read up to a complete run, whatever follows that, makes a longer one. -/
theorem comesTo_declaration {t : Token} (ht : t.isCode = true)
    (h : ∀ passed rest eof, IsTokenized (rest ++ [eof]) →
      (declaration draft t).exec ⟨file, t :: passed, run ++ (more ++ rest), eof⟩ s =
        (.ok (draft', ⟨file, run.reverse ++ t :: passed, more ++ rest, eof⟩), s'))
    (hmore : ComesTo file draft' s' more result s'') :
    ComesTo file draft s (t :: (run ++ more)) result s'' := by
  intro passed rest eof hrest
  have heof := (isTokenized_concat.mp hrest).1
  rw [List.cons_append, List.append_assoc, exec_declarationsAhead_cons heof ht,
    exec_bind (h passed rest eof hrest), List.reverse_cons, List.reverse_append, List.append_assoc,
    List.append_assoc]
  exact hmore (run.reverse ++ t :: passed) rest eof hrest

/-- A declaration that is read in the same way whatever follows it is complete, also if it fails. -/
theorem comesTo_outcome {t : Token} (ht : t.isCode = true)
    (h : ∀ passed rest eof, IsTokenized (rest ++ [eof]) →
      (declaration draft t).exec ⟨file, t :: passed, run ++ rest, eof⟩ s =
        (result.map fun draft' => (draft', ⟨file, run.reverse ++ t :: passed, rest, eof⟩), s')) :
    ComesTo file draft s (t :: run) result s' := by
  intro passed rest eof hrest
  have heof := (isTokenized_concat.mp hrest).1
  have hread := h passed rest eof hrest
  rw [List.cons_append, exec_declarationsAhead_cons heof ht]
  cases result with
  | ok draft' => rw [exec_bind hread, List.reverse_cons, List.append_assoc]; rfl
  | error f =>
    have hfails : (declaration draft t ⟨file, t :: passed, run ++ rest, eof⟩).run s =
        (.error f, s') := hread
    show (declaration draft t _ >>= fun p => declarationsAhead p.1 p.2).run s = _
    rw [run_bind, hfails]

/-- Line ends are complete. -/
theorem comesTo_breaks {ends : List Token} (hends : ∀ e ∈ ends, e.isLineEnd = true) :
    ComesTo file draft s ends (.ok draft) s := by
  induction ends with
  | nil => exact .nil
  | cons e ends ih =>
    obtain ⟨he, hends⟩ := List.forall_mem_cons.mp hends
    intro passed rest eof hrest
    have heof := (isTokenized_concat.mp hrest).1
    rw [List.cons_append, exec_declarationsAhead_break heof he]
    refine (ih hends (e :: passed) rest eof hrest).trans ?_
    rw [List.reverse_cons, List.append_assoc]
    rfl

end

end Grammar

end SdkBindings
