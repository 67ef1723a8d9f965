import Mathlib.Logic.Function.Iterate
import SdkBindings.Proofs.Enumeration.Places
import SdkBindings.Proofs.Skipping.Forms

/-!
# Loops, round by round

A loop is written as one round that is told how to go on (`again`).  It ends if a round goes on only
where fewer tokens are unread than before (`IsLoop`): then what comes after as many rounds as there are
unread tokens, and one more, no longer matters.

Unread are the tokens ahead and a token that a round was given and has not dealt with yet.  The end of
the header is not counted.  It can be read any number of times, and so no round may treat it as it
treats other tokens; that nothing is written at the end is what keeps the rounds from it.

The readers of the grammar are bounded by the number of tokens ahead, or they look for the end of
what they read without a loop.  Here they are shown to be loops without a bound (`Unrolls.isLoop`).
-/

namespace SdkBindings.Grammar

open Reader

/-! ## Loops -/

/-- How many of the tokens in hand are unread: one, unless it is the end of the header. -/
def held (hand : Option Token) : Nat :=
  match hand with
  | some t => if t.kind = .eof then 0 else 1
  | none => 0

/-- How many tokens are unread: those ahead and the one in hand. -/
def unread (hand : Option Token) (c : Cursor) : Nat :=
  c.ahead.length + held hand

/-- What is in hand may come from a header: at the end nothing is written. -/
def IsHand (hand : Option Token) : Prop :=
  ∀ t ∈ hand, t.kind = .eof → t.text = ""

section

variable {ι β : Type} (moves : (Cursor → β) → Prop) (hand : ι → Option Token)
  (round : (ι → Cursor → β) → ι → Cursor → β)

/-- A round goes on, if at all, where fewer tokens are unread: two ways of going on that agree there
make no difference to it. -/
def Descends : Prop :=
  ∀ i c, IsHand (hand i) → c.IsCut → ∀ f g : ι → Cursor → β, (∀ i, moves (f i)) → (∀ i, moves (g i)) →
    (∀ i' c', IsHand (hand i') → c'.IsCut → unread (hand i') c' < unread (hand i) c →
      f i' c' = g i' c') → round f i c = round g i c

/-- The loop goes round by round, each of which leaves fewer tokens unread or is the last. -/
structure IsLoop (loop : ι → Cursor → β) : Prop where
  /-- A round moves forward if what it goes on with does. -/
  keeps : ∀ f, (∀ i, moves (f i)) → ∀ i, moves (round f i)
  /-- A round goes on only where fewer tokens are unread. -/
  descends : Descends moves hand round
  /-- The loop moves forward. -/
  forward : ∀ i, moves (loop i)
  /-- The loop is a round that goes on with the loop. -/
  unfolds : ∀ i c, IsHand (hand i) → c.IsCut → loop i c = round loop i c
  /-- After more rounds than tokens are unread it has ended, whatever would come then. -/
  ends : ∀ i c, IsHand (hand i) → c.IsCut → ∀ f, (∀ i, moves (f i)) → ∀ n, unread (hand i) c < n →
    round^[n] f i c = loop i c

variable {moves hand round} {loop : ι → Cursor → β}

/-- What goes round by round ends if the rounds descend. -/
theorem IsLoop.of_unfolds (hkeeps : ∀ f, (∀ i, moves (f i)) → ∀ i, moves (round f i))
    (hdescends : Descends moves hand round) (hforward : ∀ i, moves (loop i))
    (hunfolds : ∀ i c, IsHand (hand i) → c.IsCut → loop i c = round loop i c) :
    IsLoop moves hand round loop := by
  refine ⟨hkeeps, hdescends, hforward, hunfolds, fun i c hi hc f hf n hn => ?_⟩
  have hrounds (n : Nat) (i : ι) : moves (round^[n] f i) := by
    induction n generalizing i with
    | zero => exact hf i
    | succ n ih =>
      rw [Function.iterate_succ_apply']
      exact hkeeps _ ih i
  induction n generalizing i c with
  | zero => exact absurd hn (Nat.not_lt_zero _)
  | succ n ih =>
    rw [Function.iterate_succ_apply', hunfolds i c hi hc]
    apply hdescends i c hi hc _ _ (hrounds n) hforward
    intro i' c' hi' hc' hless
    exact ih i' c' hi' hc' (Nat.lt_of_lt_of_le hless (Nat.le_of_lt_succ hn))

variable (moves hand round) in
/-- With the bound `b` at most `b` rounds are gone through, and none is needed where nothing is
unread. -/
structure Unrolls (bounded : Nat → ι → Cursor → β) : Prop where
  /-- A round moves forward if what it goes on with does. -/
  keeps : ∀ f, (∀ i, moves (f i)) → ∀ i, moves (round f i)
  /-- A round goes on only where fewer tokens are unread. -/
  descends : Descends moves hand round
  /-- With every bound it moves forward. -/
  forward : ∀ b i, moves (bounded b i)
  /-- A larger bound is one round more. -/
  succ : ∀ b i, bounded (b + 1) i = round (bounded b) i
  /-- Where nothing is unread, one round makes no difference. -/
  zero : ∀ i c, IsHand (hand i) → c.IsCut → unread (hand i) c = 0 → bounded 0 i c = bounded 1 i c

namespace Unrolls

variable {bounded : Nat → ι → Cursor → β}

/-- A bound that is no smaller than the number of unread tokens is as good as any other. -/
theorem eq (h : Unrolls moves hand round bounded) {i : ι} {c : Cursor} (hi : IsHand (hand i))
    (hc : c.IsCut) {b b' : Nat} (hb : unread (hand i) c ≤ b) (hb' : unread (hand i) c ≤ b') :
    bounded b i c = bounded b' i c := by
  have hsucc {i : ι} {c : Cursor} (hi : IsHand (hand i)) (hc : c.IsCut) {b : Nat}
      (hb : unread (hand i) c ≤ b) : bounded b i c = bounded (b + 1) i c := by
    induction b generalizing i c with
    | zero => exact h.zero i c hi hc (Nat.le_zero.mp hb)
    | succ b ih =>
      rw [h.succ, h.succ]
      apply h.descends i c hi hc _ _ (h.forward b) (h.forward (b + 1))
      intro i' c' hi' hc' hless
      exact ih hi' hc' (Nat.le_of_lt_succ (Nat.lt_of_lt_of_le hless hb))
  have hleast {b : Nat} (hb : unread (hand i) c ≤ b) :
      bounded b i c = bounded (unread (hand i) c) i c := by
    induction hb with
    | refl => rfl
    | step hb ih => rw [← hsucc hi hc hb, ih]
  rw [hleast hb, hleast hb']

/-- Bounded by the number of unread tokens at least, it is a loop without a bound. -/
theorem isLoop (h : Unrolls moves hand round bounded)
    (hloop : ∀ i c, ∃ b, unread (hand i) c ≤ b ∧ loop i c = bounded b i c)
    (hmoves : ∀ i, moves (loop i)) : IsLoop moves hand round loop := by
  refine .of_unfolds h.keeps h.descends hmoves fun i c hi hc => ?_
  obtain ⟨b, hb, heq⟩ := hloop i c
  rw [heq, h.eq hi hc hb (Nat.le_succ_of_le hb), h.succ]
  apply h.descends i c hi hc _ _ (h.forward b) hmoves
  intro i' c' hi' hc' hless
  obtain ⟨b', hb', heq'⟩ := hloop i' c'
  rw [heq']
  exact h.eq hi' hc' (Nat.le_of_lt (Nat.lt_of_lt_of_le hless hb)) hb'

/-- Unrolled once more, nothing has to be known about the bound zero. -/
theorem of_descends (hkeeps : ∀ f, (∀ i, moves (f i)) → ∀ i, moves (round f i))
    (hdescends : Descends moves hand round) (hforward : ∀ b i, moves (bounded b i))
    (hsucc : ∀ b i, bounded (b + 1) i = round (bounded b) i) :
    Unrolls moves hand round fun b => bounded (b + 1) := by
  refine ⟨hkeeps, hdescends, fun b => hforward (b + 1), fun b => hsucc (b + 1), ?_⟩
  intro i c hi hc hnone
  rw [hsucc, hsucc]
  apply hdescends i c hi hc _ _ (hforward 0) (hforward 1)
  intro i' c' _ _ hless
  rw [hnone] at hless
  exact absurd hless (Nat.not_lt_zero _)

end Unrolls

end

/-- A token ahead is not the end of the header. -/
theorem kind_ne_eof_of_mem {c : Cursor} (hc : c.IsCut) {t : Token} (ht : t ∈ c.ahead) :
    t.kind ≠ .eof := by
  intro hkind
  rcases (hc.ahead t ht).isCode_or_isBreak with hcode | hbreak
  · simp [Token.isCode, hkind] at hcode
  · cases hkind.symm.trans hbreak.1

/-- A token that is read may be in hand. -/
theorem isHand_next {c : Cursor} (hc : c.IsCut) : IsHand (some (c.next .code).1) := by
  rintro t ⟨⟩ hkind
  have hread : next c = .ok ((c.next .code).1, (c.next .code).2) := rfl
  obtain ⟨hcode | ⟨-, heof⟩, -⟩ := next_cases hread
  · have hmem : (c.next .code).1 ∈ c.code := hcode ▸ List.mem_cons_self
    exact absurd hkind (kind_ne_eof_of_mem hc (List.mem_filter.mp hmem).1)
  · rw [heof]
    exact hc.text

/-- A token that is read is one token fewer ahead, unless it is the end of the header. -/
theorem unread_next (c : Cursor) (hkind : c.eof.kind = .eof) :
    unread (some (c.next .code).1) (c.next .code).2 ≤ c.ahead.length := by
  unfold unread
  rcases c.next_eq_eof_or_length_lt .code with heof | hshorter
  · have hnone : held (some (c.next .code).1) = 0 := by
      rw [heof]
      exact if_pos hkind
    rw [hnone]
    exact (c.isBefore_next .code).length_le
  · have hone : held (some (c.next .code).1) ≤ 1 := by
      unfold held
      dsimp only
      split <;> omega
    omega

/-! ## Going on alike -/

/-- With fewer than `n` tokens ahead both go on alike. -/
def AgreeBelow {β : Type} (n : Nat) (m m' : Cursor → β) : Prop :=
  ∀ c : Cursor, c.IsCut → c.ahead.length < n → m c = m' c

/-- A round descends if, wherever two ways of going on agree with fewer tokens unread, it comes to the
same with one more. -/
theorem descends_of_agree {ι β : Type} {moves : (Cursor → β) → Prop} {hand : ι → Option Token}
    {round : (ι → Cursor → β) → ι → Cursor → β}
    (h : ∀ n f g, (∀ i, moves (f i)) → (∀ i, moves (g i)) →
      (∀ i, IsHand (hand i) → AgreeBelow (n - held (hand i)) (f i) (g i)) →
      ∀ i, IsHand (hand i) → AgreeBelow (n + 1 - held (hand i)) (round f i) (round g i)) :
    Descends moves hand round := by
  intro i c hi hc f g hf hg hfg
  refine h (unread (hand i) c) f g hf hg (fun i' hi' c' hc' hless => ?_) i hi c hc ?_
  · apply hfg i' c' hi' hc'
    unfold unread at hless ⊢
    omega
  · unfold unread
    omega

namespace AgreeBelow

variable {n : Nat} {α β : Type}

theorem refl (m : Cursor → β) : AgreeBelow n m m :=
  fun _ _ _ => rfl

theorem mono {l : Nat} {m m' : Cursor → β} (h : AgreeBelow n m m') (hl : l ≤ n) :
    AgreeBelow l m m' :=
  fun c hc hless => h c hc (Nat.lt_of_lt_of_le hless hl)

/-- What is chosen by a condition. -/
theorem ite {p : Prop} [Decidable p] {m m' l l' : Cursor → β} (hm : p → AgreeBelow n m m')
    (hl : ¬ p → AgreeBelow n l l') : AgreeBelow n (if p then m else l) (if p then m' else l') := by
  by_cases hp : p
  · rw [if_pos hp, if_pos hp]
    exact hm hp
  · rw [if_neg hp, if_neg hp]
    exact hl hp

/-- The same comes behind. -/
theorem same_bind {μ : Type → Type} [Monad μ] {m m' : StateT Cursor μ α} (hm : AgreeBelow n m m')
    (k : α → StateT Cursor μ β) : AgreeBelow n (m >>= k) (m' >>= k) := by
  intro c hc hless
  show (m c >>= fun p => k p.1 p.2) = (m' c >>= fun p => k p.1 p.2)
  rw [hm c hc hless]

variable {m m' : Reader α} {k k' : α → Reader β}

/-- Readers in a row, the first of which takes at least `j` tokens. -/
theorem taking_bind {j : Nat} (hm : AgreeBelow n m m') (hforward : Forward m)
    (htakes : ∀ c a c', c.IsCut → m c = .ok (a, c') → c'.ahead.length + j ≤ c.ahead.length)
    (hk : ∀ a, AgreeBelow (n - j) (k a) (k' a)) : AgreeBelow n (m >>= k) (m' >>= k') := by
  intro c hc hless
  show (m c >>= fun p => k p.1 p.2) = (m' c >>= fun p => k' p.1 p.2)
  rw [← hm c hc hless]
  cases hread : m c with
  | error e => rfl
  | ok p =>
    have hshorter := htakes c p.1 p.2 hc hread
    exact hk p.1 p.2 (hc.of_isBefore (hforward c p.1 p.2 hread)) (by omega)

/-- Readers in a row. -/
theorem bind (hm : AgreeBelow n m m') (hforward : Forward m)
    (hk : ∀ a, AgreeBelow n (k a) (k' a)) : AgreeBelow n (m >>= k) (m' >>= k') :=
  hm.taking_bind (j := 0) hforward (fun c a c' _ hread => (hforward c a c' hread).length_le) hk

/-- The same reader comes first. -/
theorem forward_bind (hforward : Forward m) (hk : ∀ a, AgreeBelow n (k a) (k' a)) :
    AgreeBelow n (m >>= k) (m >>= k') :=
  (refl m).bind hforward hk

/-- A token is read first: then it is in hand, and one token fewer is ahead unless it is the end. -/
theorem next_bind {k k' : Token → Reader β}
    (hk : ∀ t, IsHand (some t) → AgreeBelow (n - held (some t)) (k t) (k' t)) :
    AgreeBelow n (next >>= k) (next >>= k') := by
  intro c hc hless
  have hunread : (c.next .code).2.ahead.length + held (some (c.next .code).1) ≤ c.ahead.length :=
    unread_next c hc.kind
  show k (c.next .code).1 (c.next .code).2 = k' (c.next .code).1 (c.next .code).2
  apply hk _ (isHand_next hc) _ (hc.of_isBefore (c.isBefore_next .code))
  omega

end AgreeBelow

/-! ## Lines -/

/-- A round that passes over a line end. -/
def lineEndsRound (again : Unit → Cursor → Cursor) (_ : Unit) (c : Cursor) : Cursor :=
  if c.current.isLineEnd then again () c.advance else c

/-- Passing over line ends is a loop. -/
theorem isLoop_lineEnds : IsLoop (fun m => ∀ c, Cursor.IsBefore c (m c)) (fun _ => none) lineEndsRound
    (fun _ c => c.settle .code) := by
  refine .of_unfolds ?_ ?_ (fun _ c => c.isBefore_settle .code) ?_
  · intro f hf _ c
    unfold lineEndsRound
    split
    · exact c.isBefore_advance.trans (hf () _)
    · exact .refl c
  · intro _ c _ hc f g _ _ hfg
    unfold lineEndsRound
    split
    · rename_i hline
      apply hfg () _ (by rintro _ ⟨⟩) (hc.of_isBefore c.isBefore_advance)
      have hne : c.ahead ≠ [] := by
        intro hnone
        rw [Cursor.current, hnone] at hline
        cases hc.kind.symm.trans (of_decide_eq_true hline)
      exact Cursor.length_next_lt hne .line
    · rfl
  · intro _ c _ hc
    obtain ⟨file, passed, _ | ⟨t, rest⟩, eof⟩ := c
    · have heof : ¬ eof.isLineEnd = true := by
        intro hline
        cases hc.kind.symm.trans (of_decide_eq_true hline)
      exact (if_neg heof).symm
    · by_cases hline : t.isLineEnd = true
      · have hround : lineEndsRound (fun _ c => c.settle .code) () ⟨file, passed, t :: rest, eof⟩ =
            Cursor.settle .code ⟨file, t :: passed, rest, eof⟩ := if_pos hline
        rw [hround]
        exact Cursor.settle_append_breaks file passed rest eof fun e he =>
          List.mem_singleton.mp he ▸ hline
      · have hround : lineEndsRound (fun _ c => c.settle .code) () ⟨file, passed, t :: rest, eof⟩ =
            ⟨file, passed, t :: rest, eof⟩ := if_neg hline
        rw [hround]
        exact Cursor.settle_cons_code file passed rest eof (by simpa using hline)

/-- A round of reading a line, given the tokens so far. -/
def lineRound (again : List Token → Reader (List Token)) (tokens : List Token) :
    Reader (List Token) := do
  let token ← nextInLine
  if token.isLineEnd ∨ token.kind = .eof then pure tokens
  else again (tokens ++ [token])

/-- The rest of a line behind the tokens so far. -/
def lineFrom (tokens : List Token) : Reader (List Token) := do
  let rest ← readLine
  pure (tokens ++ rest)

theorem lineRound_apply (again : List Token → Reader (List Token)) (tokens : List Token) (c : Cursor) :
    lineRound again tokens c =
      if (c.next .line).1.isLineEnd = true ∨ (c.next .line).1.kind = .eof then
        .ok (tokens, (c.next .line).2)
      else again (tokens ++ [(c.next .line).1]) (c.next .line).2 :=
  apply_ite (fun m : Reader (List Token) => m (c.next .line).2) _ _ _

/-- Reading a line is a loop. -/
theorem isLoop_line : IsLoop Forward (fun _ => none) lineRound lineFrom := by
  refine .of_unfolds ?_ ?_ (fun tokens => Forward.readLine.bind fun rest => .pure _) ?_
  · exact fun f hf tokens => Forward.nextInLine.bind fun token => .ite (.pure _) (hf _)
  · intro tokens c _ hc f g _ _ hfg
    rw [lineRound_apply, lineRound_apply]
    split
    · rfl
    · rename_i hgoes
      apply hfg _ _ (by rintro _ ⟨⟩) (hc.of_isBefore (c.isBefore_next .line))
      refine Cursor.length_next_lt (fun hnone => hgoes (.inr ?_)) .line
      show c.current.kind = .eof
      rw [Cursor.current, hnone]
      exact hc.kind
  · intro tokens c _ hc
    rw [lineRound_apply]
    show Except.ok (tokens ++ c.readLine.1, c.readLine.2) = _
    obtain ⟨file, passed, _ | ⟨t, rest⟩, eof⟩ := c
    · rw [if_pos (.inr hc.kind)]
      show Except.ok (tokens ++ [], _) = _
      rw [List.append_nil]
      rfl
    · have hnext : Cursor.next ⟨file, passed, t :: rest, eof⟩ .line =
          (t, ⟨file, t :: passed, rest, eof⟩) := rfl
      have hkind : t.kind ≠ .eof := kind_ne_eof_of_mem hc List.mem_cons_self
      rw [hnext]
      by_cases hline : t.isLineEnd = true
      · rw [if_pos (.inl hline)]
        simp [Cursor.readLine, Cursor.advance, hline]
      · rw [if_neg (not_or.mpr ⟨hline, hkind⟩)]
        show _ = Except.ok (tokens ++ [t] ++ (Cursor.readLine ⟨file, t :: passed, rest, eof⟩).1,
          (Cursor.readLine ⟨file, t :: passed, rest, eof⟩).2)
        simp [Cursor.readLine, hline]

/-! ## Asterisks, type names and dimensions -/

/-- A round of counting asterisks: the token in hand is one. -/
def pointerDepthRound (again : Token → Reader (Nat × Token)) (token : Token) :
    Reader (Nat × Token) :=
  if token.text = "*" then do
    let token ← next
    let (depth, token) ← again token
    pure (depth + 1, token)
  else pure (0, token)

/-- Counts all asterisks, starting with `token`. -/
def allAsterisks (token : Token) : Reader (Nat × Token) := do
  pointerDepth ((← ahead) + 1) token

/-- A token of which something is true that is not true of the end counts while it is in hand. -/
theorem held_of_text {t : Token} (ht : IsHand (some t)) (p : String → Prop) (h : p t.text)
    (hend : ¬ p "") : held (some t) = 1 := by
  refine if_neg fun hkind => hend ?_
  rwa [ht t rfl hkind] at h

theorem held_le (hand : Option Token) : held hand ≤ 1 := by
  unfold held
  split
  · split <;> omega
  · omega

/-- If nothing is unread, the end is in hand, and nothing is written there. -/
theorem text_of_unread {t : Token} {c : Cursor} (ht : IsHand (some t)) (h : unread (some t) c = 0) :
    t.kind = .eof ∧ t.text = "" := by
  have hkind : t.kind = .eof := by
    by_contra hkind
    have hone : held (some t) = 1 := if_neg hkind
    unfold unread at h
    omega
  exact ⟨hkind, ht t rfl hkind⟩

theorem forward_pointerDepthRound (f : Token → Reader (Nat × Token)) (hf : ∀ t, Forward (f t))
    (t : Token) : Forward (pointerDepthRound f t) := by
  refine .ite (Forward.next.bind fun following => ?_) (.pure _)
  exact (hf following).bind fun _ => .pure _

/-- Asterisks are counted up to a bound. -/
theorem unrolls_pointerDepth : Unrolls Forward some pointerDepthRound pointerDepth := by
  refine ⟨forward_pointerDepthRound, ?_, forward_pointerDepth, fun b t => rfl, ?_⟩
  · refine descends_of_agree fun n f g _ _ hfg t ht => .ite (fun hstar => ?_) fun _ => .refl _
    rw [held_of_text ht (· = "*") hstar (by decide)]
    exact .next_bind fun following hfollowing => (hfg following hfollowing).same_bind _
  · intro t c ht _ hnone
    have htext : t.text ≠ "*" := by
      rw [(text_of_unread ht hnone).2]
      decide
    rw [Comparison.pointerDepth_of_text_ne htext, Comparison.pointerDepth_of_text_ne htext]

/-- Counting asterisks is a loop. -/
theorem isLoop_pointerDepth : IsLoop Forward some pointerDepthRound allAsterisks := by
  refine unrolls_pointerDepth.isLoop (fun t c => ⟨c.ahead.length + 1, ?_, rfl⟩) ?_
  · exact Nat.add_le_add_left (held_le _) _
  · exact fun t => Forward.ahead.bind fun n => forward_pointerDepth _ t

/-- A round of collecting a type name, given its parts so far and the token in hand: asterisks and
`const` are passed over, and a qualifier is not the last part. -/
def typeNameRound (again : List String × Token → Reader (String × Token)) :
    List String × Token → Reader (String × Token)
  | (parts, token) =>
    if token.text = "*" ∨ isConst token.text then do
      let token ← next
      again (parts, token)
    else if token.kind ≠ .ident then fail token "type name" "field"
    else do
      let parts := parts ++ [token.text]
      let following ← next
      if isTypeQualifier token.text then again (parts, following)
      else pure (" ".intercalate parts, following)

/-- Collects a type name, given its parts so far and the token in hand. -/
def wholeTypeName (p : List String × Token) : Reader (String × Token) := do
  typeName ((← ahead) + 2) p.1 p.2

/-- Collecting a type name is a loop. -/
theorem isLoop_typeName :
    IsLoop Forward (fun p : List String × Token => some p.2) typeNameRound wholeTypeName := by
  have hunrolls : Unrolls Forward (fun p : List String × Token => some p.2) typeNameRound
      fun b p => typeName (b + 1) p.1 p.2 := by
    have hforward (b : Nat) (p : List String × Token) : Forward (typeName b p.1 p.2) :=
      forward_typeName b p.1 p.2
    refine .of_descends ?_ ?_ hforward fun b p => rfl
    · rintro f hf ⟨parts, t⟩
      refine .ite (Forward.next.bind fun following => hf _) (.ite (.fail _ _ _) ?_)
      exact Forward.next.bind fun following => .ite (hf _) (.pure _)
    · refine descends_of_agree fun n f g _ _ hfg p hp => ?_
      obtain ⟨parts, t⟩ := p
      have hagain (parts : List String) (following : Token) (hfollowing : IsHand (some following)) :
          AgreeBelow (n - held (some following)) (f (parts, following)) (g (parts, following)) :=
        hfg (parts, following) hfollowing
      refine .ite (fun hpassed => ?_) fun _ => .ite (fun _ => .refl _) fun hkind => ?_
      · rw [held_of_text hp (fun text => text = "*" ∨ isConst text = true) hpassed (by decide)]
        exact .next_bind (hagain parts)
      · have hne : t.kind ≠ .eof := by
          rw [Classical.not_not.mp hkind]
          decide
        rw [show held (some t) = 1 from if_neg hne]
        refine .next_bind fun following hfollowing => .ite (fun _ => ?_) fun _ => .refl _
        exact hagain _ following hfollowing
  refine hunrolls.isLoop (fun p c => ⟨c.ahead.length + 1, ?_, rfl⟩) ?_
  · exact Nat.add_le_add_left (held_le _) _
  · exact fun p => Forward.ahead.bind fun n => forward_typeName _ p.1 p.2

/-- A round of reading dimensions: the token in hand opens one. -/
def dimensionsRound (symbols : SymbolTable) (typeName : String)
    (again : Token → Reader (List Int × Token)) (token : Token) : Reader (List Int × Token) :=
  if token.text = "[" then do
    let size ← next
    let n ← dimension symbols typeName size
    let _ ← expect "]" ("array of " ++ typeName)
    let token ← next
    let (rest, token) ← again token
    pure (n :: rest, token)
  else pure ([], token)

/-- Reads all dimensions, starting with `token`. -/
def allDimensions (symbols : SymbolTable) (typeName : String) (token : Token) :
    Reader (List Int × Token) := do
  dimensions symbols typeName ((← ahead) + 1) token

/-- Dimensions are read up to a bound. -/
theorem unrolls_dimensions (symbols : SymbolTable) (typeName : String) :
    Unrolls Forward some (dimensionsRound symbols typeName) (dimensions symbols typeName) := by
  refine ⟨?_, ?_, forward_dimensions symbols typeName, fun b t => rfl, ?_⟩
  · intro f hf t
    refine .ite (Forward.next.bind fun size => ?_) (.pure _)
    refine (forward_dimension symbols typeName size).bind fun n => (Forward.expect _ _).bind fun _ => ?_
    exact Forward.next.bind fun following => (hf following).bind fun _ => .pure _
  · refine descends_of_agree fun n f g _ _ hfg t ht => .ite (fun hopen => ?_) fun _ => .refl _
    rw [held_of_text ht (· = "[") hopen (by decide)]
    refine .forward_bind .next fun size => .forward_bind (forward_dimension symbols typeName size) ?_
    refine fun _ => .forward_bind (.expect _ _) fun _ => ?_
    exact .next_bind fun following hfollowing => (hfg following hfollowing).same_bind _
  · intro t c ht _ hnone
    have htext : t.text ≠ "[" := by
      rw [(text_of_unread ht hnone).2]
      decide
    rw [Comparison.dimensions_of_text_ne htext, Comparison.dimensions_of_text_ne htext]

/-- Reading dimensions is a loop. -/
theorem isLoop_dimensions (symbols : SymbolTable) (typeName : String) :
    IsLoop Forward some (dimensionsRound symbols typeName) (allDimensions symbols typeName) := by
  refine (unrolls_dimensions symbols typeName).isLoop
    (fun t c => ⟨c.ahead.length + 1, ?_, rfl⟩) ?_
  · exact Nat.add_le_add_left (held_le _) _
  · exact fun t => Forward.ahead.bind fun n => forward_dimensions symbols typeName _ t

/-! ## Arguments and expressions -/

/-- A round of passing over arguments, of which `depth` parentheses are open. -/
def argumentsRound (again : Nat → Reader Unit) (depth : Nat) : Reader Unit := do
  let token ← next
  if token.text = "(" then again (depth + 1)
  else if token.text = ")" then if depth ≤ 1 then pure () else again (depth - 1)
  else if token.kind = .eof then fail token ")" "annotation arguments"
  else again depth

/-- Passes over arguments, of which `depth` parentheses are open. -/
def argumentsFrom (depth : Nat) : Reader Unit := do
  let c ← get
  match argumentsLength? depth c.ahead with
  | some n => set { c with passed := (c.ahead.take n).reverse ++ c.passed, ahead := c.ahead.drop n }
  | none => fail c.eof ")" "annotation arguments"

/-- A round of reading the expression of a constant, given the tokens so far. -/
def expressionRound (ident : String) (again : List Token → Reader (List Token × Token))
    (tokens : List Token) : Reader (List Token × Token) := do
  let context := "value of enum field " ++ ident
  let token ← next
  if endsExpression token then
    if tokens = [] then fail token "expression" context else pure (tokens, token)
  else if token.kind = .eof then fail token "\x7d" context
  else again (tokens ++ [token])

/-- Reads the expression of a constant behind the tokens so far. -/
def expressionFrom (ident : String) (tokens : List Token) : Reader (List Token × Token) := fun c =>
  expressionEnd ident
    (tokens ++ (c.ahead.takeWhile fun t => !endsExpression t).filter fun t => !t.isLineEnd)
    { c with
      passed := (c.ahead.takeWhile fun t => !endsExpression t).reverse ++ c.passed
      ahead := c.ahead.drop (c.ahead.takeWhile fun t => !endsExpression t).length }

/-- A token is read behind the line ends ahead of it, or the end of the header is. -/
theorem next_cases_of_isCut {c : Cursor} (hc : c.IsCut) : ∃ ends : List Token, (∀ e ∈ ends, e.IsBreak) ∧
    ((c.ahead = ends ∧ c.next .code = (c.eof, ⟨c.file, ends.reverse ++ c.passed, [], c.eof⟩)) ∨
      ∃ t rest, c.ahead = ends ++ t :: rest ∧ t.isLineEnd = false ∧ t.kind ≠ .eof ∧
        c.next .code = (t, ⟨c.file, t :: (ends.reverse ++ c.passed), rest, c.eof⟩)) := by
  obtain ⟨file, passed, tokens, eof⟩ := c
  have hends : ∀ e ∈ tokens.takeWhile Token.isLineEnd, e.isLineEnd = true :=
    List.all_eq_true.mp List.all_takeWhile
  have hsplit : tokens.takeWhile Token.isLineEnd ++ tokens.dropWhile Token.isLineEnd = tokens :=
    List.takeWhile_append_dropWhile
  refine ⟨tokens.takeWhile Token.isLineEnd, fun e he => ?_, ?_⟩
  · rcases (hc.ahead e (hsplit ▸ List.mem_append_left _ he)).isCode_or_isBreak with hcode | hbreak
    · have hline := hends e he
      rw [Token.isLineEnd_of_isCode hcode] at hline
      cases hline
    · exact hbreak
  · cases hrest : tokens.dropWhile Token.isLineEnd with
    | nil =>
      rw [hrest, List.append_nil] at hsplit
      refine .inl ⟨hsplit.symm, ?_⟩
      dsimp only
      generalize tokens.takeWhile Token.isLineEnd = ends at hends hsplit
      subst hsplit
      have hsettle := Cursor.settle_append_breaks file passed [] eof hends
      rw [List.append_nil] at hsettle
      rw [Cursor.next, hsettle]
      rfl
    | cons t rest =>
      have hline : t.isLineEnd = false := by
        have hhead := List.head?_dropWhile_not Token.isLineEnd tokens
        rw [hrest] at hhead
        simpa using hhead
      rw [hrest] at hsplit
      have hmem : t ∈ tokens := by
        rw [← hsplit]
        exact List.mem_append_right _ List.mem_cons_self
      have hkind : t.kind ≠ .eof := kind_ne_eof_of_mem hc hmem
      refine .inr ⟨t, rest, hsplit.symm, hline, hkind, ?_⟩
      dsimp only
      generalize tokens.takeWhile Token.isLineEnd = ends at hends hsplit
      subst hsplit
      exact Cursor.next_breaks_code file passed rest eof hends hline

/-- What passes over line ends, stops at the end of the header and takes the first token otherwise is
reading a token and going on from there. -/
theorem eq_next_bind {α : Type} {m : Reader α} {k : Token → Reader α}
    (hbreaks : ∀ file passed ends rest eof, (∀ e ∈ ends, e.IsBreak) →
      m ⟨file, passed, ends ++ rest, eof⟩ = m ⟨file, ends.reverse ++ passed, rest, eof⟩)
    (hend : ∀ file passed eof, eof.kind = .eof → eof.text = "" →
      m ⟨file, passed, [], eof⟩ = k eof ⟨file, passed, [], eof⟩)
    (htoken : ∀ file passed t rest eof, t.isLineEnd = false → t.kind ≠ .eof →
      m ⟨file, passed, t :: rest, eof⟩ = k t ⟨file, t :: passed, rest, eof⟩)
    {c : Cursor} (hc : c.IsCut) : m c = (next >>= k : Reader α) c := by
  obtain ⟨ends, hends, hcases⟩ := next_cases_of_isCut hc
  have hread : (next >>= k : Reader α) c = k (c.next .code).1 (c.next .code).2 := rfl
  obtain ⟨file, passed, ahead, eof⟩ := c
  rw [hread]
  obtain ⟨rfl, hnext⟩ | ⟨t, rest, rfl, hline, hkind, hnext⟩ := hcases
  · rw [hnext, ← hend file _ eof hc.kind hc.text, ← hbreaks file passed ahead [] eof hends,
      List.append_nil]
  · rw [hnext, hbreaks file passed ends _ eof hends, htoken file _ t rest eof hline hkind]

section

variable {ident file : String} {tokens passed ends rest : List Token} {t eof : Token}

/-- Line ends are no part of an expression. -/
theorem expressionFrom_breaks (hends : ∀ e ∈ ends, e.IsBreak) :
    expressionFrom ident tokens ⟨file, passed, ends ++ rest, eof⟩ =
      expressionFrom ident tokens ⟨file, ends.reverse ++ passed, rest, eof⟩ := by
  have hcovered : ∀ e ∈ ends, (!endsExpression e) = true := fun e he =>
    not_endsExpression_of_isBreak (hends e he)
  have hnone : (ends.filter fun t => !t.isLineEnd) = [] :=
    List.filter_eq_nil_iff.mpr fun e he => by simp [(hends e he).isLineEnd]
  rw [expressionFrom, expressionFrom]
  dsimp only
  rw [List.takeWhile_append_of_pos hcovered, List.filter_append, hnone, List.nil_append,
    List.length_append, List.drop_length_add_append, List.reverse_append, List.append_assoc]

/-- The token that ends an expression is read behind it. -/
theorem expressionFrom_end (hends : endsExpression t = true) (hline : t.isLineEnd = false)
    (hkind : t.kind ≠ .eof) : expressionFrom ident tokens ⟨file, passed, t :: rest, eof⟩ =
      (if tokens = [] then fail t "expression" ("value of enum field " ++ ident)
        else pure (tokens, t) : Reader (List Token × Token)) ⟨file, t :: passed, rest, eof⟩ := by
  have hread : next ⟨file, passed, t :: rest, eof⟩ = .ok (t, ⟨file, t :: passed, rest, eof⟩) := by
    show Except.ok (Cursor.next _ .code) = _
    rw [Cursor.next, Cursor.settle_cons_code _ _ _ _ hline]
    rfl
  have hnone : ((t :: rest).takeWhile fun t => !endsExpression t) = [] :=
    List.takeWhile_cons_of_neg (by simp [hends])
  rw [expressionFrom]
  dsimp only
  rw [hnone, List.filter_nil, List.append_nil, List.reverse_nil, List.nil_append, List.length_nil,
    List.drop_zero, expressionEnd]
  dsimp only
  rw [reader_bind hread, if_neg hkind]
  by_cases hempty : tokens = []
  · rw [if_pos hempty, if_pos hempty]
    rfl
  · rw [if_neg hempty, if_neg hempty]

/-- Any other token is one of the expression. -/
theorem expressionFrom_cons (hends : ¬ endsExpression t = true) (hline : t.isLineEnd = false) :
    expressionFrom ident tokens ⟨file, passed, t :: rest, eof⟩ =
      expressionFrom ident (tokens ++ [t]) ⟨file, t :: passed, rest, eof⟩ := by
  have hmore : ((t :: rest).takeWhile fun t => !endsExpression t) =
      t :: rest.takeWhile fun t => !endsExpression t :=
    List.takeWhile_cons_of_pos (by simp [hends])
  rw [expressionFrom, expressionFrom]
  dsimp only
  rw [hmore, List.filter_cons_of_pos (by simp [hline])]
  simp

/-- The end of the header ends no expression. -/
theorem expressionFrom_eof (hkind : eof.kind = .eof) :
    expressionFrom ident tokens ⟨file, passed, [], eof⟩ =
      (fail eof "\x7d" ("value of enum field " ++ ident) : Reader (List Token × Token))
        ⟨file, passed, [], eof⟩ := by
  show (if eof.kind = .eof then _ else _ : Reader (List Token × Token)) _ = _
  rw [if_pos hkind]
  rfl

end

/-- Reading the expression of a constant is a loop. -/
theorem isLoop_expression (ident : String) :
    IsLoop Forward (fun _ => none) (expressionRound ident) (expressionFrom ident) := by
  refine .of_unfolds ?_ ?_ ?_ ?_
  · intro f hf tokens
    refine Forward.next.bind fun token => .ite (.ite (.fail _ _ _) (.pure _)) ?_
    exact .ite (.fail _ _ _) (hf _)
  · refine descends_of_agree fun n f g _ _ hfg tokens _ => .next_bind fun t _ => ?_
    refine .ite (fun _ => .refl _) fun _ => .ite (fun _ => .refl _) fun hkind => ?_
    rw [show held (some t) = 1 from if_neg hkind]
    exact hfg _ (by rintro _ ⟨⟩)
  · intro tokens c p c' h
    refine (c.isBefore_takeWhile fun t => !endsExpression t).trans (Forward.bind .next ?_ _ p c' h)
    exact fun t => .ite (.fail _ _ _) (.ite (.fail _ _ _) (.pure _))
  · intro tokens c _ hc
    refine eq_next_bind (fun _ _ _ _ _ => expressionFrom_breaks) ?_ ?_ hc
    · intro file passed eof hkind htext
      have hother : ¬ endsExpression eof = true := by
        rw [endsExpression, htext]
        decide
      rw [expressionFrom_eof hkind, if_neg hother, if_pos hkind]
    · intro file passed t rest eof hline hkind
      by_cases hends : endsExpression t = true
      · rw [expressionFrom_end hends hline hkind, if_pos hends]
      · rw [expressionFrom_cons hends hline, if_neg hends, if_neg hkind]

section

variable {file : String} {passed ends rest : List Token} {t eof : Token} {depth : Nat}

/-- A token that leads to another depth is passed over. -/
theorem argumentsFrom_cons {depth' : Nat}
    (h : argumentsLength? depth (t :: rest) = (argumentsLength? depth' rest).map (· + 1)) :
    argumentsFrom depth ⟨file, passed, t :: rest, eof⟩ =
      argumentsFrom depth' ⟨file, t :: passed, rest, eof⟩ := by
  rw [argumentsFrom, argumentsFrom, get_bind, get_bind]
  dsimp only
  rw [h]
  cases argumentsLength? depth' rest with
  | none => rfl
  | some n =>
    show Except.ok ((), (⟨file, (t :: rest.take n).reverse ++ passed, rest.drop n, eof⟩ : Cursor)) = _
    rw [List.reverse_cons, List.append_assoc]
    rfl

/-- Line ends are passed over. -/
theorem argumentsFrom_breaks (hends : ∀ e ∈ ends, e.IsBreak) :
    argumentsFrom depth ⟨file, passed, ends ++ rest, eof⟩ =
      argumentsFrom depth ⟨file, ends.reverse ++ passed, rest, eof⟩ := by
  induction ends generalizing passed with
  | nil => rfl
  | cons e ends ih =>
    obtain ⟨he, hends⟩ := List.forall_mem_cons.mp hends
    obtain ⟨hopen, hclose⟩ := he.not_parenthesis
    rw [List.cons_append,
      argumentsFrom_cons (by rw [argumentsLength?, if_neg hopen, if_neg hclose]), ih hends,
      List.reverse_cons, List.append_assoc]
    rfl

end

/-- Passing over arguments is a loop. -/
theorem isLoop_arguments : IsLoop Forward (fun _ => none) argumentsRound argumentsFrom := by
  refine .of_unfolds ?_ ?_ ?_ ?_
  · intro f hf depth
    refine Forward.next.bind fun token => .ite (hf _) (.ite (.ite (.pure ()) (hf _)) ?_)
    exact .ite (.fail _ _ _) (hf _)
  · refine descends_of_agree fun n f g _ _ hfg depth _ => .next_bind fun t ht => ?_
    have hagain (depth : Nat) : AgreeBelow n (f depth) (g depth) := hfg depth (by rintro _ ⟨⟩)
    refine .ite (fun hopen => ?_) fun _ => .ite (fun hclose => ?_) fun _ => ?_
    · rw [held_of_text ht (· = "(") hopen (by decide)]
      exact hagain _
    · rw [held_of_text ht (· = ")") hclose (by decide)]
      exact .ite (fun _ => .refl _) fun _ => hagain _
    · refine .ite (fun _ => .refl _) fun hkind => ?_
      rw [show held (some t) = 1 from if_neg hkind]
      exact hagain _
  · intro depth c u c' h
    rw [argumentsFrom, get_bind] at h
    cases hn : argumentsLength? depth c.ahead <;> rw [hn] at h <;> cases h
    exact c.isBefore_take _
  · intro depth c _ hc
    refine eq_next_bind (fun _ _ _ _ _ => argumentsFrom_breaks) ?_ ?_ hc
    · intro file passed eof hkind htext
      have hother : eof.text ≠ "(" ∧ eof.text ≠ ")" := by
        rw [htext]
        decide
      rw [if_neg hother.1, if_neg hother.2, if_pos hkind]
      rfl
    · intro file passed t rest eof _ hkind
      by_cases hopen : t.text = "("
      · rw [if_pos hopen, argumentsFrom_cons (by rw [argumentsLength?, if_pos hopen])]
      by_cases hclose : t.text = ")"
      · rw [if_neg hopen, if_pos hclose]
        by_cases hlast : depth ≤ 1
        · have hlength : argumentsLength? depth (t :: rest) = some 1 := by
            rw [argumentsLength?, if_neg hopen, if_pos hclose, if_pos hlast]
          rw [if_pos hlast, argumentsFrom, get_bind]
          dsimp only
          rw [hlength]
          rfl
        · rw [if_neg hlast, argumentsFrom_cons
            (by rw [argumentsLength?, if_neg hopen, if_pos hclose, if_neg hlast])]
      · rw [if_neg hopen, if_neg hclose, if_neg hkind,
          argumentsFrom_cons (by rw [argumentsLength?, if_neg hopen, if_neg hclose])]

end SdkBindings.Grammar
