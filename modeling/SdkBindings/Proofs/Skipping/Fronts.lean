import SdkBindings.Proofs.Fields.Lists
import SdkBindings.Proofs.Grammar.Code

/-!
# Readers see no further than they read

Of two cursors that stand in front of the same tokens, behind which different ones follow, a reader makes
the same as long as it stops within the common tokens (`Exchange.Follows`): it stops at the same place
with the same result.  Readers in a row do so if each of them does (`Follows.bind`), because what comes
first has to stop within the common tokens as well.

A token that is only looked at may be the first one behind the common tokens.  Whoever looks at a token
has to go on and take it (`Takes.peek_bind`).

The bounds of the loops differ on the two sides, as what follows does.  All that matters is that they
are no smaller than the number of tokens of code in common.
-/

namespace SdkBindings

open Grammar Grammar.Reader

/-! ## How much is read -/

namespace Grammar

section

variable {α β : Type} {j k : Nat}

/-- A reader that succeeds takes at least `j` tokens of code, if as many are ahead. -/
def Advances (j : Nat) (m : Reader α) : Prop :=
  ∀ c a c', m c = .ok (a, c') → c'.code.length ≤ c.code.length - j

/-- Ahead of a later cursor there is no more code. -/
theorem length_code_le {c c' : Cursor} (h : c.IsBefore c') : c'.code.length ≤ c.code.length := by
  obtain ⟨-, -, read, -, hahead⟩ := h
  rw [Cursor.code, Cursor.code, hahead, List.filter_append, List.length_append]
  exact Nat.le_add_left _ _

namespace Advances

/-- Whoever moves forward puts nothing back. -/
theorem of_forward {m : Reader α} (h : Forward m) : Advances 0 m :=
  fun c a c' hread => length_code_le (h c a c' hread)

/-- Readers in a row take what each of them takes. -/
theorem bind {m : Reader α} {f : α → Reader β} (hm : Advances j m) (hf : ∀ a, Advances k (f a)) :
    Advances (j + k) (m >>= f) := by
  intro c b c'' h
  obtain ⟨a, c', ha, hb⟩ := reader_bind_ok h
  have hfirst := hm c a c' ha
  have hsecond := hf a c' b c'' hb
  omega

/-- Whatever moves forward may come first. -/
theorem forward_bind {m : Reader α} {f : α → Reader β} (hm : Forward m) (hf : ∀ a, Advances k (f a)) :
    Advances k (m >>= f) := by
  have h := (of_forward hm).bind hf
  rwa [Nat.zero_add] at h

/-- A single read takes a token. -/
theorem next : Advances 1 Reader.next := by
  rintro c _ _ ⟨⟩
  cases hcode : c.code with
  | nil =>
    have hle := length_code_le (c.isBefore_next .code)
    rwa [hcode] at hle
  | cons t rest =>
    obtain ⟨-, hrest⟩ := Cursor.next_of_code hcode
    show (c.next .code).2.code.length ≤ _
    rw [hrest]
    exact Nat.le_refl _

end Advances

end

end Grammar

/-! ## Exchanging what follows -/

/-- Tokens that are exchanged for others.  The first one is no line end. -/
structure Exchange where
  /-- The first token. -/
  mark : Token
  /-- What follows it. -/
  more : List Token
  /-- What stands there instead. -/
  new : List Token
  /-- The first token is no line end. -/
  isLineEnd_mark : mark.isLineEnd = false

namespace Exchange

/-- The tokens that are exchanged. -/
def old (E : Exchange) : List Token :=
  E.mark :: E.more

section

variable {E : Exchange} {front front' : List Token} {c d : Cursor}

/-- The first token that is exchanged is code. -/
theorem length_code_old_pos (E : Exchange) : 0 < (E.old.filter fun t => !t.isLineEnd).length := by
  rw [old, List.filter_cons_of_pos (by rw [E.isLineEnd_mark]; rfl)]
  exact Nat.succ_pos _

/-- Behind the first token that is exchanged there is too little left. -/
theorem more_ne (front : List Token) : E.more ≠ front ++ E.old := by
  intro h
  have hlength := congrArg List.length h
  rw [old, List.length_append, List.length_cons] at hlength
  omega

/-- Either the common tokens are line ends, and what is exchanged comes next, or the first token of code
comes next on both sides. -/
theorem first_token (hc : c.ahead = front ++ E.old) (hd : d.ahead = front ++ E.new) :
    (c.settle .code).ahead = E.old ∨
      ∃ t more, t.isLineEnd = false ∧
        (front.filter fun t => !t.isLineEnd) = t :: more.filter (fun t => !t.isLineEnd) ∧
        (c.settle .code).ahead = t :: (more ++ E.old) ∧
        (d.settle .code).ahead = t :: (more ++ E.new) := by
  cases hcode : front.filter fun t => !t.isLineEnd with
  | nil =>
    have hends : ∀ t ∈ front, t.isLineEnd = true := fun t ht => by
      simpa using List.filter_eq_nil_iff.mp hcode t ht
    left
    rw [c.settle_ahead, hc, List.dropWhile_append_of_pos hends, old,
      List.dropWhile_cons_of_neg (by rw [E.isLineEnd_mark]; exact Bool.false_ne_true)]
  | cons t ts =>
    obtain ⟨ends, more, rfl, hends, ht, rfl⟩ := List.filter_eq_cons_iff.mp hcode
    have hends : ∀ e ∈ ends, e.isLineEnd = true := fun e he => by simpa using hends e he
    have ht : t.isLineEnd = false := by simpa using ht
    have hstop (rest : List Token) :
        (ends ++ t :: more ++ rest).dropWhile Token.isLineEnd = t :: (more ++ rest) := by
      rw [List.append_assoc, List.dropWhile_append_of_pos hends, List.cons_append,
        List.dropWhile_cons_of_neg (by rw [ht]; exact Bool.false_ne_true)]
    refine .inr ⟨t, more, ht, rfl, ?_, ?_⟩
    · rw [c.settle_ahead, hc, hstop]
    · rw [d.settle_ahead, hd, hstop]

/-- What stays in common is no more code than there was, less what has been taken. -/
theorem length_code_front {j : Nat} {c' : Cursor} (hc : c.ahead = front ++ E.old)
    (hc' : c'.ahead = front' ++ E.old) (h : c'.code.length ≤ c.code.length - j) :
    (front'.filter fun t => !t.isLineEnd).length + j ≤ (front.filter fun t => !t.isLineEnd).length := by
  have hold := E.length_code_old_pos
  rw [Cursor.code, Cursor.code, hc, hc', List.filter_append, List.filter_append, List.length_append,
    List.length_append] at h
  omega

end

/-! ## Readers -/

section

variable (E : Exchange) {α β : Type}

/-- Where the first reader stops within the common tokens, fewer than `n` of which are code, the second
one stops at the same place with the same result. -/
structure Follows (n : Nat) (m m' : Reader α) : Prop where
  /-- The first reader moves forward. -/
  forward : Forward m
  /-- The second one follows it. -/
  same {front front' : List Token} {c d : Cursor} {a : α} {c' : Cursor} :
    (front.filter fun t => !t.isLineEnd).length < n → c.ahead = front ++ E.old →
      d.ahead = front ++ E.new → m c = .ok (a, c') → c'.ahead = front' ++ E.old →
      ∃ d', m' d = .ok (a, d') ∧ d'.ahead = front' ++ E.new

variable {E} {n : Nat} {m m' : Reader α} {k k' : α → Reader β}

namespace Follows

/-- Where fewer tokens are in common. -/
theorem mono {l : Nat} (h : E.Follows n m m') (hl : l ≤ n) : E.Follows l m m' :=
  ⟨h.forward, fun hlength => h.same (Nat.lt_of_lt_of_le hlength hl)⟩

/-- No tokens are fewer than none. -/
theorem zero (h : Forward m) : E.Follows 0 m m' :=
  ⟨h, fun hlength => absurd hlength (Nat.not_lt_zero _)⟩

/-- Reading nothing. -/
theorem pure (a : α) : E.Follows n (Pure.pure a : Reader α) (Pure.pure a) := by
  refine ⟨.pure a, ?_⟩
  rintro front front' c d _ _ - hc hd ⟨⟩ hend
  obtain rfl : front = front' := List.append_cancel_right (hc.symm.trans hend)
  exact ⟨d, rfl, hd⟩

/-- A failure does not stop anywhere. -/
theorem fail {token : Token} {expected context : String} :
    E.Follows n (Reader.fail token expected context) m' := by
  refine ⟨.fail token expected context, ?_⟩
  rintro front front' c d _ _ - - - ⟨⟩

/-- Nor does a failure without a place. -/
theorem throw {f : Failure} : E.Follows n (MonadExcept.throw f : Reader α) m' := by
  refine ⟨?_, ?_⟩
  · rintro c _ _ ⟨⟩
  · rintro front front' c d _ _ - - - ⟨⟩

/-- Nothing comes after a failure. -/
theorem fail_bind {token : Token} {expected context : String} {l : Reader β} :
    E.Follows n (Reader.fail token expected context >>= k) l := by
  refine ⟨?_, ?_⟩
  · rintro c _ _ ⟨⟩
  · rintro front front' c d _ _ - - - ⟨⟩

/-- Readers in a row, the first of which takes `j` tokens. -/
theorem advancing_bind {j : Nat} (hm : E.Follows n m m') (hadvances : Advances j m)
    (hk : ∀ a, E.Follows (n - j) (k a) (k' a)) : E.Follows n (m >>= k) (m' >>= k') := by
  refine ⟨hm.forward.bind fun a => (hk a).forward, ?_⟩
  intro front front'' c d b c'' hlength hc hd h hend
  obtain ⟨a, c', ha, hb⟩ := reader_bind_ok h
  -- the first one stops within the common tokens because the second one does
  obtain ⟨-, -, read, -, hread⟩ := (hk a).forward c' b c'' hb
  rw [hend, ← List.append_assoc] at hread
  obtain ⟨d', ha', hd'⟩ := hm.same hlength hc hd ha hread
  have htaken := length_code_front hc hread (hadvances c a c' ha)
  have hleft : ((read ++ front'').filter fun t => !t.isLineEnd).length < n - j := by omega
  obtain ⟨d'', hb', hd''⟩ := (hk a).same hleft hread hd' hb hend
  refine ⟨d'', ?_, hd''⟩
  show (m' d >>= fun p => k' p.1 p.2) = _
  rw [ha']
  exact hb'

/-- Readers in a row. -/
theorem bind (hm : E.Follows n m m') (hk : ∀ a, E.Follows n (k a) (k' a)) :
    E.Follows n (m >>= k) (m' >>= k') :=
  hm.advancing_bind (.of_forward hm.forward) hk

/-- Readers chosen by a condition. -/
theorem ite {p : Prop} [Decidable p] {l l' : Reader α} (hm : p → E.Follows n m m')
    (hl : ¬ p → E.Follows n l l') : E.Follows n (if p then m else l) (if p then m' else l') := by
  by_cases hp : p
  · rw [if_pos hp, if_pos hp]
    exact hm hp
  · rw [if_neg hp, if_neg hp]
    exact hl hp

/-- A single read. -/
theorem next : E.Follows n Reader.next Reader.next := by
  refine ⟨.next, ?_⟩
  rintro front front' c d _ _ - hc hd ⟨⟩ hend
  rcases first_token hc hd with hc | ⟨t, more, -, -, hc, hd⟩
  · refine absurd ?_ (more_ne (E := E) front')
    simpa [Cursor.advance, hc, old] using hend
  · refine ⟨(d.next .code).2, ?_, ?_⟩
    · show Except.ok (d.next .code) = _
      simp [Cursor.next, Cursor.current, hc, hd]
    · have hfront : more = front' := by simpa [Cursor.advance, hc] using hend
      simp [Cursor.next, Cursor.advance, hd, hfront]

/-- A read in front of what it decides. -/
theorem next_bind {k k' : Token → Reader β} (hk : ∀ t, E.Follows (n - 1) (k t) (k' t)) :
    E.Follows n (Reader.next >>= k) (Reader.next >>= k') :=
  next.advancing_bind .next hk

/-- The numbers of tokens ahead are no smaller than that of the common tokens of code. -/
theorem ahead_bind {k k' : Nat → Reader β}
    (hk : ∀ l ≤ n, ∀ b b', l ≤ b + 1 → l ≤ b' + 1 → E.Follows l (k b) (k' b')) :
    E.Follows n (Reader.ahead >>= k) (Reader.ahead >>= k') := by
  have hforward (b : Nat) : Forward (k b) :=
    (hk 0 (Nat.zero_le n) b b (Nat.zero_le _) (Nat.zero_le _)).forward
  refine ⟨Forward.ahead.bind hforward, ?_⟩
  intro front front' c d b c' hlength hc hd h hend
  have hle (l : List Token) : (front.filter fun t => !t.isLineEnd).length ≤ (front ++ l).length := by
    rw [List.length_append]
    exact Nat.le_trans (List.length_filter_le _ _) (Nat.le_add_right _ _)
  exact (hk _ hlength c.ahead.length d.ahead.length (Nat.succ_le_succ (hc ▸ hle E.old))
    (Nat.succ_le_succ (hd ▸ hle E.new))).same (Nat.lt_succ_self _) hc hd h hend

/-- A token that has to have a text. -/
theorem expect (text context : String) :
    E.Follows n (Reader.expect text context) (Reader.expect text context) :=
  next.bind fun t => .ite (fun _ => .pure t) fun _ => .fail

/-- A token that has to be of a kind. -/
theorem expectKind (kind : Token.Kind) (context : String) :
    E.Follows n (Reader.expectKind kind context) (Reader.expectKind kind context) :=
  next.bind fun t => .ite (fun _ => .pure t) fun _ => .fail

end Follows

/-! ## Readers that take a token -/

variable (E) in
/-- The second reader follows the first one, which takes a token of code. -/
structure Takes (n : Nat) (m m' : Reader α) : Prop extends E.Follows n m m' where
  /-- A token is taken. -/
  advances : Advances 1 m

namespace Takes

/-- A read takes a token, whatever follows it. -/
theorem next_bind {k k' : Token → Reader β} (hk : ∀ t, E.Follows (n - 1) (k t) (k' t)) :
    E.Takes n (Reader.next >>= k) (Reader.next >>= k') :=
  ⟨.next_bind hk, Advances.next.bind fun t => .of_forward (hk t).forward⟩

/-- A single read. -/
theorem next : E.Takes n Reader.next Reader.next :=
  ⟨.next, .next⟩

/-- A token that has to have a text. -/
theorem expect (text context : String) :
    E.Takes n (Reader.expect text context) (Reader.expect text context) :=
  next_bind fun t => .ite (fun _ => .pure t) fun _ => .fail

/-- What is read first may take as much as it wants. -/
theorem of_bind (hm : E.Follows n m m') (hk : ∀ a, E.Takes n (k a) (k' a)) :
    E.Takes n (m >>= k) (m' >>= k') :=
  ⟨hm.bind fun a => (hk a).toFollows, .forward_bind hm.forward fun a => (hk a).advances⟩

/-- A token that is looked at is taken by what follows. -/
theorem peek_bind {k k' : Token → Reader β} (hk : ∀ t, E.Takes n (k t) (k' t)) :
    E.Takes n (Reader.peek >>= k) (Reader.peek >>= k') := by
  refine ⟨⟨Forward.peek.bind fun t => (hk t).forward, ?_⟩,
    .forward_bind .peek fun t => (hk t).advances⟩
  intro front front' c d b c' hlength hc hd h hend
  have hread : k (c.settle .code).current (c.settle .code) = .ok (b, c') := h
  rcases first_token hc hd with hc | ⟨t, more, ht, hcode, hc, hd⟩
  · -- the token is the one that is exchanged, and it would have to be taken
    have hnone : (c.settle .code).ahead = [] ++ E.old := hc
    exact absurd (length_code_front hnone hend ((hk _).advances _ _ _ hread)) (Nat.not_succ_le_zero _)
  · have hfront : ((t :: more).filter fun t => !t.isLineEnd).length < n := by
      rwa [List.filter_cons_of_pos (by rw [ht]; rfl), ← hcode]
    obtain ⟨d', hread', hend'⟩ := (hk _).same hfront hc hd hread hend
    refine ⟨d', ?_, hend'⟩
    show k' (d.settle .code).current (d.settle .code) = _
    rw [← hread']
    simp [Cursor.current, hc, hd]

end Takes

end

end Exchange

end SdkBindings
