import SdkBindings.Proofs.Comparison.Cursors
import SdkBindings.Proofs.Fields.Lists

/-!
# Comparing two readings: readers

A reader run on alike cursors succeeds on both sides, with results that are related and cursors that
are alike again, or fails on both sides with failures that differ in their place only
(`Comparison.ReadsAlike`).  This is kept by readers in a row (`ReadsAlike.bind`) and by choices, so it
holds for every construct.

The loops of the grammar are bounded by the number of tokens ahead, which the two sides do not have
in common.  What they have in common is how much code is ahead: a relation between results says how
much is left, and a bound matters only as far as it exceeds that.
-/

namespace SdkBindings

open Lexer (Position)
open Grammar

/-! ## Outcomes -/

/-- Two computations have related results or fail with related errors. -/
inductive SameOutcome {ε ε' α β : Type} (E : ε → ε' → Prop) (R : α → β → Prop) :
    Except ε α → Except ε' β → Prop
  /-- Both have a result. -/
  | ok {a : α} {b : β} (h : R a b) : SameOutcome E R (.ok a) (.ok b)
  /-- Both fail. -/
  | error {e : ε} {f : ε'} (h : E e f) : SameOutcome E R (.error e) (.error f)

namespace SameOutcome

variable {ε ε' α α' β β' : Type} {E : ε → ε' → Prop} {R R' : α → α' → Prop} {S : β → β' → Prop}

/-- Results may be related more loosely. -/
theorem imp {m : Except ε α} {m' : Except ε' α'} (h : SameOutcome E R m m')
    (hR : ∀ a a', R a a' → R' a a') : SameOutcome E R' m m' := by
  cases h with
  | ok h => exact .ok (hR _ _ h)
  | error h => exact .error h

/-- Computations in a row. -/
theorem bind {m : Except ε α} {m' : Except ε' α'} {k : α → Except ε β} {k' : α' → Except ε' β'}
    (h : SameOutcome E R m m') (hk : ∀ a a', R a a' → SameOutcome E S (k a) (k' a')) :
    SameOutcome E S (m >>= k) (m' >>= k') := by
  cases h with
  | ok h => exact hk _ _ h
  | error h => exact .error h

end SameOutcome

/-- The same token at another place. -/
def Token.movedTo (t : Token) (p : Position) : Token :=
  { t with line := p.line, column := p.column }

namespace Comparison

variable (K : Comparison)

/-- Two errors say the same of related places. -/
structure SameError (e f : SyntaxError) : Prop where
  /-- They name the same header, -/
  file : f.file = e.file
  /-- the same that should stand there, -/
  expected : f.expected = e.expected
  /-- the same that stands there -/
  actual : f.actual = e.actual
  /-- and the same construct. -/
  context : f.context = e.context
  /-- Their places are related. -/
  place : K.place ⟨e.line, e.column⟩ ⟨f.line, f.column⟩

/-- Two failures say the same of related places. -/
inductive SameFailure : Failure → Failure → Prop
  /-- Neither header follows the grammar. -/
  | grammar {e f : SyntaxError} (h : K.SameError e f) : SameFailure (.grammar e) (.grammar f)
  /-- An expression or a number stops both. -/
  | constant (e : Constant.Error) : SameFailure (.constant e) (.constant e)
  /-- An identifier belongs to nothing. -/
  | unresolvedGuid (file interface : String) :
      SameFailure (.unresolvedGuid file interface) (.unresolvedGuid file interface)

variable {K}

/-- A token that stands for another is that token at another place. -/
theorem Matches.eq_movedTo {t u : Token} (h : K.Matches t u) : u = t.movedTo u.position := by
  obtain ⟨kind, text, line, column⟩ := u
  have hkind : kind = t.kind := h.kind
  have htext : text = t.text := h.text
  rw [hkind, htext]
  rfl

/-- Alike cursors are in headers of one name. -/
theorem Alike.file {n : Nat} {c d : Cursor} (h : K.Alike n c d) : d.file = c.file := by
  obtain ⟨_, _, h⟩ := h
  exact h.file

/-! ## Readers -/

section

variable {α α' β β' : Type}

/-- The results are the same, however much code is left. -/
def Same (_ : Nat) (a a' : α) : Prop :=
  a' = a

variable (K) in
/-- Results and the cursors behind them: the cursors are alike with no more code ahead than `n`, and
`R` relates the results and says how much code may be left. -/
def After (n : Nat) (R : Nat → α → α' → Prop) (p : α × Cursor) (q : α' × Cursor) : Prop :=
  ∃ l ≤ n, R l p.1 q.1 ∧ K.Alike l p.2 q.2

variable (K) in
/-- Two readers have the same outcome on cursors that are alike with at most `n` tokens of code
ahead, up to `R` for the results. -/
def ReadsAlike (n : Nat) (R : Nat → α → α' → Prop) (m : Reader α) (m' : Reader α') : Prop :=
  ∀ c d, K.Alike n c d → SameOutcome K.SameFailure (K.After n R) (m c) (m' d)

variable (K) in
/-- A token that was read on both sides from `n` tokens of code, of which `l` are left. -/
structure Read (n l : Nat) (t u : Token) : Prop where
  /-- The tokens stand for each other. -/
  matched : K.Matches t u
  /-- No code has been added. -/
  le : l ≤ n
  /-- A token that is not the end of the header has been taken away. -/
  lt : t.kind ≠ .eof → l < n
  /-- At the end of the header nothing is written. -/
  text_eof : t.kind = .eof → t.text = ""

variable (K) in
/-- Equal results, each with the token after what was read. -/
def AndRead (n l : Nat) (p q : α × Token) : Prop :=
  q.1 = p.1 ∧ K.Read n l p.2 q.2

variable {n l : Nat} {R : Nat → α → α' → Prop} {S : Nat → β → β' → Prop}

/-- What was read from less was read from more. -/
theorem Read.mono {m : Nat} {t u : Token} (h : K.Read m l t u) (hmn : m ≤ n) : K.Read n l t u :=
  ⟨h.matched, Nat.le_trans h.le hmn, fun hkind => Nat.lt_of_lt_of_le (h.lt hkind) hmn, h.text_eof⟩

/-- What left some code left more than less code. -/
theorem Read.lower {r : Nat} {t u : Token} (h : K.Read n l t u) (hr : r ≤ l) : K.Read n r t u :=
  ⟨h.matched, Nat.le_trans hr h.le, fun hkind => Nat.lt_of_le_of_lt hr (h.lt hkind), h.text_eof⟩

/-- A token with a text is not the end of the header. -/
theorem Read.kind_ne {t u : Token} (h : K.Read n l t u) {text : String} (htext : t.text = text)
    (hne : text ≠ "") : t.kind ≠ .eof :=
  fun hkind => hne (htext.symm.trans (h.text_eof hkind))

/-- What bounded the code before a token that is not the end of the header bounds more than what is
left. -/
theorem Read.lt_of_le {b : Nat} {t u : Token} (h : K.Read n l t u) (hb : n ≤ b) (hkind : t.kind ≠ .eof) :
    l < b :=
  Nat.lt_of_lt_of_le (h.lt hkind) hb

namespace ReadsAlike

/-- Reading nothing. -/
theorem pure {a : α} {a' : α'} (h : R n a a') : K.ReadsAlike n R (Pure.pure a) (Pure.pure a') :=
  fun _ _ halike => .ok ⟨n, Nat.le_refl n, h, halike⟩

/-- Readers in a row. -/
theorem bind {m : Reader α} {m' : Reader α'} {k : α → Reader β} {k' : α' → Reader β'}
    (hm : K.ReadsAlike n R m m')
    (hk : ∀ l a a', l ≤ n → R l a a' → K.ReadsAlike l S (k a) (k' a')) :
    K.ReadsAlike n S (m >>= k) (m' >>= k') := by
  intro c d halike
  show SameOutcome _ _ (m c >>= fun p => k p.1 p.2) (m' d >>= fun p => k' p.1 p.2)
  refine (hm c d halike).bind ?_
  rintro p q ⟨l, hl, hresult, hafter⟩
  refine (hk l _ _ hl hresult _ _ hafter).imp ?_
  rintro _ _ ⟨r, hr, hresult, hafter⟩
  exact ⟨r, Nat.le_trans hr hl, hresult, hafter⟩

/-- After the same result the same goes on being read. -/
theorem same_bind {m m' : Reader α} {k : α → Reader β} {k' : α → Reader β'}
    (hm : K.ReadsAlike n Same m m') (hk : ∀ l a, l ≤ n → K.ReadsAlike l S (k a) (k' a)) :
    K.ReadsAlike n S (m >>= k) (m' >>= k') := by
  refine hm.bind fun l a a' hl ha => ?_
  rw [show a' = a from ha]
  exact hk l a hl

/-- Readers chosen by conditions that say the same. -/
theorem ite {p p' : Prop} [Decidable p] [Decidable p'] {m k : Reader α} {m' k' : Reader α'}
    (h : p' ↔ p) (hm : p → K.ReadsAlike n R m m') (hk : ¬ p → K.ReadsAlike n R k k') :
    K.ReadsAlike n R (if p then m else k) (if p' then m' else k') := by
  by_cases hp : p
  · rw [if_pos hp, if_pos (h.mpr hp)]
    exact hm hp
  · rw [if_neg hp, if_neg fun hp' => hp (h.mp hp')]
    exact hk hp

/-- Failures at tokens of one kind and text at related places. -/
theorem fail_of {t u : Token} (hkind : u.kind = t.kind) (htext : u.text = t.text)
    (hplace : K.place t.position u.position) (expected context : String) :
    K.ReadsAlike n R (Reader.fail t expected context) (Reader.fail u expected context) := by
  intro c d halike
  refine .error (.grammar ⟨halike.file, rfl, ?_, rfl, hplace⟩)
  show u.shownText = t.shownText
  simp only [Token.shownText, hkind, htext]

/-- The same failure on both sides. -/
theorem throw (e : Constant.Error) :
    K.ReadsAlike n R (MonadExcept.throw (.constant e) : Reader α)
      (MonadExcept.throw (.constant e) : Reader α') :=
  fun _ _ _ => .error (.constant e)

/-- Failures at tokens that stand for each other. -/
theorem fail {t u : Token} (h : K.Matches t u) (expected context : String) :
    K.ReadsAlike n R (Reader.fail t expected context) (Reader.fail u expected context) :=
  fail_of h.kind h.text h.place expected context

/-- Nothing comes after a failure. -/
theorem fail_bind {t u : Token} (h : K.Matches t u) {expected context : String}
    {k : α → Reader β} {k' : α' → Reader β'} :
    K.ReadsAlike n S (Reader.fail t expected context >>= k)
      (Reader.fail u expected context >>= k') :=
  (fail (R := fun _ _ _ => False) h expected context).bind fun _ _ _ _ h => h.elim

/-- What the next token is, on both sides. -/
theorem next : K.ReadsAlike n (K.Read n) Reader.next Reader.next := by
  rintro c d ⟨inLine, previous, halike⟩
  refine .ok ?_
  rcases halike.next with ⟨hc, hd, hafter⟩ | ⟨t, u, l, inLine', hc, hd, hcode, hmatch, hlt, hafter⟩
  · refine ⟨n, Nat.le_refl n, ?_, hafter⟩
    rw [hc, hd]
    exact ⟨halike.eof, Nat.le_refl n, fun hkind => absurd halike.eof_kind hkind,
      fun _ => halike.eof_text⟩
  · refine ⟨l, Nat.le_of_lt hlt, ?_, _, _, hafter⟩
    rw [hc, hd]
    refine ⟨hmatch, Nat.le_of_lt hlt, fun _ => hlt, fun hkind => ?_⟩
    simp [Token.isCode, hkind] at hcode

/-- After the next token the same token goes on being read on both sides. -/
theorem read_bind {m m' : Reader Token} {k : Token → Reader β} {k' : Token → Reader β'}
    (hm : K.ReadsAlike n (K.Read n) m m')
    (hk : ∀ l t p, K.Read n l t (t.movedTo p) → K.ReadsAlike l S (k t) (k' (t.movedTo p))) :
    K.ReadsAlike n S (m >>= k) (m' >>= k') := by
  refine hm.bind fun l t u _ h => ?_
  have hu := h.matched.eq_movedTo
  rw [hu] at h ⊢
  exact hk l t _ h

/-- After the same result and a token the same goes on being read on both sides. -/
theorem andRead_bind {m m' : Reader (α × Token)} {k : α × Token → Reader β}
    {k' : α × Token → Reader β'} (hm : K.ReadsAlike n (K.AndRead l) m m')
    (hk : ∀ r a t p, r ≤ n → K.Read l r t (t.movedTo p) →
      K.ReadsAlike r S (k (a, t)) (k' (a, t.movedTo p))) :
    K.ReadsAlike n S (m >>= k) (m' >>= k') := by
  refine hm.bind ?_
  rintro r ⟨a, t⟩ ⟨b, u⟩ hr ⟨hab, h⟩
  obtain rfl : b = a := hab
  have hu : u = t.movedTo u.position := h.matched.eq_movedTo
  rw [hu] at h ⊢
  exact hk r b t _ hr h

/-- After tokens that stand for each other the same token goes on being read. -/
theorem matched_bind {m m' : Reader Token} {k : Token → Reader β} {k' : Token → Reader β'}
    (hm : K.ReadsAlike n (fun _ => K.Matches) m m')
    (hk : ∀ l t p, l ≤ n → K.Matches t (t.movedTo p) →
      K.ReadsAlike l S (k t) (k' (t.movedTo p))) :
    K.ReadsAlike n S (m >>= k) (m' >>= k') := by
  refine hm.bind fun l t u hl h => ?_
  have hu := h.eq_movedTo
  rw [hu] at h ⊢
  exact hk l t _ hl h

/-- The token that stays ahead, on both sides. -/
theorem peek : K.ReadsAlike n (fun _ => K.Matches) Reader.peek Reader.peek := by
  intro c d halike
  cases next c d halike with
  | ok hnext =>
    obtain ⟨_, _, hnext, -⟩ := hnext
    obtain ⟨_, _, halike⟩ := halike
    exact .ok ⟨n, Nat.le_refl n, hnext.matched, halike.settle⟩

/-- The token after the one that stays ahead, on both sides. -/
theorem peekSecond : K.ReadsAlike n (fun _ => K.Matches) Reader.peekSecond Reader.peekSecond := by
  intro c d halike
  refine .ok ⟨n, Nat.le_refl n, ?_, halike⟩
  obtain ⟨_, _, halike⟩ := halike
  show K.Matches ((c.code[1]?).getD c.eof) ((d.code[1]?).getD d.eof)
  have hcode : K.Corresponds _ c.code d.code := halike.aligned.code_corresponds
  generalize c.code = ts at hcode
  generalize d.code = us at hcode
  cases hcode with
  | nil => exact halike.eof
  | cons _ _ hrest =>
    cases hrest with
    | nil => exact halike.eof
    | cons hmatch _ _ => exact hmatch

/-- The number of tokens ahead is no common bound, but on both sides at least that of the code. -/
theorem ahead_bind {k : Nat → Reader β} {k' : Nat → Reader β'}
    (hk : ∀ l b b', l ≤ n → l ≤ b → l ≤ b' → K.ReadsAlike l S (k b) (k' b')) :
    K.ReadsAlike n S (Reader.ahead >>= k) (Reader.ahead >>= k') := by
  intro c d halike
  obtain ⟨l, hl, halike, hc, hd⟩ := halike.tight
  refine (hk l _ _ hl hc hd c d halike).imp ?_
  rintro _ _ ⟨r, hr, hresult, hafter⟩
  exact ⟨r, Nat.le_trans hr hl, hresult, hafter⟩

/-- A token with a text, unless the text is empty, leaves less code. -/
theorem expect {text context : String} :
    K.ReadsAlike n (fun l _ _ => text ≠ "" → l < n) (Reader.expect text context)
      (Reader.expect text context) := by
  refine next.read_bind fun l t p ht => .ite Iff.rfl (fun htext => .pure ?_) fun _ => ?_
  · exact fun hne => ht.lt (ht.kind_ne htext hne)
  · exact .fail ht.matched text context

/-- A token of a kind. -/
theorem expectKind {kind : Token.Kind} {context : String} :
    K.ReadsAlike n (fun l t u => K.Read n l t u ∧ t.kind = kind) (Reader.expectKind kind context)
      (Reader.expectKind kind context) := by
  refine next.read_bind fun l t p ht => .ite Iff.rfl (fun hkind => .pure ⟨ht, hkind⟩) fun _ => ?_
  exact .fail ht.matched kind.name context

end ReadsAlike

end

end Comparison

end SdkBindings
