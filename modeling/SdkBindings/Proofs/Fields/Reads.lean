import SdkBindings.Grammar.Fields
import SdkBindings.Proofs.Lexing.Layout
import SdkBindings.Proofs.Outcome

/-!
# What a reader reads

`Reads lexemes m result` says that the reader `m` reads exactly the given lexemes: wherever a stretch
of their tokens stands ahead, whatever comes after it, `m` succeeds, passes the stretch and nothing
else, and its result satisfies `result`.  Such facts compose like the readers they are about: two
readers in a row read one list of lexemes after the other (`Reads.bind`).

Many readers of the grammar start with a token that has been read already.  `ReadsOn` is `Reads` for
them; the first lexeme is the one of that token.
-/

namespace SdkBindings

/-! ## Stretches of tokens -/

/-- The end of a line is no token of code. -/
theorem Token.IsBreak.isLineEnd {token : Token} (h : token.IsBreak) : token.isLineEnd = true :=
  decide_eq_true h.1

/-- The token of a lexeme ends no line. -/
theorem Token.Spells.isLineEnd {token : Token} {lexeme : Lexeme} (h : token.Spells lexeme) :
    token.isLineEnd = false :=
  decide_eq_false (h.1 ▸ lexeme.kind_ne_newline)

/-- A stretch has at least as many tokens as lexemes. -/
theorem Stretch.length_le {lexemes : List Lexeme} {tokens : List Token}
    (h : Stretch lexemes tokens) : lexemes.length ≤ tokens.length := by
  induction h with
  | nil => exact Nat.le_refl _
  | cons hends htoken hrest ih =>
    rw [List.length_cons, List.length_append, List.length_cons]
    omega

/-- A stretch of two lists of lexemes is a stretch of the first and then one of the second. -/
theorem Stretch.exists_append {xs ys : List Lexeme} {tokens : List Token}
    (h : Stretch (xs ++ ys) tokens) :
    ∃ front back, tokens = front ++ back ∧ Stretch xs front ∧ Stretch ys back := by
  induction xs generalizing tokens with
  | nil => exact ⟨[], tokens, rfl, .nil, h⟩
  | cons x xs ih =>
    rw [List.cons_append] at h
    cases h with
    | @cons _ _ ends tail token hends htoken hrest =>
      obtain ⟨front, back, rfl, hfront, hback⟩ := ih hrest
      refine ⟨ends ++ token :: front, back, ?_, .cons hends htoken hfront, hback⟩
      rw [List.append_assoc, List.cons_append]

/-- Settling on code passes over the ends of lines up to the next token. -/
theorem Cursor.settle_code (file : String) (passed rest : List Token) (eof : Token)
    {ends : List Token} (hends : ∀ e ∈ ends, e.IsBreak) {token : Token} {lexeme : Lexeme}
    (htoken : token.Spells lexeme) :
    Cursor.settle .code ⟨file, passed, ends ++ token :: rest, eof⟩ =
      ⟨file, ends.reverse ++ passed, token :: rest, eof⟩ := by
  have htake : (ends ++ token :: rest).takeWhile Token.isLineEnd = ends := by
    rw [List.takeWhile_append_of_pos fun e he => (hends e he).isLineEnd,
      List.takeWhile_cons_of_neg (by rw [htoken.isLineEnd]; exact Bool.false_ne_true),
      List.append_nil]
  unfold settle skipLineEnds
  dsimp only
  rw [htake, List.drop_left]

namespace Grammar

open Reader

variable {α β : Type}

/-! ## Reading exactly some lexemes -/

/-- The reader reads exactly the lexemes, with a result of the given kind. -/
def Reads (lexemes : List Lexeme) (m : Reader α) (result : α → Prop) : Prop :=
  ∀ file passed tokens rest eof, Stretch lexemes tokens →
    ∃ a, m ⟨file, passed, tokens ++ rest, eof⟩ =
        .ok (a, ⟨file, tokens.reverse ++ passed, rest, eof⟩) ∧ result a

/-- After the token of the first lexeme, the reader reads exactly the other lexemes. -/
def ReadsOn (lexemes : List Lexeme) (m : Token → Reader α) (result : α → Prop) : Prop :=
  match lexemes with
  | [] => False
  | lexeme :: rest => ∀ token : Token, token.Spells lexeme → Reads rest (m token) result

namespace Reads

variable {lexeme : Lexeme} {lexemes xs ys : List Lexeme} {result : α → Prop}

/-- A result by itself reads nothing. -/
theorem pure {a : α} (h : result a) : Reads [] (Pure.pure a) result := by
  intro file passed tokens rest eof hstretch
  cases hstretch with
  | nil => exact ⟨a, rfl, h⟩

/-- Two readers in a row read one list of lexemes after the other. -/
theorem bind {m : Reader α} {k : α → Reader β} {final : β → Prop} (hm : Reads xs m result)
    (hk : ∀ a, result a → Reads ys (k a) final) : Reads (xs ++ ys) (m >>= k) final := by
  intro file passed tokens rest eof hstretch
  obtain ⟨front, back, rfl, hfront, hback⟩ := hstretch.exists_append
  obtain ⟨a, ha, hres⟩ := hm file passed front (back ++ rest) eof hfront
  obtain ⟨b, hb, hfinal⟩ := hk a hres file (front.reverse ++ passed) back rest eof hback
  refine ⟨b, ?_, hfinal⟩
  show (m ⟨file, passed, front ++ back ++ rest, eof⟩ >>= fun p => k p.1 p.2) = _
  rw [List.append_assoc, ha]
  show k a ⟨file, front.reverse ++ passed, back ++ rest, eof⟩ = _
  rw [hb, List.reverse_append, List.append_assoc]

/-- A reader that reads nothing comes first. -/
theorem nothing_bind {m : Reader α} {k : α → Reader β} {final : β → Prop} (hm : Reads [] m result)
    (hk : ∀ a, result a → Reads ys (k a) final) : Reads ys (m >>= k) final :=
  hm.bind hk

/-- After a reader its result may be turned into another one. -/
theorem bind_pure {m : Reader α} {f : α → β} {final : β → Prop} (hm : Reads lexemes m result)
    (hf : ∀ a, result a → final (f a)) : Reads lexemes (m >>= fun a => Pure.pure (f a)) final := by
  rw [← List.append_nil lexemes]
  exact hm.bind fun a ha => pure (hf a ha)

/-- A single read reads one lexeme. -/
theorem next : Reads [lexeme] Reader.next (·.Spells lexeme) := by
  intro file passed tokens rest eof hstretch
  cases hstretch with
  | @cons _ _ ends tail token hends htoken hrest =>
    cases hrest with
    | nil =>
      refine ⟨token, ?_, htoken⟩
      show Except.ok (Cursor.next _ .code) = _
      unfold Cursor.next
      rw [List.append_assoc, List.singleton_append, Cursor.settle_code file passed rest eof hends htoken,
        List.reverse_append]
      rfl

/-- A read in front of a reader that starts with its token. -/
theorem next_bind {m : Token → Reader α} (h : ReadsOn lexemes m result) :
    Reads lexemes (Reader.next >>= m) result := by
  cases lexemes with
  | nil => exact h.elim
  | cons lexeme rest => exact next.bind h

/-- Looking at the next token reads nothing. -/
theorem peek_bind {k : Token → Reader α}
    (h : ∀ token : Token, token.Spells lexeme → Reads (lexeme :: lexemes) (k token) result) :
    Reads (lexeme :: lexemes) (Reader.peek >>= k) result := by
  intro file passed tokens rest eof hstretch
  cases hstretch with
  | @cons _ _ ends tail token hends htoken hrest =>
    have hsettled : Stretch (lexeme :: lexemes) ([] ++ token :: tail) :=
      .cons (fun e he => nomatch he) htoken hrest
    obtain ⟨a, ha, hres⟩ :=
      h token htoken file (ends.reverse ++ passed) (token :: tail) rest eof hsettled
    refine ⟨a, ?_, hres⟩
    show (let p := Cursor.peek _ .code; k p.1 p.2) = _
    unfold Cursor.peek
    rw [List.append_assoc, List.cons_append, Cursor.settle_code file passed _ eof hends htoken,
      List.reverse_append, List.append_assoc]
    exact ha

/-- The number of tokens ahead is at least that of the lexemes. -/
theorem ahead_bind {k : Nat → Reader α}
    (h : ∀ n, lexemes.length ≤ n → Reads lexemes (k n) result) :
    Reads lexemes (Reader.ahead >>= k) result := by
  intro file passed tokens rest eof hstretch
  have hlength : lexemes.length ≤ (tokens ++ rest).length := by
    rw [List.length_append]
    exact Nat.le_trans hstretch.length_le (Nat.le_add_right _ _)
  exact h _ hlength file passed tokens rest eof hstretch

/-- A token that has to have a text and has it is read. -/
theorem expect {text : String} (context : String) (h : lexeme.text = text) :
    Reads [lexeme] (Reader.expect text context) (·.Spells lexeme) := by
  show Reads ([lexeme] ++ []) _ _
  refine next.bind fun token htoken => ?_
  rw [if_pos (htoken.2.trans h)]
  exact pure htoken

end Reads

/-- The number of tokens ahead is at least that of the lexemes but the first. -/
theorem ReadsOn.ahead_bind {lexemes : List Lexeme} {k : Nat → Token → Reader α} {result : α → Prop}
    (h : ∀ n, lexemes.length ≤ n + 1 → ReadsOn lexemes (k n) result) :
    ReadsOn lexemes (fun token => Reader.ahead >>= fun n => k n token) result := by
  cases lexemes with
  | nil => exact h 0 (Nat.zero_le _)
  | cons lexeme rest =>
    intro token htoken
    exact Reads.ahead_bind fun n hn => h n (Nat.succ_le_succ hn) token htoken

/-- After a reader that ends with the token of a lexeme comes one that starts with it. -/
theorem ReadsOn.bind {xs ys : List Lexeme} {lexeme : Lexeme} {m : Token → Reader α}
    {k : α → Reader β} {result : α → Prop} {final : β → Prop}
    (hm : ReadsOn (xs ++ [lexeme]) m result) (hk : ∀ a, result a → Reads ys (k a) final) :
    ReadsOn (xs ++ lexeme :: ys) (fun token => m token >>= k) final := by
  cases xs with
  | nil =>
    intro token htoken
    exact (hm token htoken).bind hk
  | cons x xs =>
    intro token htoken
    show Reads (xs ++ lexeme :: ys) _ _
    rw [List.append_cons]
    exact (hm token htoken).bind hk

end Grammar

end SdkBindings
