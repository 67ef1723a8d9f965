import SdkBindings.Proofs.Expression.Operands
import SdkBindings.Token.Lexer

/-!
# Comparing two readings: expressions

Two headers, or one header in two sessions, are read side by side.  A `Comparison` says what the two
readings have in common: how the places of their tokens and the constants known to them are related,
and which names they may ask for.  Tokens that stand for each other have one kind and one text
(`Comparison.Matches`), and runs of tokens that stand for each other are also spaced alike
(`Comparison.Corresponds`).

An expression is nothing but such a run, so corresponding expressions have the same text, the same
postfix form and the same value, or fail with the same error (`Comparison.evaluate_eq`).
-/

namespace SdkBindings

open Lexer (Position)

/-! ## Comparisons -/

/-- What two readings have in common, besides the kinds and the texts of their tokens. -/
structure Comparison where
  /-- How the places of two tokens are related. -/
  place : Position → Position → Prop
  /-- The names whose values may be asked for. -/
  name : String → Prop
  /-- How the known constants are related. -/
  table : SymbolTable → SymbolTable → Prop
  /-- Related tables give such a name the same number. -/
  number?_eq : ∀ {t u n}, table t u → name n → t.number? n = u.number? n
  /-- Related tables stay so when such a name is given a value in both. -/
  insert : ∀ {t u n} (v : Value), table t u → name n → table (t.insert n v) (u.insert n v)

/-- The names that reading a token may ask for: its text, if it is a word, and what it asks for as an
operand. -/
def Token.Asks (t : Token) (name : String) : Prop :=
  (t.kind = .ident ∧ t.text = name) ∨ (t.IsOperandKind ∧ Constant.askedName? t.text = some name)

/-- Where a token starts. -/
def Token.position (t : Token) : Position :=
  ⟨t.line, t.column⟩

namespace Comparison

variable (K : Comparison)

/-- The tokens stand for each other. -/
structure Matches (t u : Token) : Prop where
  /-- They are of one kind. -/
  kind : u.kind = t.kind
  /-- They have one text. -/
  text : u.text = t.text
  /-- Their places are related. -/
  place : K.place t.position u.position
  /-- What they ask for is compared. -/
  name : ∀ n, t.Asks n → K.name n

variable {K}

/-- A word that stands for another is a name that is compared. -/
theorem Matches.isName {t u : Token} (h : K.Matches t u) (hkind : t.kind = .ident) :
    K.name t.text :=
  h.name t.text (.inl ⟨hkind, rfl⟩)

/-! ## Runs of tokens -/

/-- The pairs of tokens are spaced alike: either both follow the tokens before them immediately or
neither does. -/
def SpacedAlike (previous : Option (Token × Token)) (t u : Token) : Prop :=
  ∀ p ∈ previous, t.isAdjacentTo p.1 = u.isAdjacentTo p.2

variable (K)

/-- The tokens of two runs stand for each other one by one and are spaced alike; `previous` are the
tokens before them, if there are any. -/
inductive Corresponds : Option (Token × Token) → List Token → List Token → Prop
  /-- Both runs end. -/
  | nil {previous : Option (Token × Token)} : Corresponds previous [] []
  /-- Both runs go on. -/
  | cons {previous : Option (Token × Token)} {t u : Token} {ts us : List Token}
      (hmatch : K.Matches t u) (hspaced : SpacedAlike previous t u)
      (hrest : Corresponds (some (t, u)) ts us) : Corresponds previous (t :: ts) (u :: us)

variable {K} {previous : Option (Token × Token)} {ts us : List Token}

/-- What stands before two runs may be left out of account. -/
theorem Corresponds.alone (h : K.Corresponds previous ts us) : K.Corresponds none ts us := by
  cases h with
  | nil => exact .nil
  | cons hmatch _ hrest => exact .cons hmatch (fun p hp => nomatch hp) hrest

/-- Corresponding runs have the same texts. -/
theorem Corresponds.map_text (h : K.Corresponds previous ts us) :
    us.map Token.text = ts.map Token.text := by
  induction h with
  | nil => rfl
  | cons hmatch _ _ ih => rw [List.map_cons, List.map_cons, hmatch.text, ih]

/-- A token of one run stands for a token of the other. -/
theorem Corresponds.exists_match (h : K.Corresponds previous ts us) :
    ∀ t ∈ ts, ∃ u ∈ us, K.Matches t u := by
  induction h with
  | nil => exact fun t ht => nomatch ht
  | cons hmatch _ _ ih =>
    intro t ht
    rcases List.mem_cons.mp ht with rfl | ht
    · exact ⟨_, List.mem_cons_self, hmatch⟩
    · obtain ⟨u, hu, hmatch⟩ := ih t ht
      exact ⟨u, List.mem_cons_of_mem _ hu, hmatch⟩

/-- Corresponding runs have a token of a kind together. -/
theorem Corresponds.any_kind (h : K.Corresponds previous ts us) (kind : Token.Kind) :
    us.any (·.kind = kind) = ts.any (·.kind = kind) := by
  induction h with
  | nil => rfl
  | cons hmatch _ _ ih => simp [hmatch.kind, ih]

/-- Corresponding runs after corresponding tokens are written alike. -/
theorem Corresponds.joinAfter {t u : Token} (h : K.Corresponds (some (t, u)) ts us) :
    Token.joinAfter u us = Token.joinAfter t ts := by
  induction ts generalizing t u us with
  | nil =>
    cases h with
    | nil => rfl
  | cons first rest ih =>
    cases h with
    | cons hmatch hspaced hrest =>
      have hadjacent := hspaced _ rfl
      simp only [Token.joinAfter, ih hrest, hmatch.text, hadjacent]

/-- Corresponding runs are written alike. -/
theorem Corresponds.join (h : K.Corresponds previous ts us) : Token.join us = Token.join ts := by
  cases h with
  | nil => rfl
  | cons hmatch _ hrest => simp only [Token.join, hrest.joinAfter, hmatch.text]

/-! ## Postfix forms -/

/-- Whether a token is the suffix of a number depends on what corresponding runs share. -/
theorem isSuffix_eq {t u : Token} (hmatch : K.Matches t u)
    (hprevious : ∀ p ∈ previous, K.Matches p.1 p.2) (hspaced : SpacedAlike previous t u) :
    Constant.isSuffix u (previous.map Prod.snd) = Constant.isSuffix t (previous.map Prod.fst) := by
  unfold Constant.isSuffix
  cases previous with
  | none => simp [hmatch.kind, hmatch.text]
  | some p =>
    have hadjacent := hspaced p rfl
    have hkind := (hprevious p rfl).kind
    simp [hmatch.kind, hmatch.text, hadjacent, hkind]

open Constant in
/-- Corresponding runs are brought into postfix order alike. -/
theorem Corresponds.read (h : K.Corresponds previous ts us)
    (hprevious : ∀ p ∈ previous, K.Matches p.1 p.2) (s : Postfix.State) :
    Postfix.read s (previous.map Prod.snd) us = Postfix.read s (previous.map Prod.fst) ts := by
  induction hn : ts.length using Nat.strongRecOn generalizing previous ts us s with
  | ind n ih =>
  cases h with
  | nil => rw [Postfix.read, Postfix.read]
  | @cons _ t u ts us hmatch hspaced hrest =>
    -- behind one token or a pair of them the runs still correspond
    have hnext {p : Token × Token} (hp : K.Matches p.1 p.2) {ts' us' : List Token}
        (h' : K.Corresponds (some p) ts' us') (hlength : ts'.length < n) (s : Postfix.State) :
        Postfix.read s (some p.2) us' = Postfix.read s (some p.1) ts' :=
      ih ts'.length hlength h' (fun q hq => Option.mem_some.mp hq ▸ hp) s rfl
    have hlength : ts.length < n := by
      rw [← hn]
      exact Nat.lt_succ_self _
    rw [Postfix.read.eq_def s _ (u :: us), Postfix.read.eq_def s _ (t :: ts)]
    simp only [isSuffix_eq hmatch hprevious hspaced, hmatch.kind, hmatch.text]
    have hone (s : Postfix.State) : Postfix.read s (some u) us = Postfix.read s (some t) ts :=
      hnext (p := (t, u)) hmatch hrest hlength s
    cases hrest with
    | nil => simp only [hone]
    | @cons _ t' u' ts us hmatch' _ hrest' =>
      have htwo (s : Postfix.State) : Postfix.read s (some u') us = Postfix.read s (some t') ts :=
        hnext (p := (t', u')) hmatch' hrest' (Nat.lt_of_succ_lt hlength) s
      simp only [hone, htwo, hmatch'.text]

/-- Corresponding runs have the same postfix form. -/
theorem Corresponds.toPostfix (h : K.Corresponds previous ts us) :
    Constant.toPostfix us = Constant.toPostfix ts := by
  unfold Constant.toPostfix
  have hread := h.alone.read (fun p hp => nomatch hp) .start
  rw [Option.map_none, Option.map_none] at hread
  rw [hread]

/-! ## Values -/

/-- Corresponding runs are the same string literal or none. -/
theorem Corresponds.stringLiteral? (h : K.Corresponds previous ts us) :
    Constant.stringLiteral? us = Constant.stringLiteral? ts := by
  have hany := h.any_kind .string
  have hjoin := h.join
  unfold Constant.stringLiteral?
  dsimp only
  rw [hany]
  split
  · cases h with
    | nil => rfl
    | cons hmatch _ hrest =>
      cases hrest with
      | nil => simp only [hmatch.text]
      | cons hmatch' _ hrest' =>
        cases hrest' with
        | nil => simp only [hmatch.text, hmatch'.text, hmatch'.kind, hjoin]
        | cons _ _ _ => simp only [hjoin]
  · rfl

variable {symbols symbols' : SymbolTable}

/-- Corresponding expressions have the same value, or fail with the same error. -/
theorem evaluate_eq (htable : K.table symbols symbols') (h : K.Corresponds previous ts us) :
    Constant.evaluate symbols' us = Constant.evaluate symbols ts := by
  have hentries : Constant.HoldsOfEntries (Constant.Item.AgreesIn symbols symbols') ts := by
    refine ⟨fun t ht hkind signs name hname => ?_, fun _ => trivial, fun _ => trivial⟩
    rw [Constant.askedName?_signed] at hname
    obtain ⟨u, -, hmatch⟩ := h.exists_match t ht
    exact K.number?_eq htable (hmatch.name name (.inr ⟨hkind, hname⟩))
  have hpostfix := Constant.toPostfix_entries hentries
  unfold Constant.evaluate
  rw [h.stringLiteral?, h.join, h.toPostfix]
  cases hitems : Constant.toPostfix ts with
  | error e => rfl
  | ok items =>
    rw [hitems] at hpostfix
    have hvalue := Constant.evaluatePostfix_congr hpostfix
    cases Constant.stringLiteral? ts with
    | error e => rfl
    | ok literal =>
      cases literal with
      | some text => rfl
      | none =>
        show (do
          let x ← Constant.evaluatePostfix symbols' items
          pure (Constant.numberValue x (Token.join ts))) = _
        rw [← hvalue]
        rfl

/-- Corresponding macro bodies call the same function or none. -/
theorem Corresponds.callee? (h : K.Corresponds previous ts us) :
    Constant.callee? us = Constant.callee? ts := by
  induction h with
  | nil => rfl
  | cons hmatch _ hrest ih =>
    cases hrest with
    | nil => rfl
    | cons hmatch' hspaced' _ =>
      have hadjacent := hspaced' _ rfl
      rw [Constant.callee?, Constant.callee?, ih, hmatch.kind, hmatch.text, hmatch'.text, hadjacent]

/-- Corresponding macros have the same value, or fail with the same error. -/
theorem evaluateMacro_eq (htable : K.table symbols symbols') {name name' : Token}
    (hname : K.Matches name name') (h : K.Corresponds (some (name, name')) ts us) :
    Constant.evaluateMacro symbols' name' us = Constant.evaluateMacro symbols name ts := by
  have hshape : Constant.macroShape name' us = Constant.macroShape name ts := by
    have hcallee := h.callee?
    cases h with
    | nil => simp only [Constant.macroShape, hname.text]
    | cons hmatch hspaced _ =>
      have hadjacent := hspaced _ rfl
      simp only [Constant.macroShape, hmatch.text, hadjacent, hname.text, hcallee]
  rw [Constant.evaluateMacro, Constant.evaluateMacro, hshape, evaluate_eq htable h]

end Comparison

end SdkBindings
