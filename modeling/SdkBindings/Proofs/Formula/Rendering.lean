import Mathlib.Data.List.Chain
import SdkBindings.Proofs.Formula.Spelling
import SdkBindings.Proofs.Module.Definitions
import SdkBindings.Proofs.Module.Expressions

/-!
# Symbols as text

The symbols of a formula may be written with a space in front of any of them (`Renders`).  Whichever
spaces there are, the text is read back to the symbols as long as no two numbers meet
(`Renders.symbols?`), squeezing its spaces and trimming its ends leave a text of the same symbols
(`Renders.squeezeSpaces`, `Renders.strip`), and it looks up no names (`Renders.referencedNames`).
-/

namespace SdkBindings

open Generated Text SdkBindings.Module

/-! ## Texts of symbols -/

/-- What is written for a symbol. -/
def Generated.Symbol.text : Symbol → List Char
  | .number n => Nat.toDigits 10 n
  | .sign s => [s.unary.char]
  | .operator op => op.binary.text.toList
  | .comparison c => c.binary.text.toList
  | .opening => ['(']
  | .closing => [')']

/-- The symbol is a number. -/
def Generated.Symbol.IsNumber : Symbol → Prop
  | .number _ => True
  | _ => False

/-- The characters that symbols are written with. -/
def symbolCharacters : List Char :=
  ['0', '1', '2', '3', '4', '5', '6', '7', '8', '9'] ++ formulaMarks

/-- A symbol is written with at least one of these characters. -/
theorem Generated.Symbol.exists_text (s : Symbol) :
    ∃ c rest, s.text = c :: rest ∧ c :: rest ⊆ symbolCharacters := by
  cases s with
  | number n =>
    have hdigit : ∀ d < 10, Nat.digitChar d ∈ symbolCharacters := by
      decide
    obtain ⟨c, rest, htext⟩ := List.exists_cons_of_ne_nil (Formula.toDigits_ne_nil n)
    refine ⟨c, rest, htext, fun x hx => ?_⟩
    rw [← htext] at hx
    obtain ⟨d, hd, rfl⟩ := Formula.exists_digitChar hx
    exact hdigit d hd
  | sign s => cases s <;> exact ⟨_, _, rfl, by decide⟩
  | operator op => cases op <;> exact ⟨_, _, rfl, by decide⟩
  | comparison c => cases c <;> exact ⟨_, _, rfl, by decide⟩
  | opening => exact ⟨_, _, rfl, by decide⟩
  | closing => exact ⟨_, _, rfl, by decide⟩

/-- What symbols are written with is no blank and starts no name. -/
theorem Generated.Symbol.not_blank (s : Symbol) {c : Char} (hc : c ∈ s.text) :
    isBlank c = false ∧ startsName c = false := by
  have hall : symbolCharacters.all (fun c => !isBlank c && !startsName c) = true := by
    decide
  obtain ⟨d, rest, htext, hmem⟩ := s.exists_text
  have hplain := List.all_eq_true.mp hall c (hmem (htext ▸ hc))
  simpa using hplain

/-- The text consists of the texts of the symbols, each with a space in front of it or not. -/
inductive Renders : List Symbol → List Char → Prop where
  | nil : Renders [] []
  | tight {s : Symbol} {symbols : List Symbol} {text : List Char} (h : Renders symbols text) :
      Renders (s :: symbols) (s.text ++ text)
  | spaced {s : Symbol} {symbols : List Symbol} {text : List Char} (h : Renders symbols text) :
      Renders (s :: symbols) (' ' :: (s.text ++ text))

/-- Two texts in a row. -/
theorem Renders.append {xs ys : List Symbol} {front back : List Char} (hx : Renders xs front)
    (hy : Renders ys back) : Renders (xs ++ ys) (front ++ back) := by
  induction hx with
  | nil => exact hy
  | tight _ ih =>
    rw [List.append_assoc]
    exact ih.tight
  | spaced _ ih =>
    rw [List.cons_append, List.cons_append, List.append_assoc]
    exact ih.spaced

/-! ## Reading symbols -/

/-- A space is passed over. -/
@[simp] theorem symbols?_space (rest : List Char) : symbols? (' ' :: rest) = symbols? rest := by
  rw [symbols?]

/-- Digits are read as a number, up to the first character that is none. -/
theorem symbols?_toDigits (n : Nat) {rest : List Char} (hrest : ∀ c ∈ rest.head?, c.isDigit = false) :
    symbols? (Nat.toDigits 10 n ++ rest) = (symbols? rest).map (.number n :: ·) := by
  have hdigits : ∀ c ∈ Nat.toDigits 10 n, c.isDigit = true :=
    fun c hc => Nat.isDigit_of_mem_toDigits (by decide) (by decide) hc
  have htake : rest.takeWhile Char.isDigit = [] := by
    cases rest with
    | nil => rfl
    | cons c rest => simp [hrest c rfl]
  have hdrop : rest.dropWhile Char.isDigit = rest := by
    cases rest with
    | nil => rfl
    | cons c rest => simp [hrest c rfl]
  have hnumeral := Formula.numeral?_toDigits n
  cases hlist : Nat.toDigits 10 n with
  | nil => exact absurd hlist (Formula.toDigits_ne_nil n)
  | cons c digits =>
    rw [hlist] at hdigits hnumeral
    obtain ⟨hc, hdigits⟩ := List.forall_mem_cons.mp hdigits
    have hother {d : Char} (hd : d.isDigit = false) : c ≠ d := by
      rintro rfl
      cases hc.symm.trans hd
    rw [List.cons_append, symbols?, if_pos hc, List.takeWhile_append_of_pos hdigits, htake,
      List.append_nil, hnumeral, List.dropWhile_append_of_pos hdigits, hdrop]
    · rfl
    · exact hother rfl
    · exact fun _ h => absurd h (hother rfl)
    · exact fun _ h => absurd h (hother rfl)
    · exact fun _ h => absurd h (hother rfl)
    · exact fun _ h => absurd h (hother rfl)

/-- A symbol that is no number is read by itself. -/
theorem symbols?_text {s : Symbol} (hs : ¬ s.IsNumber) (rest : List Char) :
    symbols? (s.text ++ rest) = (symbols? rest).map (s :: ·) := by
  cases s with
  | number n => exact absurd trivial hs
  | sign s => cases s <;> simp [Symbol.text, symbols?, Sign.unary, Constant.UnaryOp.char, mark?]
  | operator op =>
    cases op <;> simp [Symbol.text, symbols?, WordOp.binary, Constant.BinaryOp.text, mark?]
  | comparison c => cases c <;> simp [Symbol.text, symbols?, EqOp.binary, Constant.BinaryOp.text]
  | opening => simp [Symbol.text, symbols?, mark?]
  | closing => simp [Symbol.text, symbols?, mark?]

/-- No number stands right behind another one. -/
def Separated (symbols : List Symbol) : Prop :=
  symbols.IsChain fun s next => s.IsNumber → ¬ next.IsNumber

/-- A symbol that is no number does not start with a digit. -/
theorem Generated.Symbol.not_digit_of_head? {s : Symbol} (hs : ¬ s.IsNumber) (rest : List Char) :
    ∀ c ∈ (s.text ++ rest).head?, c.isDigit = false := by
  cases s with
  | number n => exact absurd trivial hs
  | sign s => cases s <;> simp [Symbol.text, Sign.unary, Constant.UnaryOp.char]
  | operator op => cases op <;> simp [Symbol.text, WordOp.binary, Constant.BinaryOp.text]
  | comparison c => cases c <;> simp [Symbol.text, EqOp.binary, Constant.BinaryOp.text]
  | opening => simp [Symbol.text]
  | closing => simp [Symbol.text]

/-- A text is stripped of nothing if neither of its ends belongs to the class. -/
theorem strip_eq_self_of_ends {p : Char → Bool} {text : List Char}
    (hhead : ∀ c ∈ text.head?, p c = false) (hlast : ∀ c ∈ text.getLast?, p c = false) : strip p text = text := by
  have hkeep {text : List Char} (h : ∀ c ∈ text.head?, p c = false) : text.dropWhile p = text := by
    cases text with
    | nil => rfl
    | cons c rest => simp [h c rfl]
  rw [strip, hkeep hhead, hkeep (by rwa [List.head?_reverse]), List.reverse_reverse]

namespace Renders

variable {symbols : List Symbol} {text : List Char}

/-- **Reading back.**  A text of separated symbols is read to them. -/
theorem symbols? (h : Renders symbols text) (hseparated : Separated symbols) :
    Generated.symbols? text = some symbols := by
  have hstep {s : Symbol} {symbols : List Symbol} {text : List Char} (htext : Renders symbols text)
      (hseparated : Separated (s :: symbols)) (ih : Generated.symbols? text = some symbols) :
      Generated.symbols? (s.text ++ text) = some (s :: symbols) := by
    by_cases hs : s.IsNumber
    · cases s with
      | number n =>
        have hafter : ∀ c ∈ text.head?, c.isDigit = false := by
          cases htext with
          | nil => simp
          | tight _ =>
            exact Symbol.not_digit_of_head? ((List.isChain_cons_cons.mp hseparated).1 trivial) _
          | spaced _ => simp
        rw [Symbol.text, symbols?_toDigits n hafter, ih]
        rfl
      | _ => exact absurd hs id
    · rw [symbols?_text hs, ih]
      rfl
  induction h with
  | nil => rw [Generated.symbols?]
  | tight htext ih => exact hstep htext hseparated (ih (List.isChain_cons.mp hseparated).2)
  | spaced htext ih =>
    rw [symbols?_space]
    exact hstep htext hseparated (ih (List.isChain_cons.mp hseparated).2)

/-! ## Spaces -/

/-- Squeezing leaves a text without spaces alone. -/
theorem squeezeSpaces_append {front : List Char} (h : ' ' ∉ front) (rest : List Char) :
    Module.squeezeSpaces (front ++ rest) = front ++ Module.squeezeSpaces rest := by
  induction front with
  | nil => rfl
  | cons c front ih =>
    simp only [List.mem_cons, not_or] at h
    rw [List.cons_append, Module.squeezeSpaces, ih h.2, List.cons_append]
    exact fun _ hc => absurd hc.symm h.1

/-- A symbol is written without spaces. -/
theorem space_not_mem (s : Symbol) : ' ' ∉ s.text := by
  obtain ⟨c, rest, htext, hmem⟩ := s.exists_text
  rw [htext]
  intro hspace
  exact absurd (hmem hspace) (by decide)

/-- Squeezing leaves single spaces alone. -/
theorem squeezeSpaces (h : Renders symbols text) : Module.squeezeSpaces text = text := by
  induction h with
  | nil => rfl
  | @tight s _ _ _ ih => rw [squeezeSpaces_append (space_not_mem s), ih]
  | @spaced s _ text _ ih =>
    have htext : Module.squeezeSpaces (s.text ++ text) = s.text ++ text := by
      rw [squeezeSpaces_append (space_not_mem s), ih]
    obtain ⟨c, rest, hc, hmem⟩ := s.exists_text
    rw [hc] at htext ⊢
    have hspace : c ≠ ' ' := by
      rintro rfl
      exact absurd (hmem List.mem_cons_self) (by decide)
    rw [List.cons_append, Module.squeezeSpaces, ← List.cons_append, htext]
    exact fun _ _ h => absurd (List.head_eq_of_cons_eq h) hspace

/-- The last character is no blank. -/
theorem not_blank_of_getLast? (h : Renders symbols text) : ∀ c ∈ text.getLast?, isBlank c = false := by
  have hstep {s : Symbol} {text : List Char} (ih : ∀ c ∈ text.getLast?, isBlank c = false) :
      ∀ c ∈ (s.text ++ text).getLast?, isBlank c = false := by
    intro c hc
    rw [List.getLast?_append] at hc
    rcases Option.or_eq_some_iff.mp hc with hc | ⟨-, hc⟩
    · exact ih c hc
    · exact (s.not_blank (List.mem_of_getLast? hc)).1
  induction h with
  | nil => simp
  | tight _ ih => exact hstep ih
  | @spaced s _ text _ ih =>
    obtain ⟨c, rest, htext, -⟩ := s.exists_text
    have hcons : (' ' :: (s.text ++ text)).getLast? = (s.text ++ text).getLast? := by
      rw [htext]
      simp
    rw [hcons]
    exact hstep ih

/-- Trimming takes at most the space in front. -/
theorem strip (h : Renders symbols text) : Renders symbols (Text.strip isBlank text) := by
  have hstep {s : Symbol} {symbols : List Symbol} {text : List Char} (htext : Renders symbols text) :
      Text.strip isBlank (s.text ++ text) = s.text ++ text := by
    refine strip_eq_self_of_ends (fun d hd => ?_) htext.tight.not_blank_of_getLast?
    obtain ⟨c, rest, hsymbol, -⟩ := s.exists_text
    refine (s.not_blank (c := d) ?_).1
    rw [hsymbol] at hd ⊢
    cases hd
    exact List.mem_cons_self
  cases h with
  | nil => exact .nil
  | tight htext =>
    rw [hstep htext]
    exact htext.tight
  | @spaced s _ text htext =>
    have hspace : Text.strip isBlank (' ' :: (s.text ++ text)) =
        Text.strip isBlank (s.text ++ text) := rfl
    rw [hspace, hstep htext]
    exact htext.tight

/-- No name is looked up. -/
theorem referencedNames (h : Renders symbols text) :
    Module.referencedNames (String.ofList text) = [] := by
  have hnone : ∀ c ∈ text, startsName c = false := by
    induction h with
    | nil => simp
    | @tight s _ _ _ ih => exact List.forall_mem_append.mpr ⟨fun c hc => (s.not_blank hc).2, ih⟩
    | @spaced s _ _ _ ih =>
      refine List.forall_mem_cons.mpr ⟨by decide, ?_⟩
      exact List.forall_mem_append.mpr ⟨fun c hc => (s.not_blank hc).2, ih⟩
  rw [Module.referencedNames, String.toList_ofList, words_eq_nil hnone]
  rfl

end Renders

end SdkBindings
