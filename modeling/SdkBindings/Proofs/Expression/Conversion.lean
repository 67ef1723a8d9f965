import SdkBindings.Constant.Evaluation
import SdkBindings.Proofs.Outcome

/-!
# Expressions that need a conversion without a result

Most expressions without a value are left alone, and a malformed one ends the run with a report.
What is left are the conversions of the language itself: the code point of an escape by number, the
integer of a decimal literal, the double of an integer, the integer part of a double and the integer
that a shift to the left makes.  Where one of them has no result, the failure is not among the errors
of the headers and passes through every handler (`Breaks`).  What has no result because of its size
alone depends on the host, which is arbitrary here.

An entry of a postfix form is stuck (`Item.IsStuck`) if its literal or the numbers on the stack leave
such a conversion without a result.  Running a form breaks if the run comes to a stuck entry and not
otherwise (`breaks_run`).  The equivalence is put together from one lemma for each function of the
evaluator.
-/

namespace SdkBindings.Number

open Numeral

/-! ## Conversions of numbers -/

/-- An integer that rounds to no finite double. -/
def HasNoDouble : Number → Prop
  | .int n => Binary64.ofInt? n = none
  | .real _ => False

/-- An infinity, or no number at all. -/
def HasNoIntegerPart : Number → Prop
  | .int _ => False
  | .real x => ∀ n scale, Real64.ofFloat x ≠ .finite n scale

/-- The quotient of the doubles of two numbers would be an integer, but overflows. -/
def HasNoIntegerQuotient (x y : Number) : Prop :=
  ∃ a b, x.toFloat = .ok a ∧ y.toFloat = .ok b ∧ (Real64.ofFloat a).isInteger = true ∧
    (Real64.ofFloat b).isInteger = true ∧ (Number.real (a / b)).HasNoIntegerPart

/-- A number fails to become a double if it has none. -/
theorem toFloat_fails {x : Number} : (∃ cause, x.toFloat = .error cause) ↔ x.HasNoDouble := by
  cases x with
  | int n =>
    rw [toFloat, HasNoDouble]
    cases Binary64.ofInt? n with
    | none => exact iff_of_true ⟨_, rfl⟩ rfl
    | some a => exact iff_of_false (not_ok_fails a) (Option.some_ne_none a)
  | real x => exact iff_of_false (not_ok_fails x) id

/-- A number fails to be cut to an integer if it has no integer part. -/
theorem trunc_fails {x : Number} : (∃ cause, x.trunc = .error cause) ↔ x.HasNoIntegerPart := by
  cases x with
  | int n => exact iff_of_false (not_ok_fails n) id
  | real x =>
    rw [trunc, HasNoIntegerPart]
    cases Real64.ofFloat x with
    | nan => exact iff_of_true ⟨_, rfl⟩ fun _ _ => Real64.noConfusion
    | infinite negative => exact iff_of_true ⟨_, rfl⟩ fun _ _ => Real64.noConfusion
    | finite n scale => exact iff_of_false (not_ok_fails _) fun h => h n scale rfl

/-- A number fails to become a word if it has no integer part. -/
theorem toWord_fails {x : Number} : (∃ cause, x.toWord = .error cause) ↔ x.HasNoIntegerPart :=
  bind_pure_fails.trans trunc_fails

/-- The complement of a number needs its integer part. -/
theorem complement_fails {x : Number} :
    (∃ cause, x.complement = .error cause) ↔ x.HasNoIntegerPart :=
  bind_pure_fails.trans toWord_fails

/-- An operation on doubles needs both. -/
theorem onFloats_fails {f : Float → Float → Float} {x y : Number} :
    (∃ cause, onFloats f x y = .error cause) ↔ x.HasNoDouble ∨ y.HasNoDouble :=
  bind_bind_fails.trans (or_congr toFloat_fails toFloat_fails)

/-- An operation on words needs both integer parts. -/
theorem onWords_fails {f : Nat → Nat → Nat} {x y : Number} :
    (∃ cause, onWords f x y = .error cause) ↔ x.HasNoIntegerPart ∨ y.HasNoIntegerPart :=
  bind_bind_fails.trans (or_congr toWord_fails toWord_fails)

/-- A word that the host has no room for when it is shifted to the left. -/
def HasNoRoom [Host] (x y : Number) : Prop :=
  ∃ word count, x.toWord = .ok word ∧ y.toWord = .ok count ∧ word ≠ 0 ∧
    Host.hasRoom word count = false

/-- A shift to the left needs both integer parts, and room. -/
theorem shiftLeft_fails [Host] {x y : Number} :
    (∃ cause, x.shiftLeft y = .error cause) ↔
      x.HasNoIntegerPart ∨ y.HasNoIntegerPart ∨ x.HasNoRoom y := by
  unfold shiftLeft HasNoRoom
  rw [← toWord_fails, ← toWord_fails]
  cases x.toWord with
  | error e => exact iff_of_true ⟨e, rfl⟩ (.inl ⟨e, rfl⟩)
  | ok word =>
    rw [or_iff_right (not_ok_fails word)]
    cases y.toWord with
    | error e => exact iff_of_true ⟨e, rfl⟩ (.inl ⟨e, rfl⟩)
    | ok count =>
      rw [or_iff_right (not_ok_fails count)]
      change (∃ cause, (if word = 0 ∨ Host.hasRoom word count = true
        then pure (Number.int (shiftedWord word count)) else throw Failure.noRoom) =
          Except.error cause) ↔ _
      by_cases hroom : word = 0 ∨ Host.hasRoom word count = true
      · rw [if_pos hroom]
        refine iff_of_false (not_ok_fails _) ?_
        rintro ⟨_, _, ⟨⟩, ⟨⟩, hword, hnone⟩
        rcases hroom with h | h
        · exact hword h
        · exact Bool.false_ne_true (hnone.symm.trans h)
      · rw [if_neg hroom]
        rw [not_or] at hroom
        exact iff_of_true ⟨_, rfl⟩ ⟨word, count, rfl, rfl, hroom.1, Bool.eq_false_iff.mpr hroom.2⟩

/-- A quotient needs both doubles and, where both are integers, its own integer part. -/
theorem quotient_fails {x y : Number} :
    (∃ cause, x.quotient y = .error cause) ↔
      x.HasNoDouble ∨ y.HasNoDouble ∨ x.HasNoIntegerQuotient y := by
  unfold quotient HasNoIntegerQuotient
  rw [← toFloat_fails, ← toFloat_fails]
  cases x.toFloat with
  | error e => exact iff_of_true ⟨e, rfl⟩ (.inl ⟨e, rfl⟩)
  | ok a =>
    rw [or_iff_right (not_ok_fails a)]
    cases y.toFloat with
    | error e => exact iff_of_true ⟨e, rfl⟩ (.inl ⟨e, rfl⟩)
    | ok b =>
      rw [or_iff_right (not_ok_fails b)]
      change (∃ cause, (if ((Real64.ofFloat a).isInteger && (Real64.ofFloat b).isInteger) = true
        then do
          let n ← (Number.real (a / b)).trunc
          pure (Number.int n)
        else pure (Number.real (a / b))) = Except.error cause) ↔ _
      by_cases hintegers : ((Real64.ofFloat a).isInteger && (Real64.ofFloat b).isInteger) = true
      · rw [if_pos hintegers, bind_pure_fails, trunc_fails]
        rw [Bool.and_eq_true] at hintegers
        refine ⟨fun h => ⟨a, b, rfl, rfl, hintegers.1, hintegers.2, h⟩, ?_⟩
        rintro ⟨_, _, ⟨⟩, ⟨⟩, -, -, h⟩
        exact h
      · rw [if_neg hintegers]
        refine iff_of_false (not_ok_fails _) ?_
        rintro ⟨_, _, ⟨⟩, ⟨⟩, ha, hb, -⟩
        exact hintegers (Bool.and_eq_true_iff.mpr ⟨ha, hb⟩)

end SdkBindings.Number

namespace SdkBindings.Constant

open Numeral Text

/-! ## Breaking -/

/-- The error is one of a conversion, which nobody handles. -/
def Error.IsUnhandled (e : Error) : Prop :=
  e.class = .value ∨ e.class = .overflow ∨ e.class = .memory

/-- A computation that ends with an unhandled error. -/
def Breaks {α : Type} (m : Except Error α) : Prop :=
  ∃ e, m = .error e ∧ e.IsUnhandled

section

variable {α β : Type}

/-- A result is no break. -/
theorem not_breaks_ok (a : α) : ¬ Breaks (.ok a : Except Error α) := by
  rintro ⟨e, h, -⟩
  cases h

/-- An error breaks if it is unhandled. -/
theorem breaks_error {e : Error} : Breaks (.error e : Except Error α) ↔ e.IsUnhandled := by
  refine ⟨?_, fun h => ⟨e, rfl, h⟩⟩
  rintro ⟨e', h, he⟩
  cases h
  exact he

/-- An expression that is left alone or malformed is no break. -/
theorem not_breaks_error {e : Error} (h : e.class = .unsupported ∨ e.class = .malformed) :
    ¬ Breaks (.error e : Except Error α) := by
  rw [breaks_error, Error.IsUnhandled]
  rcases h with h | h <;> rw [h] <;> rintro (h | h | h) <;> cases h

/-- Of two computations in a row either the first one breaks or the second one does. -/
theorem breaks_bind {m : Except Error α} {k : α → Except Error β} :
    Breaks (m >>= k) ↔ Breaks m ∨ ∃ a, m = .ok a ∧ Breaks (k a) := by
  cases m with
  | error e =>
    refine ⟨fun h => .inl (breaks_error.mpr (breaks_error.mp h)), ?_⟩
    rintro (h | ⟨a, ha, -⟩)
    · exact breaks_error.mpr (breaks_error.mp h)
    · cases ha
  | ok a =>
    refine ⟨fun h => .inr ⟨a, rfl, h⟩, ?_⟩
    rintro (h | ⟨a', ha, h⟩)
    · exact (not_breaks_ok a h).elim
    · cases ha
      exact h

/-- What is done with a result does not matter. -/
theorem breaks_map {m : Except Error α} {f : α → β} : Breaks (m.map f) ↔ Breaks m := by
  cases m with
  | error e => exact breaks_error.trans breaks_error.symm
  | ok a => exact iff_of_false (not_breaks_ok _) (not_breaks_ok _)

/-- Every failure of a conversion is unhandled. -/
theorem breaks_conversion {m : Except Number.Failure α} :
    Breaks (m.mapError .conversion) ↔ ∃ cause, m = .error cause := by
  cases m with
  | error cause =>
    refine iff_of_true (breaks_error.mpr ?_) ⟨cause, rfl⟩
    cases cause with
    | tooLarge | infinite => exact .inr (.inl rfl)
    | notANumber => exact .inl rfl
    | noRoom => exact .inr (.inr rfl)
  | ok a =>
    refine iff_of_false (not_breaks_ok a) ?_
    rintro ⟨cause, h⟩
    cases h

end

/-! ## Escapes -/

/-- An escape by number that stands for no code point: it has no digits, or its number is past the
last code point.  `c` follows the backslash and `rest` follows `c`. -/
def IsBadEscape (c : Char) (rest : List Char) : Prop :=
  c = 'x' ∧ (rest.takeWhile isHexDigit = [] ∨
    0x110000 ≤ digitsNumber 16 hexValue? (rest.takeWhile isHexDigit))

/-- The first escape of a body that stands for nothing is an escape by number without a code point. -/
inductive HasBadEscape : List Char → Prop where
  /-- The body starts with it. -/
  | here {c : Char} {rest : List Char} (h : IsBadEscape c rest) : HasBadEscape ('\\' :: c :: rest)
  /-- It comes after an escape that stands for a code point. -/
  | afterEscape {c : Char} {d : Nat} {rest : List Char} {length : Nat} (he : escape c rest = .ok (d, length))
      (h : HasBadEscape (rest.drop (length - 1))) : HasBadEscape ('\\' :: c :: rest)
  /-- It comes after a character that stands for itself. -/
  | afterCharacter {c : Char} {rest : List Char} (hc : c ≠ '\\') (h : HasBadEscape rest) :
      HasBadEscape (c :: rest)

/-- A number past the last code point breaks. -/
theorem breaks_codePoint {n : Nat} : Breaks (codePoint n) ↔ 0x110000 ≤ n := by
  unfold codePoint
  split
  · exact iff_of_false (not_breaks_ok _) (by omega)
  · split
    · exact iff_of_true (breaks_error.mpr (.inl rfl)) (by omega)
    · exact iff_of_true (breaks_error.mpr (.inr (.inl rfl))) (by omega)

/-- The value of an octal digit is below eight. -/
theorem octalValue?_lt {c : Char} {d : Nat} (h : octalValue? c = some d) : d < 8 := by
  unfold octalValue? at h
  split at h
  · rename_i hc
    cases h
    have hle : c.toNat ≤ '7'.toNat := hc.2
    have : '7'.toNat = 55 := rfl
    omega
  · cases h

/-- The number of up to three octal digits is one of a code point. -/
theorem digitsNumber_octal_lt {digits : List Char} (h : digits.length ≤ 3) :
    digitsNumber 8 octalValue? digits < 0x110000 := by
  have hdigit (c : Char) : (octalValue? c).getD 0 < 8 := by
    cases hc : octalValue? c with
    | none => decide
    | some d => exact octalValue?_lt hc
  match digits, h with
  | [], _ => decide
  | [a], _ =>
    have := hdigit a
    simp only [digitsNumber, List.foldl_cons, List.foldl_nil]
    omega
  | [a, b], _ =>
    have := hdigit a
    have := hdigit b
    simp only [digitsNumber, List.foldl_cons, List.foldl_nil]
    omega
  | [a, b, c], _ =>
    have := hdigit a
    have := hdigit b
    have := hdigit c
    simp only [digitsNumber, List.foldl_cons, List.foldl_nil]
    omega

/-- An escape breaks only if it is one by number. -/
theorem breaks_escape {c : Char} {rest : List Char} :
    Breaks (escape c rest) ↔ IsBadEscape c rest := by
  unfold escape IsBadEscape
  by_cases hx : c = 'x'
  · rw [if_pos hx]
    by_cases hdigits : rest.takeWhile isHexDigit = []
    · rw [if_pos hdigits]
      exact iff_of_true (breaks_error.mpr (.inl rfl)) ⟨hx, .inl hdigits⟩
    · rw [if_neg hdigits, breaks_map, breaks_codePoint]
      exact ⟨fun h => ⟨hx, .inr h⟩, fun h => h.2.resolve_left hdigits⟩
  · rw [if_neg hx]
    refine iff_of_false ?_ fun h => hx h.1
    by_cases hoctal : (octalValue? c).isSome = true
    · rw [if_pos hoctal]
      have hlength : (c :: (rest.take 2).takeWhile fun d => (octalValue? d).isSome).length ≤ 3 := by
        have hle := List.IsPrefix.length_le
          (List.takeWhile_prefix (l := rest.take 2) fun d => (octalValue? d).isSome)
        rw [List.length_take] at hle
        rw [List.length_cons]
        omega
      rw [breaks_map, breaks_codePoint]
      have := digitsNumber_octal_lt hlength
      omega
    · rw [if_neg hoctal]
      cases simpleEscape? c with
      | some d => exact not_breaks_ok _
      | none => exact not_breaks_error (.inl rfl)

/-- Decoding breaks at a bad escape. -/
theorem breaks_decodeEscapes (body : List Char) : Breaks (decodeEscapes body) ↔ HasBadEscape body := by
  fun_induction decodeEscapes body with
  | case1 =>
    refine iff_of_false (not_breaks_ok _) fun h => ?_
    cases h
  | case2 =>
    refine iff_of_false (not_breaks_ok _) fun h => ?_
    cases h with
    | afterCharacter hc => exact hc rfl
  | case3 c rest ih =>
    rw [breaks_bind, breaks_escape]
    constructor
    · rintro (h | ⟨⟨decoded, length⟩, he, h⟩)
      · exact .here h
      · rcases breaks_bind.mp h with h | ⟨tail, -, h⟩
        · exact .afterEscape he ((ih length).mp h)
        · exact (not_breaks_ok _ h).elim
    · intro h
      cases h with
      | here h => exact .inl h
      | afterEscape he h => exact .inr ⟨_, he, breaks_bind.mpr (.inl ((ih _).mpr h))⟩
      | afterCharacter hc => exact (hc rfl).elim
  | case4 c rest hc ih =>
    rw [breaks_bind, ih]
    constructor
    · rintro (h | ⟨tail, -, h⟩)
      · exact .afterCharacter hc h
      · exact (not_breaks_ok _ h).elim
    · intro h
      cases h with
      | here => exact (hc rfl).elim
      | afterEscape => exact (hc rfl).elim
      | afterCharacter _ h => exact .inl h

/-! ## Operators -/

/-- A binary operator needs a conversion of its operands that has no result. -/
def BinaryOp.IsStuck [Host] (x y : Number) : BinaryOp → Prop
  | .add | .sub | .mul => x.HasNoDouble ∨ y.HasNoDouble
  | .div => y.isTrue = true ∧ (x.HasNoDouble ∨ y.HasNoDouble ∨ x.HasNoIntegerQuotient y)
  | .shiftLeft => x.HasNoIntegerPart ∨ y.HasNoIntegerPart ∨ x.HasNoRoom y
  | .shiftRight | .bitOr | .bitAnd | .bitXor => x.HasNoIntegerPart ∨ y.HasNoIntegerPart
  | _ => False

/-- A unary operator needs a conversion of its operand that has no result. -/
def UnaryOp.IsStuck (x : Number) (op : UnaryOp) : Prop :=
  op = .complement ∧ x.HasNoIntegerPart

/-- A unary operator of a chain needs a conversion that has no result; the last one applies first. -/
def HasStuckSign (x : Number) (ops : List UnaryOp) : Prop :=
  ∃ before op after y, ops = before ++ op :: after ∧ applyUnary after x = .ok y ∧ op.IsStuck y

/-- A binary operator breaks if it is stuck. -/
theorem breaks_binary [Host] {op : BinaryOp} {x y : Number} :
    Breaks (op.apply x y) ↔ op.IsStuck x y := by
  cases op with
  | add | sub | mul => exact breaks_conversion.trans Number.onFloats_fails
  | shiftLeft => exact breaks_conversion.trans Number.shiftLeft_fails
  | shiftRight | bitOr | bitAnd | bitXor => exact breaks_conversion.trans Number.onWords_fails
  | div =>
    rw [BinaryOp.apply, BinaryOp.IsStuck]
    by_cases hy : y.isTrue = true
    · rw [if_pos hy, breaks_conversion, Number.quotient_fails]
      exact ⟨fun h => ⟨hy, h⟩, And.right⟩
    · rw [if_neg hy]
      exact iff_of_false (not_breaks_error (.inl rfl)) fun h => hy h.1
  | or | and | eq | ne | lt | le | gt | ge => exact iff_of_false (not_breaks_ok _) id

/-- A unary operator breaks if it is stuck. -/
theorem breaks_unary {op : UnaryOp} {x : Number} : Breaks (op.apply x) ↔ op.IsStuck x := by
  cases op with
  | complement =>
    refine (breaks_conversion.trans Number.complement_fails).trans ?_
    exact ⟨fun h => ⟨rfl, h⟩, And.right⟩
  | neg | plus | not => exact iff_of_false (not_breaks_ok _) fun h => nomatch h.1

/-- A chain of unary operators breaks at a stuck one. -/
theorem breaks_applyUnary {ops : List UnaryOp} {x : Number} :
    Breaks (applyUnary ops x) ↔ HasStuckSign x ops := by
  induction ops with
  | nil =>
    refine iff_of_false (not_breaks_ok x) ?_
    rintro ⟨before, op, after, y, h, -⟩
    exact List.append_ne_nil_of_right_ne_nil before (List.cons_ne_nil op after) h.symm
  | cons op ops ih =>
    rw [applyUnary, breaks_bind, ih]
    constructor
    · rintro (⟨before, stuck, after, y, rfl, hy, hstuck⟩ | ⟨y, hy, h⟩)
      · exact ⟨op :: before, stuck, after, y, rfl, hy, hstuck⟩
      · exact ⟨[], op, ops, y, rfl, hy, breaks_unary.mp h⟩
    · rintro ⟨before, stuck, after, y, hops, hy, hstuck⟩
      cases before with
      | nil =>
        cases hops
        exact .inr ⟨y, hy, breaks_unary.mpr hstuck⟩
      | cons first before =>
        cases hops
        exact .inl ⟨before, stuck, after, y, rfl, hy, hstuck⟩

/-! ## Operands -/

/-- A character literal with a bad escape. -/
def IsBadLiteral (body : List Char) : Prop :=
  body.take 1 = ['\''] ∧ HasBadEscape (body.drop 1).dropLast

/-- Digits that stand for an integer, or no digits at all. -/
def IsReadable (body : List Char) : Prop :=
  isDigits body = true → ∃ n, readInteger? 10 body = some n

/-- An integer with more digits than the host reads. -/
def IsOverlong [Host] (body : List Char) : Prop :=
  isDigits body = true ∧ Host.reads (digitCount body) = false

/-- The digits of an operand stand for an integer. -/
def Item.IsReadable : Item → Prop
  | .operand text => Constant.IsReadable (splitUnary text.toList).2
  | _ => True

/-- The entry needs a conversion that has no result; `stack` holds the numbers it applies to. -/
def Item.IsStuck [Host] (symbols : SymbolTable) (stack : List Number) : Item → Prop
  | .operand text =>
    IsBadLiteral (splitUnary text.toList).2 ∨ IsOverlong (splitUnary text.toList).2 ∨
      ∃ x, bareOperand symbols (splitUnary text.toList).2 = .ok x ∧
        HasStuckSign x (splitUnary text.toList).1
  | .unary text => ∃ x rest, stack = x :: rest ∧ (UnaryOp.ofText text).IsStuck x
  | .binary text => ∃ op x y rest,
      stack = y :: x :: rest ∧ BinaryOp.ofText? text = some op ∧ op.IsStuck x y

/-- A hexadecimal literal has a number or is malformed. -/
theorem not_breaks_hexLiteral (text : String) : ¬ Breaks (hexLiteral text) := by
  unfold hexLiteral
  split
  · dsimp only
    split
    · exact not_breaks_error (.inr rfl)
    · split
      · exact not_breaks_ok _
      · exact not_breaks_error (.inr rfl)
  · exact not_breaks_error (.inr rfl)

/-- A character literal breaks at a bad escape. -/
theorem breaks_characterLiteral {text : String} :
    Breaks (characterLiteral text) ↔ HasBadEscape (text.toList.drop 1).dropLast := by
  rw [characterLiteral, breaks_bind, breaks_decodeEscapes]
  refine or_iff_left ?_
  rintro ⟨inner, -, h⟩
  split at h
  · exact not_breaks_ok _ h
  · exact not_breaks_error (.inl rfl) h

/-- A name has a number or is left alone. -/
theorem not_breaks_lookup (symbols : SymbolTable) (name : String) :
    ¬ Breaks (lookup symbols name) := by
  unfold lookup
  split
  · exact not_breaks_ok _
  · exact not_breaks_error (.inl rfl)

/-- A text that starts like a hexadecimal literal is no character literal. -/
theorem take_one_ne_mark_of_isHexLiteral {body : List Char} (h : isHexLiteral body = true) :
    body.take 1 ≠ ['\''] := by
  unfold isHexLiteral at h
  split at h
  · exact fun hmark => nomatch hmark
  · cases h

/-- Why a host reads no integer from a text is unhandled. -/
theorem isUnhandled_ofDecimalInteger [Host] (text : String) :
    (Error.ofDecimalInteger text).IsUnhandled := by
  unfold Error.ofDecimalInteger
  dsimp only
  split <;> exact .inl rfl

/-- Digits that stand for an integer break if the host does not read them. -/
theorem decimalInteger?_eq_none_iff [Host] {body : List Char} (hbody : IsReadable body)
    (hdigits : isDigits body = true) : decimalInteger? body = none ↔ IsOverlong body := by
  obtain ⟨n, hn⟩ := hbody hdigits
  unfold decimalInteger? IsOverlong
  rw [hn]
  cases Host.reads (digitCount body) with
  | true => exact iff_of_false (Option.some_ne_none n) fun h => Bool.false_ne_true h.2.symm
  | false => exact iff_of_true rfl ⟨hdigits, rfl⟩

/-- Digits are no character literal. -/
theorem take_one_ne_mark_of_isDigits {body : List Char} (h : isDigits body = true) :
    body.take 1 ≠ ['\''] := by
  intro hmark
  cases body with
  | nil => cases hmark
  | cons c rest =>
    cases hmark
    rw [isDigits, List.all_cons, Bool.and_eq_true, Bool.and_eq_true] at h
    exact absurd h.2.1 (by decide +kernel)

/-- Digits do not start like a hexadecimal literal. -/
theorem not_isDigits_of_isHexLiteral {body : List Char} (h : isHexLiteral body = true) :
    ¬ isDigits body = true := by
  unfold isHexLiteral at h
  split at h
  · rename_i x rest
    intro hdigits
    rw [isDigits, List.all_cons, List.all_cons, Bool.and_eq_true, Bool.and_eq_true,
      Bool.and_eq_true] at hdigits
    rw [Bool.or_eq_true, decide_eq_true_eq, decide_eq_true_eq] at h
    rcases h with rfl | rfl
    · exact absurd hdigits.2.2.1 (by decide +kernel)
    · exact absurd hdigits.2.2.1 (by decide +kernel)
  · cases h

section

variable [Host]

/-- An operand without unary operators breaks if it is a bad literal or an overlong one. -/
theorem breaks_bareOperand {symbols : SymbolTable} {body : List Char} (hbody : IsReadable body) :
    Breaks (bareOperand symbols body) ↔ IsBadLiteral body ∨ IsOverlong body := by
  unfold bareOperand IsBadLiteral
  dsimp only
  by_cases hhex : isHexLiteral body = true
  · rw [if_pos hhex, breaks_map]
    refine iff_of_false (not_breaks_hexLiteral _) ?_
    rintro (h | h)
    · exact take_one_ne_mark_of_isHexLiteral hhex h.1
    · exact not_isDigits_of_isHexLiteral hhex h.1
  rw [if_neg hhex]
  by_cases hdigits : isDigits body = true
  · rw [if_pos hdigits, or_iff_right fun h => take_one_ne_mark_of_isDigits hdigits h.1,
      ← decimalInteger?_eq_none_iff hbody hdigits]
    cases decimalInteger? body with
    | none => exact iff_of_true (breaks_error.mpr (isUnhandled_ofDecimalInteger _)) rfl
    | some n => exact iff_of_false (not_breaks_ok _) (Option.some_ne_none n)
  rw [if_neg hdigits, or_iff_left fun h => hdigits h.1]
  by_cases hnumber : ((body.take 1).any fun c => isDigitLike c || c = '.') = true
  · rw [if_pos hnumber]
    refine iff_of_false ?_ fun h => ?_
    · split
      · exact not_breaks_ok _
      · exact not_breaks_error (.inl rfl)
    · rw [h.1] at hnumber
      exact absurd hnumber (by decide +kernel)
  rw [if_neg hnumber]
  by_cases hmark : body.take 1 = ['\'']
  · rw [if_pos hmark, breaks_map, breaks_characterLiteral, String.toList_ofList]
    exact ⟨fun h => ⟨hmark, h⟩, And.right⟩
  · rw [if_neg hmark, breaks_map]
    exact iff_of_false (not_breaks_lookup symbols _) fun h => hmark h.1

/-- An operand breaks if it is a bad or an overlong literal or has a stuck unary operator. -/
theorem breaks_operandValue {symbols : SymbolTable} {text : String} {stack : List Number}
    (h : (Item.operand text).IsReadable) :
    Breaks (operandValue symbols text) ↔ (Item.operand text).IsStuck symbols stack := by
  rw [operandValue, Item.IsStuck, breaks_bind, breaks_bareOperand h, or_assoc]
  refine or_congr_right (or_congr_right ⟨?_, ?_⟩)
  · rintro ⟨x, hx, h⟩
    exact ⟨x, hx, breaks_applyUnary.mp h⟩
  · rintro ⟨x, hx, h⟩
    exact ⟨x, hx, breaks_applyUnary.mpr h⟩

/-! ## Postfix forms -/

/-- An entry breaks if it is stuck. -/
theorem breaks_step {symbols : SymbolTable} {item : Item} {stack : List Number}
    (hitem : item.IsReadable) :
    Breaks (item.step symbols stack) ↔ item.IsStuck symbols stack := by
  cases item with
  | operand text =>
    rw [Item.step, breaks_bind, breaks_operandValue hitem]
    refine or_iff_left ?_
    rintro ⟨x, -, h⟩
    exact not_breaks_ok _ h
  | unary text =>
    cases stack with
    | nil =>
      refine iff_of_false (not_breaks_error (.inr rfl)) ?_
      rintro ⟨x, rest, h, -⟩
      cases h
    | cons x rest =>
      rw [Item.step, breaks_bind, breaks_unary]
      constructor
      · rintro (h | ⟨y, -, h⟩)
        · exact ⟨x, rest, rfl, h⟩
        · exact (not_breaks_ok _ h).elim
      · rintro ⟨_, _, ⟨⟩, h⟩
        exact .inl h
  | binary text =>
    match stack with
    | [] | [_] =>
      refine iff_of_false (not_breaks_error (.inr rfl)) ?_
      rintro ⟨op, x, y, rest, h, -⟩
      cases h
    | y :: x :: rest =>
      rw [Item.step]
      cases hop : BinaryOp.ofText? text with
      | none =>
        refine iff_of_false (not_breaks_error (.inr rfl)) ?_
        rintro ⟨op, _, _, _, -, h, -⟩
        cases hop.symm.trans h
      | some op =>
        dsimp only
        rw [breaks_bind, breaks_binary]
        constructor
        · rintro (h | ⟨z, -, h⟩)
          · exact ⟨op, x, y, rest, rfl, hop, h⟩
          · exact (not_breaks_ok _ h).elim
        · rintro ⟨op', _, _, _, ⟨⟩, h, hstuck⟩
          cases hop.symm.trans h
          exact .inl hstuck

/-- A run breaks if it comes to a stuck entry. -/
theorem breaks_run {symbols : SymbolTable} {items : List Item} {stack : List Number}
    (hitems : ∀ item ∈ items, item.IsReadable) :
    Breaks (run symbols items stack) ↔ ∃ before item after reached,
      items = before ++ item :: after ∧ run symbols before stack = .ok reached ∧
        item.IsStuck symbols reached := by
  induction items generalizing stack with
  | nil =>
    refine iff_of_false (not_breaks_ok _) ?_
    rintro ⟨before, item, after, reached, h, -⟩
    exact List.append_ne_nil_of_right_ne_nil before (List.cons_ne_nil item after) h.symm
  | cons item items ih =>
    have hrest : ∀ item ∈ items, item.IsReadable :=
      fun next hnext => hitems next (List.mem_cons_of_mem item hnext)
    rw [run, breaks_bind, breaks_step (hitems item List.mem_cons_self)]
    constructor
    · rintro (h | ⟨next, hnext, h⟩)
      · exact ⟨[], item, items, stack, rfl, rfl, h⟩
      · obtain ⟨before, stuck, after, reached, rfl, hreached, hstuck⟩ := (ih hrest).mp h
        refine ⟨item :: before, stuck, after, reached, rfl, ?_, hstuck⟩
        rw [run, hnext]
        exact hreached
    · rintro ⟨before, stuck, after, reached, heq, hreached, hstuck⟩
      cases before with
      | nil =>
        cases heq
        cases hreached
        exact .inl hstuck
      | cons first before =>
        cases heq
        rw [run] at hreached
        cases hnext : item.step symbols stack with
        | error e =>
          rw [hnext] at hreached
          cases hreached
        | ok next =>
          rw [hnext] at hreached
          exact .inr ⟨next, rfl, (ih hrest).mpr ⟨before, stuck, after, reached, rfl, hreached, hstuck⟩⟩

end

end SdkBindings.Constant
