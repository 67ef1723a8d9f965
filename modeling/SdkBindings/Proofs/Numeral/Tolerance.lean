import Mathlib.Data.List.Forall2
import Mathlib.Data.List.TakeWhile
import SdkBindings.Proofs.Numeral.Hexadecimal

/-!
# What the tolerant reader of integers takes for a numeral

The reader accepts more than a run of digits, and exactly the following (`IsNumeral`).  Decimal digits
and white space of any script stand for their ASCII counterparts.  Around the numeral there may be
white space, in front of it a sign and, in base sixteen, the prefix `0x` with at most one underscore
behind it, and between two digits there may be one underscore.

Both directions go along the steps of the reader: white space and a sign are split off and the digits
behind them are read from the left (`readInteger?_eq_some_iff`).  A run is read up to any of its digits
whatever follows (`WritesDigits.digitsValue?_append`); conversely what has been read is a run of digits
or a run with an underscore behind it (`Reads`), and each character extends one of the two.

Two facts are all that users of the reader need to know about the texts: which characters they consist
of (`IsNumeral.isNumeralPart`), and that a numeral is smaller than the power of the base which its
length gives (`IsNumeral.natAbs_lt`), since every digit takes a character of its own.
-/

namespace SdkBindings.Numeral

open Text Constant

/-! ## Numerals -/

/-- What a character of a numeral stands for. -/
inductive StandsFor : Char → Char → Prop
  /-- An ASCII character stands for itself. -/
  | ascii {c : Char} (h : c.toNat < 128) : StandsFor c c
  /-- Other white space stands for a space. -/
  | blank {c : Char} (h : 128 ≤ c.toNat) (hblank : isBlank c = true) : StandsFor c ' '
  /-- A decimal digit stands for the ASCII digit of its value. -/
  | digit {c : Char} {d : Nat} (h : digitValue? c = some d) : StandsFor c (Char.ofNat (48 + d))

/-- Digits of a base write a number; between two of them there may be an underscore. -/
inductive WritesDigits (base : Nat) : List Char → Nat → Prop
  | digit {c : Char} {d : Nat} (h : hexValue? c = some d) (hd : d < base) : WritesDigits base [c] d
  | append {digits : List Char} {n : Nat} {c : Char} {d : Nat} (rest : WritesDigits base digits n)
      (h : hexValue? c = some d) (hd : d < base) : WritesDigits base (digits ++ [c]) (base * n + d)
  | separated {digits : List Char} {n : Nat} {c : Char} {d : Nat} (rest : WritesDigits base digits n)
      (h : hexValue? c = some d) (hd : d < base) :
      WritesDigits base (digits ++ ['_', c]) (base * n + d)

/-- What a sign makes of a number. -/
inductive Signs : List Char → Nat → Int → Prop
  /-- No sign leaves the number. -/
  | bare (n : Nat) : Signs [] n n
  /-- So does a plus. -/
  | plus (n : Nat) : Signs ['+'] n n
  /-- A minus negates it. -/
  | minus (n : Nat) : Signs ['-'] n (-n)

/-- What may stand in front of the digits: nothing or, in base sixteen, its prefix. -/
def IsMark (base : Nat) (mark : List Char) : Prop :=
  mark = [] ∨ base = 16 ∧ ∃ x, (x = 'x' ∨ x = 'X') ∧ (mark = ['0', x] ∨ mark = ['0', x, '_'])

/-- The ASCII text is a numeral of the base for a number. -/
def IsAsciiNumeral (base : Nat) (image : List Char) (n : Int) : Prop :=
  ∃ before sign mark digits after m, image = before ++ (sign ++ (mark ++ digits)) ++ after ∧
    (∀ c ∈ before ++ after, isAsciiBlank c = true) ∧ Signs sign m n ∧ IsMark base mark ∧
    WritesDigits base digits m

/-- The text is a numeral of the base for a number. -/
def IsNumeral (base : Nat) (text : List Char) (n : Int) : Prop :=
  ∃ image, List.Forall₂ StandsFor text image ∧ IsAsciiNumeral base image n

/-! ## Characters -/

/-- The characters that numerals consist of. -/
def isNumeralPart (c : Char) : Bool :=
  isBlank c || ['+', '-', 'x', 'X', '_'].contains c || isHexDigit c || isDecimalDigit c

/-- The characters that can be part of a numeral are those that stand for something. -/
theorem asciiImage?_eq_some_iff {c d : Char} : asciiImage? c = some d ↔ StandsFor c d := by
  constructor
  · intro h
    unfold asciiImage? at h
    split at h
    · cases h
      exact .ascii ‹_›
    split at h
    · cases h
      exact .blank (by omega) ‹_›
    · obtain ⟨v, hv, rfl⟩ := Option.map_eq_some_iff.mp h
      exact .digit hv
  · rintro (hascii | ⟨hlarge, hblank⟩ | hdigit)
    · exact if_pos hascii
    · rw [asciiImage?, if_neg (by omega), if_pos hblank]
    · exact asciiImage?_digit hdigit

/-- A text is mapped to an image if its characters are, one by one. -/
theorem mapM_eq_some_iff {α β : Type} {f : α → Option β} {xs : List α} {ys : List β} :
    xs.mapM f = some ys ↔ List.Forall₂ (fun x y => f x = some y) xs ys := by
  induction xs generalizing ys with
  | nil => simp [eq_comm]
  | cons x xs ih =>
    rw [List.mapM_cons, List.forall₂_cons_left_iff]
    simp only [Option.bind_eq_bind, Option.bind_eq_some_iff, Option.pure_def, Option.some.injEq, ih]
    constructor
    · rintro ⟨y, hy, ys', hys, rfl⟩
      exact ⟨y, ys', hy, hys, rfl⟩
    · rintro ⟨y, ys', hy, hys, rfl⟩
      exact ⟨y, hy, ys', hys, rfl⟩

/-- Every member of the second list is related to one of the first. -/
theorem exists_mem_of_forall₂ {α β : Type} {R : α → β → Prop} {xs : List α} {ys : List β}
    (h : List.Forall₂ R xs ys) {y : β} (hy : y ∈ ys) : ∃ x ∈ xs, R x y := by
  induction h with
  | nil => cases hy
  | @cons x y' xs ys hx _ ih =>
    rcases List.mem_cons.mp hy with rfl | hy
    · exact ⟨x, List.mem_cons_self, hx⟩
    · obtain ⟨x', hmem, hx'⟩ := ih hy
      exact ⟨x', List.mem_cons_of_mem x hmem, hx'⟩

/-- Only a minus stands for a minus. -/
theorem StandsFor.eq_minus {c : Char} (h : StandsFor c '-') : c = '-' := by
  generalize hd : '-' = d at h
  cases h with
  | ascii => rfl
  | blank => cases hd
  | digit hvalue =>
    obtain ⟨-, hmark, -⟩ := asciiDigit (digitValue?_lt hvalue)
    exact absurd (by rw [← hd]; decide) hmark

/-- Images are characters that the text stands for. -/
theorem mapM_asciiImage?_eq_some_iff {text image : List Char} :
    text.mapM asciiImage? = some image ↔ List.Forall₂ StandsFor text image := by
  simp only [mapM_eq_some_iff, asciiImage?_eq_some_iff]

/-! ## White space -/

section

variable {p : Char → Bool}

/-- What is stripped stands at the two ends. -/
theorem exists_strip (p : Char → Bool) (text : List Char) :
    ∃ before after, text = before ++ strip p text ++ after ∧ ∀ c ∈ before ++ after, p c = true := by
  let inner := text.dropWhile p
  refine ⟨text.takeWhile p, (inner.reverse.takeWhile p).reverse, ?_, ?_⟩
  · have hinner : strip p text ++ (inner.reverse.takeWhile p).reverse = inner := by
      rw [strip, ← List.reverse_append, List.takeWhile_append_dropWhile, List.reverse_reverse]
    rw [List.append_assoc, hinner, List.takeWhile_append_dropWhile]
  · intro c hc
    rcases List.mem_append.mp hc with hc | hc
    · exact List.mem_takeWhile_imp hc
    · exact List.mem_takeWhile_imp (List.mem_reverse.mp hc)

/-- A text without characters of a class is found between such characters. -/
theorem strip_append {before core after : List Char} (h : ∀ c ∈ before ++ after, p c = true)
    (hcore : ∀ c ∈ core, p c = false) : strip p (before ++ core ++ after) = core := by
  obtain ⟨hbefore, hafter⟩ := List.forall_mem_append.mp h
  have hkeep {core : List Char} (hcore : ∀ c ∈ core, p c = false) (hne : core ≠ [])
      (rest : List Char) : (core ++ rest).dropWhile p = core ++ rest := by
    obtain ⟨c, core, rfl⟩ := List.exists_cons_of_ne_nil hne
    exact List.dropWhile_cons_of_neg (by rw [hcore c List.mem_cons_self]; decide)
  rw [strip, List.append_assoc, List.dropWhile_append_of_pos hbefore]
  cases core with
  | nil =>
    have hnothing : after.dropWhile p = [] := List.dropWhile_eq_nil_iff.mpr hafter
    rw [List.nil_append, hnothing]
    rfl
  | cons c core =>
    have hreverse : ∀ d ∈ (c :: core).reverse, p d = false :=
      fun d hd => hcore d (List.mem_reverse.mp hd)
    have hback := hkeep hreverse (by simp) []
    rw [List.append_nil] at hback
    rw [hkeep hcore (List.cons_ne_nil c core) after, List.reverse_append,
      List.dropWhile_append_of_pos fun d hd => hafter d (List.mem_reverse.mp hd), hback,
      List.reverse_reverse]

end

/-! ## Digits -/

/-- A digit is no underscore. -/
theorem ne_underscore {c : Char} {d : Nat} (h : hexValue? c = some d) : c ≠ '_' := by
  rintro rfl
  cases h

section

variable {base : Nat} {digits : List Char} {n : Nat}

/-- A run of digits is read whatever follows. -/
theorem WritesDigits.digitsValue?_append (h : WritesDigits base digits n) (rest : List Char) :
    digitsValue? base 0 false (digits ++ rest) = digitsValue? base n true rest := by
  have hstep {c : Char} {d : Nat} (hc : hexValue? c = some d) (hd : d < base) (m : Nat)
      (afterDigit : Bool) (rest : List Char) : digitsValue? base m afterDigit (c :: rest) =
        digitsValue? base (base * m + d) true rest := by
    rw [digitsValue?, if_neg (ne_underscore hc), hc]
    exact if_pos hd
  induction h generalizing rest with
  | digit hc hd => rw [List.singleton_append, hstep hc hd, Nat.mul_zero, Nat.zero_add]
  | append _ hc hd ih =>
    rw [List.append_assoc, ih]
    exact hstep hc hd _ _ _
  | separated _ hc hd ih =>
    rw [List.append_assoc, ih]
    show digitsValue? base _ true ('_' :: _ :: rest) = _
    rw [digitsValue?, if_pos rfl, if_pos rfl, hstep hc hd]

/-- What has been read where the reader is: nothing, a run of digits, or one with an underscore. -/
inductive Reads (base : Nat) : List Char → Nat → Bool → Prop
  | start : Reads base [] 0 false
  | digits {text : List Char} {n : Nat} (h : WritesDigits base text n) : Reads base text n true
  | underscore {text : List Char} {n : Nat} (h : WritesDigits base text n) :
      Reads base (text ++ ['_']) n false

/-- A digit extends what has been read to a run of digits. -/
theorem Reads.digit {text : List Char} {afterDigit : Bool} (h : Reads base text n afterDigit)
    {c : Char} {d : Nat} (hc : hexValue? c = some d) (hd : d < base) :
    WritesDigits base (text ++ [c]) (base * n + d) := by
  cases h with
  | start =>
    rw [Nat.mul_zero, Nat.zero_add]
    exact .digit hc hd
  | digits h => exact .append h hc hd
  | underscore h =>
    rw [List.append_assoc]
    exact .separated h hc hd

/-- What is read to its end is a run of digits. -/
theorem Reads.writesDigits {text : List Char} {m : Nat} {afterDigit : Bool}
    (h : Reads base text m afterDigit) {rest : List Char}
    (hrest : digitsValue? base m afterDigit rest = some n) : WritesDigits base (text ++ rest) n := by
  -- along the reader: a character extends what has been read, or the reader stops without a value
  fun_induction digitsValue? base m afterDigit rest generalizing text with
  | case1 m =>
    cases hrest
    cases h with
    | digits h => rwa [List.append_nil]
  | case2 => cases hrest
  | case3 m rest ih =>
    cases h with
    | digits h =>
      have hread := ih (.underscore h) hrest
      rwa [List.append_assoc] at hread
  | case4 => cases hrest
  | case5 m afterDigit c rest hunderscore d hd hlt ih =>
    have hread := ih (.digits (h.digit hd hlt)) hrest
    rwa [List.append_assoc] at hread
  | case6 => cases hrest
  | case7 => cases hrest

/-- Digits are read to the number that they write. -/
theorem digitsValue?_eq_some_iff :
    digitsValue? base 0 false digits = some n ↔ WritesDigits base digits n := by
  constructor
  · exact fun h => Reads.start.writesDigits h
  · intro h
    have hread := h.digitsValue?_append []
    rwa [List.append_nil] at hread

/-- The characters of a run are digits and underscores. -/
theorem WritesDigits.mem (h : WritesDigits base digits n) {c : Char} (hc : c ∈ digits) :
    c = '_' ∨ isHexDigit c = true := by
  induction h with
  | digit hd =>
    cases List.mem_singleton.mp hc
    exact .inr (isHexDigit_of_hexValue? hd)
  | append _ hd _ ih =>
    rcases List.mem_append.mp hc with hc | hc
    · exact ih hc
    · cases List.mem_singleton.mp hc
      exact .inr (isHexDigit_of_hexValue? hd)
  | separated _ hd _ ih =>
    rcases List.mem_append.mp hc with hc | hc
    · exact ih hc
    · simp only [List.mem_cons, List.not_mem_nil, or_false] at hc
      rcases hc with rfl | rfl
      · exact .inl rfl
      · exact .inr (isHexDigit_of_hexValue? hd)

/-- A run starts with a digit. -/
theorem WritesDigits.exists_cons (h : WritesDigits base digits n) :
    ∃ c rest, digits = c :: rest ∧ isHexDigit c = true := by
  induction h with
  | digit hc => exact ⟨_, [], rfl, isHexDigit_of_hexValue? hc⟩
  | append _ _ _ ih =>
    obtain ⟨c, rest, rfl, hc⟩ := ih
    exact ⟨c, _, rfl, hc⟩
  | separated _ _ _ ih =>
    obtain ⟨c, rest, rfl, hc⟩ := ih
    exact ⟨c, _, rfl, hc⟩

/-- A run is smaller than the power of the base that its length gives. -/
theorem WritesDigits.lt (h : WritesDigits base digits n) : n < base ^ digits.length := by
  have hnext {n k d : Nat} (hn : n < base ^ k) (hd : d < base) : base * n + d < base ^ (k + 1) :=
    calc base * n + d < base * (n + 1) := by rw [Nat.mul_add, Nat.mul_one]; omega
      _ ≤ base * base ^ k := Nat.mul_le_mul_left base hn
      _ = base ^ (k + 1) := Nat.pow_succ'.symm
  induction h with
  | digit _ hd => simpa using hd
  | append _ _ hd ih => simpa using hnext ih hd
  | @separated digits _ _ d _ _ hd ih =>
    have hpos : 0 < base := Nat.zero_lt_of_lt hd
    have hmore : base ^ (digits.length + 1) ≤ base ^ (digits.length + 2) :=
      Nat.pow_le_pow_right hpos (by omega)
    simpa using Nat.lt_of_lt_of_le (hnext ih hd) hmore

end

/-! ## Signs and prefixes -/

/-- A sign is split off a text. -/
theorem exists_splitSign (text : List Char) : ∃ sign, text = sign ++ (splitSign text).2 ∧
    ∀ n : Nat, Signs sign n (if (splitSign text).1 then -(n : Int) else n) := by
  unfold splitSign
  split
  · exact ⟨['-'], rfl, fun n => .minus n⟩
  · exact ⟨['+'], rfl, fun n => .plus n⟩
  · exact ⟨[], rfl, fun n => .bare n⟩

/-- A sign is found in front of a digit. -/
theorem Signs.splitSign {sign : List Char} {m : Nat} {n : Int} (h : Signs sign m n) {c : Char}
    (hc : isHexDigit c = true) (rest : List Char) :
    (splitSign (sign ++ c :: rest)).2 = c :: rest ∧
      (if (splitSign (sign ++ c :: rest)).1 then -(m : Int) else m) = n := by
  cases h with
  | bare =>
    have hself : Numeral.splitSign (c :: rest) = (false, c :: rest) := by
      unfold Numeral.splitSign
      split
      · rename_i heq
        cases heq
        exact absurd hc (by decide)
      · rename_i heq
        cases heq
        exact absurd hc (by decide)
      · rfl
    rw [List.nil_append, hself]
    exact ⟨rfl, rfl⟩
  | plus => exact ⟨rfl, rfl⟩
  | minus => exact ⟨rfl, rfl⟩

/-- A prefix is split off a text. -/
theorem exists_dropHexPrefix (text : List Char) :
    ∃ mark, text = mark ++ dropHexPrefix text ∧ IsMark 16 mark := by
  unfold dropHexPrefix
  split
  · rename_i x rest
    split
    · rename_i hx
      split
      · exact ⟨['0', x, '_'], rfl, .inr ⟨rfl, x, hx, .inr rfl⟩⟩
      · exact ⟨['0', x], rfl, .inr ⟨rfl, x, hx, .inl rfl⟩⟩
    · exact ⟨[], rfl, .inl rfl⟩
  · exact ⟨[], rfl, .inl rfl⟩

/-- A prefix is found in front of a run of digits. -/
theorem WritesDigits.dropHexPrefix {digits mark : List Char} {n : Nat} (h : WritesDigits 16 digits n)
    (hmark : IsMark 16 mark) : dropHexPrefix (mark ++ digits) = digits := by
  obtain ⟨c, rest, hcons, hc⟩ := h.exists_cons
  have hunderscore : c ≠ '_' := by
    rintro rfl
    cases hc
  obtain rfl | ⟨-, x, hx, rfl | rfl⟩ := hmark
  · rw [List.nil_append]
    unfold Numeral.dropHexPrefix
    split
    · rename_i y rest
      rw [if_neg]
      intro hy
      have hy' : y = '_' ∨ isHexDigit y = true := h.mem (by simp)
      rcases hy with rfl | rfl <;> simp [isHexDigit, hexValue?] at hy'
    · rfl
  · rw [hcons]
    simp [Numeral.dropHexPrefix, hx, hunderscore]
  · simp [Numeral.dropHexPrefix, hx]

/-! ## Numerals are what is read -/

section

variable {base : Nat} {text : List Char} {n : Int}

/-- The characters between the white space around a numeral. -/
theorem mem_signs {sign mark digits : List Char} {m : Nat} (hsign : Signs sign m n)
    (hmark : IsMark base mark) (hdigits : WritesDigits base digits m) {c : Char}
    (hc : c ∈ sign ++ (mark ++ digits)) : c ∈ ['+', '-', 'x', 'X', '_'] ∨ isHexDigit c = true := by
  rw [List.mem_append, List.mem_append] at hc
  rcases hc with hc | hc | hc
  · cases hsign <;> simp_all
  · have hzero : isHexDigit '0' = true := by decide
    have hx {x : Char} (hx : x = 'x' ∨ x = 'X') : x ∈ ['+', '-', 'x', 'X', '_'] := by
      rcases hx with rfl | rfl <;> decide
    obtain rfl | ⟨-, x, hmark, rfl | rfl⟩ := hmark
    · cases hc
    · simp only [List.mem_cons, List.not_mem_nil, or_false] at hc
      rcases hc with rfl | rfl
      · exact .inr hzero
      · exact .inl (hx hmark)
    · simp only [List.mem_cons, List.not_mem_nil, or_false] at hc
      rcases hc with rfl | rfl | rfl
      · exact .inr hzero
      · exact .inl (hx hmark)
      · exact .inl (by decide)
  · exact (hdigits.mem hc).imp (fun heq => by simp [heq]) id

/-- A numeral in ASCII is what is read without the white space around it. -/
theorem isAsciiNumeral_iff {image : List Char} : IsAsciiNumeral base image n ↔
    ∃ m, digitsValue? base 0 false (if base = 16 then dropHexPrefix (splitSign (strip isAsciiBlank image)).2
        else (splitSign (strip isAsciiBlank image)).2) = some m ∧
      (if (splitSign (strip isAsciiBlank image)).1 then -(m : Int) else m) = n := by
  constructor
  · rintro ⟨before, sign, mark, digits, after, m, rfl, hblank, hsign, hmark, hdigits⟩
    have hfirst : ∃ c rest, mark ++ digits = c :: rest ∧ isHexDigit c = true := by
      obtain rfl | ⟨-, x, -, rfl | rfl⟩ := hmark
      · exact hdigits.exists_cons
      · exact ⟨'0', _, rfl, by decide⟩
      · exact ⟨'0', _, rfl, by decide⟩
    obtain ⟨c, rest, hcons, hc⟩ := hfirst
    obtain ⟨hbody, hvalue⟩ := hsign.splitSign hc rest
    rw [← hcons] at hbody hvalue
    have hcore : ∀ c ∈ sign ++ (mark ++ digits), isAsciiBlank c = false := by
      intro c hc
      rcases mem_signs hsign hmark hdigits hc with hc | hc
      · have hall : ['+', '-', 'x', 'X', '_'].all (fun c => isAsciiBlank c = false) = true := by
          decide
        exact of_decide_eq_true (List.all_eq_true.mp hall c hc)
      · obtain ⟨d, hd⟩ := Option.isSome_iff_exists.mp hc
        exact (hexValue?_eq_some_iff.mp hd).isBareDigit.not_blank
    rw [strip_append hblank hcore, hbody]
    refine ⟨m, ?_, hvalue⟩
    rw [digitsValue?_eq_some_iff]
    split
    · rename_i hbase
      subst hbase
      rwa [hdigits.dropHexPrefix hmark]
    · rename_i hbase
      obtain rfl | ⟨h16, -⟩ := hmark
      · exact hdigits
      · exact absurd h16 hbase
  · rintro ⟨m, hdigits, rfl⟩
    obtain ⟨before, after, himage, hblank⟩ := exists_strip isAsciiBlank image
    obtain ⟨sign, hsplit, hsign⟩ := exists_splitSign (strip isAsciiBlank image)
    rw [digitsValue?_eq_some_iff] at hdigits
    split at hdigits
    · rename_i hbase
      subst hbase
      obtain ⟨mark, hprefix, hmark⟩ := exists_dropHexPrefix (splitSign (strip isAsciiBlank image)).2
      refine ⟨before, sign, mark, _, after, m, ?_, hblank, hsign m, hmark, hdigits⟩
      rw [← hprefix, ← hsplit, ← himage]
    · refine ⟨before, sign, [], _, after, m, ?_, hblank, hsign m, .inl rfl, hdigits⟩
      rw [List.nil_append, ← hsplit, ← himage]

/-- **The tolerant reader.**  The texts that it reads are the numerals, with their numbers. -/
theorem readInteger?_eq_some_iff : readInteger? base text = some n ↔ IsNumeral base text n := by
  simp only [IsNumeral, isAsciiNumeral_iff, ← mapM_asciiImage?_eq_some_iff, readInteger?, asciiBody?,
    Option.bind_eq_bind, Option.pure_def, Option.bind_eq_some_iff, Option.map_eq_some_iff,
    Option.some.injEq]
  constructor
  · rintro ⟨_, ⟨image, himage, rfl⟩, m, hm, rfl⟩
    exact ⟨image, himage, m, hm, rfl⟩
  · rintro ⟨image, himage, m, hm, rfl⟩
    exact ⟨_, ⟨image, himage, rfl⟩, m, hm, rfl⟩

/-- A numeral consists of white space, signs, marks and digits. -/
theorem IsNumeral.isNumeralPart (h : IsNumeral base text n) {c : Char} (hc : c ∈ text) :
    isNumeralPart c = true := by
  obtain ⟨image, himage, before, sign, mark, digits, after, m, rfl, hblank, hsign, hmark, hdigits⟩ := h
  obtain ⟨d, hd, hstands⟩ := exists_mem_of_forall₂ (R := fun d c => StandsFor c d) himage.flip hc
  have hspace (h : isBlank c = true) : Numeral.isNumeralPart c = true := by
    rw [Numeral.isNumeralPart, h, Bool.true_or, Bool.true_or, Bool.true_or]
  cases hstands with
  | ascii =>
    rw [List.mem_append, List.mem_append] at hd
    rcases hd with (hd | hd) | hd
    · exact hspace (isBlank_of_isAsciiBlank (hblank c (List.mem_append_left _ hd)))
    · simp only [Numeral.isNumeralPart, Bool.or_eq_true, List.contains_iff_mem]
      have hpart := mem_signs hsign hmark hdigits hd
      tauto
    · exact hspace (isBlank_of_isAsciiBlank (hblank c (List.mem_append_right _ hd)))
  | blank _ hblank => exact hspace hblank
  | digit hvalue =>
    rw [Numeral.isNumeralPart, isDecimalDigit_of_digitValue? hvalue, Bool.or_true]

/-- The size of a numeral is limited by its length. -/
theorem IsNumeral.natAbs_lt (h : IsNumeral base text n) : n.natAbs < base ^ text.length := by
  obtain ⟨image, himage, before, sign, mark, digits, after, m, rfl, -, hsign, -, hdigits⟩ := h
  have hsize : n.natAbs = m := by cases hsign <;> simp
  have hpos : 0 < base := by
    cases hdigits <;> exact Nat.zero_lt_of_lt ‹_ < base›
  rw [hsize, himage.length_eq]
  refine Nat.lt_of_lt_of_le hdigits.lt (Nat.pow_le_pow_right hpos ?_)
  simp only [List.length_append]
  omega

/-- A numeral for a negative number has a minus. -/
theorem IsNumeral.nonneg (h : IsNumeral base text n) (hminus : '-' ∉ text) : 0 ≤ n := by
  obtain ⟨image, himage, before, sign, mark, digits, after, m, rfl, -, hsign, -⟩ := h
  cases hsign with
  | bare => exact Int.natCast_nonneg m
  | plus => exact Int.natCast_nonneg m
  | minus =>
    obtain ⟨c, hc, hstands⟩ := exists_mem_of_forall₂ himage (y := '-') (by simp)
    exact absurd (hstands.eq_minus ▸ hc) hminus

end

end SdkBindings.Numeral
