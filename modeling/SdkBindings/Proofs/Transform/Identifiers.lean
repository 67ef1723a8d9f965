import SdkBindings.Module.Sections
import SdkBindings.Proofs.Numeral.Hexadecimal
import SdkBindings.Transform.Guid

/-!
# Interface identifiers keep their value

An identifier is a number of 128 bits.  It is written in the header with 32 hexadecimal digits in
either case (`SpellsGuid`), split into one part of 32 bits, two of 16 and eight bytes, and passed on in
the generated module as eleven literals.  Whatever spelling is decomposed, the parts make up its
number and the literals repeat its digits; and the parts of any identifier come back from the text
that they are written as (`decomposeGuid_roundTrip`).

The parts of a number are its last digits after shifts, so all three representations are compared
with the 32 last digits of the number (`lastDigits_parts`).
-/

namespace SdkBindings

open Text Constant

/-! ## Spellings and parts -/

/-- A text of five groups of digits with dashes between them. -/
def dashed (a b c d e : List Char) : List Char :=
  a ++ '-' :: (b ++ '-' :: (c ++ '-' :: (d ++ '-' :: e)))

/-- The text writes a number as an identifier: 32 digits in either case, in groups of 8, 4, 4, 4 and
12. -/
def SpellsGuid (text : List Char) (n : Nat) : Prop :=
  ∃ a b c d e, text = dashed a b c d e ∧ WritesHex (a ++ b ++ c ++ d ++ e) n ∧
    a.length = 8 ∧ b.length = 4 ∧ c.length = 4 ∧ d.length = 4 ∧ e.length = 12

namespace GuidParts

/-- The parts fit into their places. -/
structure IsInRange (parts : GuidParts) : Prop where
  /-- The first part has 32 bits. -/
  data1 : 0 ≤ parts.data1 ∧ parts.data1 < 2 ^ 32
  /-- The second part has 16 bits. -/
  data2 : 0 ≤ parts.data2 ∧ parts.data2 < 2 ^ 16
  /-- The third part has 16 bits. -/
  data3 : 0 ≤ parts.data3 ∧ parts.data3 < 2 ^ 16
  /-- There are eight more parts. -/
  count : parts.data4.length = 8
  /-- Each of them is a byte. -/
  byte : ∀ b ∈ parts.data4, 0 ≤ b ∧ b < 2 ^ 8

/-- The written form of an identifier, in lower case. -/
def canonical (parts : GuidParts) : List Char :=
  let digits (width : Nat) (part : Int) := hexDigits width part.toNat
  dashed (digits 8 parts.data1) (digits 4 parts.data2) (digits 4 parts.data3)
    ((parts.data4.take 2).flatMap (digits 2)) ((parts.data4.drop 2).flatMap (digits 2))

end GuidParts

namespace Module

/-- The digits of the hexadecimal literals in a text, in order. -/
def hexLiterals : List Char → List (List Char)
  | '0' :: 'x' :: rest => rest.takeWhile isHexDigit :: hexLiterals rest
  | _ :: rest => hexLiterals rest
  | [] => []

/-- The digits of the hexadecimal literals in some lines, in order. -/
def literalsOf (lines : List Line) : List (List Char) :=
  lines.flatMap fun line => hexLiterals line.render.toList

end Module

/-! ## The number of the parts -/

/-- Bits above others are added to them. -/
theorem shiftLeft_lor {n k : Nat} (m : Nat) (h : n < 2 ^ k) : m <<< k ||| n = m * 2 ^ k + n := by
  rw [← Nat.shiftLeft_add_eq_or_of_lt h, Nat.shiftLeft_eq]

/-- Shifting bits out leaves those above them. -/
theorem shiftRight_above {n j k : Nat} (m : Nat) (h : n < 2 ^ j) (hk : j ≤ k) :
    (m * 2 ^ j + n) >>> k = m >>> (k - j) := by
  obtain ⟨k, rfl⟩ := Nat.exists_eq_add_of_le hk
  rw [Nat.shiftRight_add, Nat.shiftRight_eq_div_pow _ j, Nat.add_comm,
    Nat.add_mul_div_right _ _ (Nat.two_pow_pos j), Nat.div_eq_of_lt h, Nat.zero_add,
    Nat.add_sub_cancel_left]

/-- What is left below some bits. -/
theorem mod_below {n j : Nat} (m : Nat) (h : n < 2 ^ j) : (m * 2 ^ j + n) % 2 ^ j = n := by
  rw [Nat.add_comm, Nat.add_mul_mod_self_right, Nat.mod_eq_of_lt h]

/-- Bits that were shifted out, put back below those above them. -/
theorem shiftRight_mul_add (n j k : Nat) : n >>> (k + j) * 2 ^ j + n >>> k % 2 ^ j = n >>> k := by
  rw [Nat.shiftRight_add, Nat.shiftRight_eq_div_pow _ j, Nat.div_add_mod']

namespace GuidParts

/-- The number of some parts: each is put below those before it. -/
theorem value_eq {a b c b₀ b₁ b₂ b₃ b₄ b₅ b₆ b₇ : Nat} (hb : b < 2 ^ 16) (hc : c < 2 ^ 16)
    (h₀ : b₀ < 2 ^ 8) (h₁ : b₁ < 2 ^ 8) (h₂ : b₂ < 2 ^ 8) (h₃ : b₃ < 2 ^ 8) (h₄ : b₄ < 2 ^ 8)
    (h₅ : b₅ < 2 ^ 8) (h₆ : b₆ < 2 ^ 8) (h₇ : b₇ < 2 ^ 8) :
    value ⟨a, b, c, [b₀, b₁, b₂, b₃, b₄, b₅, b₆, b₇]⟩ =
      ((((((((((a * 2 ^ 16 + b) * 2 ^ 16 + c) * 2 ^ 8 + b₀) * 2 ^ 8 + b₁) * 2 ^ 8 + b₂) * 2 ^ 8 + b₃) *
        2 ^ 8 + b₄) * 2 ^ 8 + b₅) * 2 ^ 8 + b₆) * 2 ^ 8 + b₇) := by
  simp only [value, List.zipIdx_cons, List.zipIdx_nil, List.foldl_cons, List.foldl_nil,
    Int.toNat_natCast, Nat.zero_or, Nat.or_assoc, Nat.reduceAdd, Nat.reduceSub, Nat.reduceMul,
    Nat.shiftLeft_zero]
  simp (disch := omega) only [shiftLeft_lor]
  omega

/-- The parts of a number, one by one. -/
theorem ofNumber_eq (n : Nat) : ofNumber n =
    ⟨(n >>> 96 % 2 ^ 32 : Nat), (n >>> 80 % 2 ^ 16 : Nat), (n >>> 64 % 2 ^ 16 : Nat),
      [(n >>> 56 % 2 ^ 8 : Nat), (n >>> 48 % 2 ^ 8 : Nat), (n >>> 40 % 2 ^ 8 : Nat),
        (n >>> 32 % 2 ^ 8 : Nat), (n >>> 24 % 2 ^ 8 : Nat), (n >>> 16 % 2 ^ 8 : Nat),
        (n >>> 8 % 2 ^ 8 : Nat), (n >>> 0 % 2 ^ 8 : Nat)]⟩ := by
  simp only [ofNumber, List.map_cons, List.map_nil, Nat.reducePow]

/-- The parts of a number fit into their places. -/
theorem isInRange_ofNumber (n : Nat) : (ofNumber n).IsInRange := by
  have hpart (m k : Nat) : 0 ≤ ((m % 2 ^ k : Nat) : Int) ∧ ((m % 2 ^ k : Nat) : Int) < 2 ^ k := by
    have hlt : m % 2 ^ k < 2 ^ k := Nat.mod_lt m (Nat.two_pow_pos k)
    exact ⟨Int.natCast_nonneg _, by exact_mod_cast hlt⟩
  rw [ofNumber_eq]
  refine ⟨hpart _ 32, hpart _ 16, hpart _ 16, rfl, ?_⟩
  simp only [List.forall_mem_cons, hpart, true_and, List.not_mem_nil, false_implies, implies_true]

/-- The parts of a number of 128 bits make it up again. -/
theorem value_ofNumber {n : Nat} (h : n < 2 ^ 128) : (ofNumber n).value = n := by
  have hbelow (shift k : Nat) : n >>> shift % 2 ^ k < 2 ^ k := Nat.mod_lt _ (Nat.two_pow_pos k)
  have hfirst : n >>> 96 % 2 ^ 32 = n >>> 96 := by
    refine Nat.mod_eq_of_lt ?_
    rw [Nat.shiftRight_eq_div_pow]
    omega
  rw [ofNumber_eq, value_eq (hbelow 80 16) (hbelow 64 16) (hbelow 56 8) (hbelow 48 8) (hbelow 40 8)
    (hbelow 32 8) (hbelow 24 8) (hbelow 16 8) (hbelow 8 8) (hbelow 0 8), hfirst,
    shiftRight_mul_add n 16 80, shiftRight_mul_add n 16 64, shiftRight_mul_add n 8 56,
    shiftRight_mul_add n 8 48, shiftRight_mul_add n 8 40, shiftRight_mul_add n 8 32,
    shiftRight_mul_add n 8 24, shiftRight_mul_add n 8 16, shiftRight_mul_add n 8 8,
    shiftRight_mul_add n 8 0, Nat.shiftRight_zero]

/-- Parts that fit into their places make up a number of 128 bits, and they are its parts. -/
theorem value_spec {parts : GuidParts} (h : parts.IsInRange) :
    parts.value < 2 ^ 128 ∧ ofNumber parts.value = parts := by
  obtain ⟨a, b, c, data4⟩ := parts
  obtain ⟨ha, hb, hc, hcount, hbyte⟩ := h
  match data4, hcount with
  | [b₀, b₁, b₂, b₃, b₄, b₅, b₆, b₇], _ =>
    simp only [List.forall_mem_cons, List.not_mem_nil, false_implies, implies_true, and_true] at hbyte
    obtain ⟨h₀, h₁, h₂, h₃, h₄, h₅, h₆, h₇⟩ := hbyte
    dsimp only at ha hb hc
    lift a to Nat using ha.1
    lift b to Nat using hb.1
    lift c to Nat using hc.1
    lift b₀ to Nat using h₀.1
    lift b₁ to Nat using h₁.1
    lift b₂ to Nat using h₂.1
    lift b₃ to Nat using h₃.1
    lift b₄ to Nat using h₄.1
    lift b₅ to Nat using h₅.1
    lift b₆ to Nat using h₆.1
    lift b₇ to Nat using h₇.1
    norm_cast at ha hb hc h₀ h₁ h₂ h₃ h₄ h₅ h₆ h₇
    rw [value_eq hb.2 hc.2 h₀.2 h₁.2 h₂.2 h₃.2 h₄.2 h₅.2 h₆.2 h₇.2, ofNumber_eq]
    refine ⟨by omega, ?_⟩
    simp (disch := omega) only [shiftRight_above, mod_below, Nat.reduceSub, Nat.shiftRight_zero,
      Nat.mod_eq_of_lt ha.2]

/-! ## The digits of the parts -/

/-- The digits of a part are found among those of the number. -/
theorem hexDigits_part (n width : Nat) (hwidth : 0 < width) (below : Nat) :
    hexDigits width (n >>> (4 * below) % 2 ^ (4 * width)) = lastDigits width (n / 16 ^ below) := by
  have hpow (k : Nat) : 2 ^ (4 * k) = 16 ^ k := Nat.pow_mul 2 4 k
  rw [hpow, hexDigits_eq_lastDigits hwidth (Nat.mod_lt _ (Nat.pow_pos (by decide))), lastDigits_mod,
    Nat.shiftRight_eq_div_pow, hpow]

/-- The 32 digits of a number, cut into those of its parts. -/
theorem lastDigits_parts (n : Nat) :
    lastDigits 32 n = lastDigits 8 (n / 16 ^ 24) ++ (lastDigits 4 (n / 16 ^ 20) ++
      (lastDigits 4 (n / 16 ^ 16) ++ (lastDigits 2 (n / 16 ^ 14) ++ (lastDigits 2 (n / 16 ^ 12) ++
        (lastDigits 2 (n / 16 ^ 10) ++ (lastDigits 2 (n / 16 ^ 8) ++ (lastDigits 2 (n / 16 ^ 6) ++
          (lastDigits 2 (n / 16 ^ 4) ++ (lastDigits 2 (n / 16 ^ 2) ++
            lastDigits 2 (n / 16 ^ 0)))))))))) := by
  rw [lastDigits_append 8 24 n, lastDigits_append 4 20 n, lastDigits_append 4 16 n,
    lastDigits_append 2 14 n, lastDigits_append 2 12 n, lastDigits_append 2 10 n,
    lastDigits_append 2 8 n, lastDigits_append 2 6 n, lastDigits_append 2 4 n, lastDigits_append 2 2 n,
    Nat.pow_zero, Nat.div_one]

/-- The written form of the parts of a number shows the digits of the number. -/
theorem canonical_ofNumber (n : Nat) : (ofNumber n).canonical =
    dashed (lastDigits 8 (n / 16 ^ 24)) (lastDigits 4 (n / 16 ^ 20)) (lastDigits 4 (n / 16 ^ 16))
      (lastDigits 2 (n / 16 ^ 14) ++ lastDigits 2 (n / 16 ^ 12))
      (lastDigits 2 (n / 16 ^ 10) ++ (lastDigits 2 (n / 16 ^ 8) ++ (lastDigits 2 (n / 16 ^ 6) ++
        (lastDigits 2 (n / 16 ^ 4) ++ (lastDigits 2 (n / 16 ^ 2) ++ lastDigits 2 (n / 16 ^ 0)))))) := by
  have hlong := fun below => hexDigits_part n 8 (by decide) below
  have hmiddle := fun below => hexDigits_part n 4 (by decide) below
  have hshort := fun below => hexDigits_part n 2 (by decide) below
  rw [ofNumber_eq, canonical]
  simp only [Int.toNat_natCast, List.take_succ_cons, List.take_zero, List.drop_succ_cons,
    List.drop_zero, List.flatMap_cons, List.flatMap_nil, List.append_nil]
  rw [← hlong 24, ← hmiddle 20, ← hmiddle 16, ← hshort 14, ← hshort 12, ← hshort 10, ← hshort 8,
    ← hshort 6, ← hshort 4, ← hshort 2, ← hshort 0]

/-- The written form of the parts of a number spells it. -/
theorem spellsGuid_canonical {n : Nat} (h : n < 2 ^ 128) : SpellsGuid (ofNumber n).canonical n := by
  have hdigits : WritesHex (lastDigits 32 n) n := by
    rw [← hexDigits_eq_lastDigits (by decide) (Nat.lt_of_lt_of_eq h (by decide))]
    exact writesHex_hexDigits 32 n
  rw [canonical_ofNumber]
  refine ⟨_, _, _, _, _, rfl, ?_, by simp⟩
  rw [lastDigits_parts] at hdigits
  simpa only [List.append_assoc] using hdigits

end GuidParts

/-! ## Decomposing a spelling -/

/-- A text without a character of a part is not changed by removing the part. -/
theorem removeAll_of_not_mem {part text : List Char} {c : Char} (hpart : c ∈ part) (htext : c ∉ text) :
    removeAll part text = text := by
  refine removeAll_eq_self ?_
  rw [Bool.eq_false_iff, ne_eq, occursIn_iff]
  exact fun hoccurs => htext (hoccurs.subset hpart)

/-- A spelling has the shape of a written identifier. -/
theorem isGuidShaped_dashed {a b c d e : List Char} (ha : a.length = 8) (hb : b.length = 4)
    (hc : c.length = 4) (hd : d.length = 4) (he : e.length = 12) :
    isGuidShaped (dashed a b c d e) = true := by
  rw [isGuidShaped, Bool.and_eq_true, decide_eq_true_eq]
  constructor
  · simp [dashed, guidLength, ha, hb, hc, hd, he]
  · simp [dashed, guidDashes, List.getElem?_append_right, ha, hb, hc, hd]

/-- The characters of a text with dashes. -/
theorem mem_dashed {a b c d e : List Char} {x : Char} (h : x ∈ dashed a b c d e) :
    x = '-' ∨ x ∈ a ++ b ++ c ++ d ++ e := by
  simp only [dashed, List.mem_append, List.mem_cons] at h ⊢
  tauto

/-- The groups are the digits if there is nothing in them that is taken away. -/
theorem guidDigits_dashed {a b c d e : List Char}
    (h : ∀ x ∈ a ++ b ++ c ++ d ++ e, x ∉ ['-', ':', '\x7b', '\x7d']) :
    guidDigits (dashed a b c d e) = a ++ b ++ c ++ d ++ e := by
  have hcolon : ':' ∉ dashed a b c d e := by
    intro hx
    rcases mem_dashed hx with hx | hx
    · cases hx
    · exact h _ hx (by decide)
  have hstrip : strip (fun x => x = '\x7b' || x = '\x7d') (dashed a b c d e) = dashed a b c d e := by
    refine Numeral.strip_eq_self fun x hx => ?_
    rw [Bool.or_eq_false_iff, decide_eq_false_iff_not, decide_eq_false_iff_not]
    rcases mem_dashed hx with rfl | hx
    · decide
    · constructor <;> rintro rfl <;> exact h _ hx (by decide)
  have hkeep : (a ++ b ++ c ++ d ++ e).filter (· ≠ '-') = a ++ b ++ c ++ d ++ e := by
    refine List.filter_eq_self.mpr fun x hx => decide_eq_true ?_
    rintro rfl
    exact h _ hx (by decide)
  have hfilter : (dashed a b c d e).filter (· ≠ '-') = a ++ b ++ c ++ d ++ e := by
    rw [← hkeep]
    simp [dashed]
  rw [guidDigits, removeAll_of_not_mem (c := ':') (by decide) hcolon,
    removeAll_of_not_mem (c := ':') (by decide) hcolon, hstrip, hfilter]

/-- A spelling is decomposed to the parts of its number. -/
theorem SpellsGuid.decomposeGuid {text : String} {n : Nat} (h : SpellsGuid text.toList n) :
    decomposeGuid text = .ok (.ofNumber n) := by
  obtain ⟨a, b, c, d, e, htext, hdigits, ha, hb, hc, hd, he⟩ := h
  have hguid : guidDigits text.toList = a ++ b ++ c ++ d ++ e := by
    refine htext ▸ guidDigits_dashed fun x hx hmark => (hdigits.isBareDigit _ hx).not_mark ?_
    simp only [List.mem_cons, List.not_mem_nil, or_false] at hmark ⊢
    tauto
  have hshape : isGuidShaped text.toList = true := htext ▸ isGuidShaped_dashed ha hb hc hd he
  have hlength : (a ++ b ++ c ++ d ++ e).length = 32 := by simp [ha, hb, hc, hd, he]
  rw [SdkBindings.decomposeGuid]
  dsimp only
  rw [if_pos hshape, hguid, if_pos hlength, Numeral.readInteger?_hex hdigits]
  rfl

/-! ## The literals of the accessor -/

namespace Module

/-- Without the mark of a literal there is none. -/
theorem hexLiterals_append {text : List Char} (h : 'x' ∉ text) {after : List Char}
    (hafter : after.head? ≠ some 'x') : hexLiterals (text ++ after) = hexLiterals after := by
  induction text with
  | nil => rfl
  | cons c text ih =>
    have htext : 'x' ∉ text := fun hx => h (List.mem_cons_of_mem c hx)
    rw [List.cons_append, hexLiterals, ih htext]
    rintro rest - hrest
    cases text with
    | nil => exact hafter (by rw [← List.nil_append after, hrest, List.head?_cons])
    | cons d text =>
      cases hrest
      exact htext List.mem_cons_self

/-- No hexadecimal digit is the mark of a literal. -/
theorem not_mem_of_isHexDigit {digits : List Char} (h : ∀ d ∈ digits, isHexDigit d = true) :
    'x' ∉ digits :=
  fun hx => absurd (h 'x' hx) (by decide)

/-- A text that may stand behind a literal: it goes on with no digit and with no mark. -/
def EndsLiteral (after : List Char) : Prop :=
  ∀ c ∈ after.head?, isHexDigit c = false ∧ c ≠ 'x'

/-- Only the first character matters. -/
theorem endsLiteral_cons {c : Char} (h : isHexDigit c = false ∧ c ≠ 'x') (after : List Char) :
    EndsLiteral (c :: after) := by
  intro d hd
  cases hd
  exact h

/-- A literal is found by its mark and ends with its digits. -/
theorem hexLiterals_literal {digits after : List Char} (h : ∀ d ∈ digits, isHexDigit d = true)
    (hafter : EndsLiteral after) :
    hexLiterals ('0' :: 'x' :: (digits ++ after)) = digits :: hexLiterals after := by
  have htake : (digits ++ after).takeWhile isHexDigit = digits := by
    rw [List.takeWhile_append_of_pos h]
    cases after with
    | nil => rw [List.takeWhile_nil, List.append_nil]
    | cons c after =>
      rw [List.takeWhile_cons_of_neg (by simp [(hafter c rfl).1]), List.append_nil]
  rw [hexLiterals, htake, hexLiterals_append (not_mem_of_isHexDigit h)]
  exact fun hx => (hafter 'x' hx).2 rfl

/-- A line with one literal. -/
theorem hexLiterals_argument {digits : String} (h : ∀ d ∈ digits.toList, isHexDigit d = true)
    (level : Nat) :
    hexLiterals (Line.body level ("0x" ++ digits ++ ",")).render.toList = [digits.toList] := by
  have hrender : (Line.body level ("0x" ++ digits ++ ",")).render.toList =
      List.replicate (4 * level) ' ' ++ '0' :: 'x' :: (digits.toList ++ [',']) := by
    simp [Line.render_body, indentation]
  rw [hrender, hexLiterals_append (by simp) (by simp),
    hexLiterals_literal h (endsLiteral_cons (by decide) [])]
  rfl

/-- Literals with commas between them. -/
theorem hexLiterals_intercalate {texts : List String}
    (h : ∀ text ∈ texts, ∀ d ∈ text.toList, isHexDigit d = true) {after : List Char}
    (hafter : EndsLiteral after) :
    hexLiterals ((", ".intercalate (texts.map ("0x" ++ ·))).toList ++ after) =
      texts.map String.toList ++ hexLiterals after := by
  induction texts with
  | nil => rfl
  | cons text texts ih =>
    obtain ⟨htext, htexts⟩ := List.forall_mem_cons.mp h
    cases texts with
    | nil => simpa using hexLiterals_literal htext hafter
    | cons text' texts =>
      let rest := (", ".intercalate ((text' :: texts).map ("0x" ++ ·))).toList ++ after
      have hlist : (", ".intercalate ((text :: text' :: texts).map ("0x" ++ ·))).toList ++ after =
          '0' :: 'x' :: (text.toList ++ ',' :: ' ' :: rest) := by
        simp [rest]
      have hseparator : 'x' ∉ [',', ' '] := by decide
      have hrest : hexLiterals (',' :: ' ' :: rest) = hexLiterals rest :=
        hexLiterals_append hseparator (by simp)
      rw [hlist, hexLiterals_literal htext (endsLiteral_cons (by decide) _), hrest, ih htexts]
      rfl

/-- A line without the mark of a literal has none. -/
theorem hexLiterals_render {level : Nat} {text : String} (h : 'x' ∉ text.toList) :
    hexLiterals (Line.body level text).render.toList = [] := by
  have hrender : (Line.body level text).render.toList =
      (List.replicate (4 * level) ' ' ++ text.toList) ++ [] := by
    simp [Line.render_body, indentation]
  rw [hrender, hexLiterals_append (by simp [h]) (by simp)]
  rfl

/-- The line with the bytes has a literal for each. -/
theorem hexLiterals_bytes (bytes : List Nat) :
    hexLiterals (Line.body 3 ("(ctypes.c_ubyte * 8)(" ++ ", ".intercalate
        ((bytes.map fun m : Nat => hexUpper 2 (m : Int)).map ("0x" ++ ·)) ++ "),")).render.toList =
      bytes.map fun m : Nat => (hexUpper 2 (m : Int)).toList := by
  let texts := bytes.map fun m : Nat => hexUpper 2 (m : Int)
  let literals := (", ".intercalate (texts.map ("0x" ++ ·))).toList
  have htexts : ∀ text ∈ texts, ∀ d ∈ text.toList, isHexDigit d = true := by
    intro text htext d hd
    obtain ⟨m, -, rfl⟩ := List.mem_map.mp htext
    exact isHexDigit_of_mem_hexUpper hd
  have hrender : (Line.body 3 ("(ctypes.c_ubyte * 8)(" ++ ", ".intercalate
      (texts.map ("0x" ++ ·)) ++ "),")).render.toList =
        (List.replicate 12 ' ' ++ "(ctypes.c_ubyte * 8)(".toList) ++ (literals ++ "),".toList) := by
    simp [Line.render_body, indentation, literals]
  have hopening : 'x' ∉ List.replicate 12 ' ' ++ "(ctypes.c_ubyte * 8)(".toList := by decide
  have hhead : (literals ++ "),".toList).head? ≠ some 'x' := by
    cases htexts : texts with
    | nil => simp [literals, htexts]
    | cons text texts => cases texts <;> simp [literals, htexts]
  have hends : EndsLiteral "),".toList := endsLiteral_cons (by decide) [',']
  have hclosing : hexLiterals "),".toList = [] := by decide
  rw [hrender, hexLiterals_append hopening hhead, hexLiterals_intercalate htexts hends, hclosing,
    List.append_nil, List.map_map]
  rfl

/-- The accessor passes a literal for each part, padded and in upper case. -/
theorem literalsOf_guidAccessor {s : Struct} {a b c : Nat} {bytes : List Nat}
    (hguid : 'x' ∉ s.guid.toList)
    (hparts : s.guidParts = some ⟨a, b, c, bytes.map fun m : Nat => (m : Int)⟩) :
    ∃ lines, guidAccessor s = .ok lines ∧ literalsOf lines =
      (hexUpper 8 (a : Int)).toList :: (hexUpper 4 (b : Int)).toList :: (hexUpper 4 (c : Int)).toList ::
        bytes.map fun m : Nat => (hexUpper 2 (m : Int)).toList := by
  have hargument (width m : Nat) :
      hexLiterals (Line.body 3 ("0x" ++ hexUpper width (m : Int) ++ ",")).render.toList =
        [(hexUpper width (m : Int)).toList] :=
    hexLiterals_argument (fun d hd => isHexDigit_of_mem_hexUpper hd) 3
  have hbytes := hexLiterals_bytes bytes
  have hremark : 'x' ∉ ("\"\"\"Interface identifier \x7b" ++ s.guid ++ "\x7d.\"\"\"").toList := by
    simp only [String.toList_append, List.mem_append, not_or]
    exact ⟨⟨by decide, hguid⟩, by decide⟩
  have hdecorator : 'x' ∉ "@classmethod".toList := by decide
  have hdef : 'x' ∉ "def guid(cls):".toList := by decide
  have hreturn : 'x' ∉ ("return " ++ guidExpr ++ "(").toList := by decide
  have hend : 'x' ∉ ")".toList := by decide
  rw [List.map_map] at hbytes
  rw [guidAccessor, hparts]
  refine ⟨_, rfl, ?_⟩
  rw [List.map_map, literalsOf]
  simp only [List.flatMap_cons, List.flatMap_nil, List.append_nil]
  rw [hexLiterals_render hdecorator, hexLiterals_render hdef, hexLiterals_render hremark,
    hexLiterals_render hreturn, hexLiterals_render hend, hargument, hargument, hargument,
    List.append_nil]
  exact congrArg (_ :: _ :: _ :: ·) hbytes

end Module

/-! ## The round trip -/

/-- A number has 128 bits where it is spelled. -/
theorem SpellsGuid.lt {text : List Char} {n : Nat} (h : SpellsGuid text n) : n < 2 ^ 128 := by
  obtain ⟨a, b, c, d, e, -, hdigits, ha, hb, hc, hd, he⟩ := h
  have hlt := hdigits.lt
  simp only [List.length_append, ha, hb, hc, hd, he] at hlt
  exact Nat.lt_of_lt_of_eq hlt (by decide)

/-- A spelling does not have the mark of a hexadecimal literal. -/
theorem SpellsGuid.not_mem {text : List Char} {n : Nat} (h : SpellsGuid text n) : 'x' ∉ text := by
  obtain ⟨a, b, c, d, e, rfl, hdigits, -⟩ := h
  have hdigit : 'x' ∉ a ++ b ++ c ++ d ++ e := Module.not_mem_of_isHexDigit hdigits.digitsNumber.2.1
  have hdash : 'x' ≠ '-' := by decide
  simp only [List.mem_append, not_or] at hdigit
  simp only [dashed, List.mem_append, List.mem_cons, not_or]
  tauto

/-- The literals of the accessor for a number show its 32 digits, each part with its own. -/
theorem literalsOf_number {s : Struct} {n : Nat} (hguid : SpellsGuid s.guid.toList n)
    (hparts : s.guidParts = some (.ofNumber n)) :
    ∃ lines, Module.guidAccessor s = .ok lines ∧
      (Module.literalsOf lines).map List.length = [8, 4, 4, 2, 2, 2, 2, 2, 2, 2, 2] ∧
      (Module.literalsOf lines).flatten = (hexUpper 32 n).toList := by
  have hpart (width below : Nat) (hwidth : 0 < width) :
      (hexUpper width ((n >>> (4 * below) % 2 ^ (4 * width) : Nat) : Int)).toList =
        (lastDigits width (n / 16 ^ below)).map Char.toUpper := by
    rw [toList_hexUpper, GuidParts.hexDigits_part n width hwidth]
  have hlong := fun below => hpart 8 below (by decide)
  have hmiddle := fun below => hpart 4 below (by decide)
  have hshort := fun below => hpart 2 below (by decide)
  let bytes := [n >>> 56 % 2 ^ 8, n >>> 48 % 2 ^ 8, n >>> 40 % 2 ^ 8, n >>> 32 % 2 ^ 8,
    n >>> 24 % 2 ^ 8, n >>> 16 % 2 ^ 8, n >>> 8 % 2 ^ 8, n >>> 0 % 2 ^ 8]
  have hbytes : s.guidParts = some ⟨(n >>> 96 % 2 ^ 32 : Nat), (n >>> 80 % 2 ^ 16 : Nat),
      (n >>> 64 % 2 ^ 16 : Nat), bytes.map fun m : Nat => (m : Int)⟩ :=
    hparts.trans (congrArg some (GuidParts.ofNumber_eq n))
  have hdigits : (hexUpper 32 (n : Int)).toList = (lastDigits 32 n).map Char.toUpper := by
    rw [toList_hexUpper, hexDigits_eq_lastDigits (by decide)
      (Nat.lt_of_lt_of_eq hguid.lt (by decide))]
  obtain ⟨lines, haccessor, hliterals⟩ := Module.literalsOf_guidAccessor hguid.not_mem hbytes
  simp only [bytes, List.map_cons, List.map_nil] at hliterals
  rw [hlong 24, hmiddle 20, hmiddle 16, hshort 14, hshort 12, hshort 10, hshort 8, hshort 6, hshort 4,
    hshort 2, hshort 0] at hliterals
  refine ⟨lines, haccessor, ?_, ?_⟩
  · simp [hliterals]
  · rw [hliterals, hdigits, GuidParts.lastDigits_parts]
    simp

/-- **An identifier keeps its value.**  Every spelling of a number, in either case, is decomposed to
parts that fit into their places and make the number up again.  The accessor that is generated for a
struct with this identifier passes one literal for each part, padded with zeros, and together they
show the 32 digits of the number in upper case.  Conversely, parts that fit into their places come
back from the text that they are written as. -/
theorem decomposeGuid_roundTrip :
    (∀ (n : Nat) (text : String), SpellsGuid text.toList n →
      n < 2 ^ 128 ∧ ∃ parts, decomposeGuid text = .ok parts ∧ parts.IsInRange ∧ parts.value = n ∧
        ∀ s : Struct, s.guid = text →
          Transform.decomposeStruct s = .done { s with guidParts := some parts } ∧
          ∃ lines, Module.guidAccessor { s with guidParts := some parts } = .ok lines ∧
            (Module.literalsOf lines).map List.length = [8, 4, 4, 2, 2, 2, 2, 2, 2, 2, 2] ∧
            (Module.literalsOf lines).flatten = (hexUpper 32 n).toList) ∧
    ∀ parts : GuidParts, parts.IsInRange →
      SpellsGuid parts.canonical parts.value ∧
        decomposeGuid (String.ofList parts.canonical) = .ok parts := by
  refine ⟨fun n text h => ?_, fun parts h => ?_⟩
  · refine ⟨h.lt, .ofNumber n, h.decomposeGuid, GuidParts.isInRange_ofNumber n,
      GuidParts.value_ofNumber h.lt, ?_⟩
    rintro s rfl
    refine ⟨?_, literalsOf_number h rfl⟩
    have hsome : s.guid ≠ "" := by
      intro hempty
      obtain ⟨a, b, c, d, e, htext, -, ha, -⟩ := h
      have hlength := congrArg List.length htext
      simp [hempty, dashed] at hlength
    rw [Transform.decomposeStruct, if_neg hsome, h.decomposeGuid]
  · obtain ⟨hlt, hvalue⟩ := GuidParts.value_spec h
    have hspells : SpellsGuid parts.canonical parts.value := by
      have hcanonical := GuidParts.spellsGuid_canonical hlt
      rwa [hvalue] at hcanonical
    refine ⟨hspells, ?_⟩
    have htext : SpellsGuid (String.ofList parts.canonical).toList parts.value := by
      rwa [String.toList_ofList]
    rw [htext.decomposeGuid, hvalue]

/-- An identifier in both cases and its parts. -/
theorem decomposeGuid_roundTrip_mixed :
    SpellsGuid "839D1216-bb2e-412b-B7f4-a9dbebe08ed1".toList 0x839D1216BB2E412BB7F4A9DBEBE08ED1 ∧
    (∃ parts, decomposeGuid "839D1216-bb2e-412b-B7f4-a9dbebe08ed1" = .ok parts ∧
      parts.value = 0x839D1216BB2E412BB7F4A9DBEBE08ED1) ∧
    GuidParts.IsInRange ⟨0x839D1216, 0xBB2E, 0x12B, [0xB7, 0xF4, 0xA9, 0xDB, 0xEB, 0xE0, 0x8E, 0xD1]⟩ ∧
    decomposeGuid "839d1216-bb2e-012b-b7f4-a9dbebe08ed1" =
      .ok ⟨0x839D1216, 0xBB2E, 0x12B, [0xB7, 0xF4, 0xA9, 0xDB, 0xEB, 0xE0, 0x8E, 0xD1]⟩ := by
  have hspells : SpellsGuid "839D1216-bb2e-412b-B7f4-a9dbebe08ed1".toList
      0x839D1216BB2E412BB7F4A9DBEBE08ED1 := by
    have hdigits : WritesHex "839D1216bb2e412bB7f4a9dbebe08ed1".toList
        (digitsNumber 16 hexValue? "839D1216bb2e412bB7f4a9dbebe08ed1".toList) :=
      writesHex_of_isHexDigit (by decide) (List.all_eq_true.mp (by decide))
    have hnumber : digitsNumber 16 hexValue? "839D1216bb2e412bB7f4a9dbebe08ed1".toList =
        0x839D1216BB2E412BB7F4A9DBEBE08ED1 := by decide
    rw [hnumber] at hdigits
    exact ⟨"839D1216".toList, "bb2e".toList, "412b".toList, "B7f4".toList, "a9dbebe08ed1".toList,
      by decide, hdigits, by decide⟩
  have hrange : GuidParts.IsInRange
      ⟨0x839D1216, 0xBB2E, 0x12B, [0xB7, 0xF4, 0xA9, 0xDB, 0xEB, 0xE0, 0x8E, 0xD1]⟩ :=
    ⟨by decide, by decide, by decide, rfl, by decide⟩
  have hcanonical : String.ofList (GuidParts.canonical
      ⟨0x839D1216, 0xBB2E, 0x12B, [0xB7, 0xF4, 0xA9, 0xDB, 0xEB, 0xE0, 0x8E, 0xD1]⟩) =
        "839d1216-bb2e-012b-b7f4-a9dbebe08ed1" := by decide +kernel
  obtain ⟨-, parts, hparts, -, hvalue, -⟩ := decomposeGuid_roundTrip.1 _ _ hspells
  have hback := (decomposeGuid_roundTrip.2 _ hrange).2
  rw [hcanonical] at hback
  exact ⟨hspells, ⟨parts, hparts, hvalue⟩, hrange, hback⟩

end SdkBindings
