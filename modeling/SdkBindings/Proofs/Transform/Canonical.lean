import SdkBindings.Proofs.Numeral.Tolerance
import SdkBindings.Proofs.Transform.Identifiers

/-!
# Which identifiers are decomposed

An identifier is written canonically with dashes at four places and hexadecimal digits everywhere else
(`IsCanonicalGuid`).  The length and the dashes are compared with those of the written form, the digits
go through a reader that is made for other purposes: what it takes away first would leave too few
characters (`guidDigits_eq`), but the tolerant reader of integers behind it takes 32 characters for a
numeral that need not be 32 digits.

So the identifiers that are decomposed are those in the shape of the written form whose 32 characters
are a numeral (`decomposeGuid_eq_ok_iff`).  All canonical ones are among them, and others exactly if a
numeral of 32 characters has one that is no digit: a sign, a prefix, an underscore, white space or a
digit of another script.
-/

namespace SdkBindings

open Text Constant Numeral

/-! ## Shapes -/

/-- A written identifier in canonical form. -/
def IsCanonicalGuid (text : List Char) : Prop :=
  text.length = guidLength ∧
    ∀ i c, text[i]? = some c → if i ∈ guidDashes then c = '-' else isHexDigit c = true

/-- The text has the shape of a written identifier with the given characters between the dashes. -/
def HasGroups (text digits : List Char) : Prop :=
  ∃ a b c d e, text = dashed a b c d e ∧ digits = a ++ b ++ c ++ d ++ e ∧
    a.length = 8 ∧ b.length = 4 ∧ c.length = 4 ∧ d.length = 4 ∧ e.length = 12

/-- A text is cut at one of its characters. -/
theorem exists_append_cons {text : List Char} {i : Nat} {x : Char} (h : text[i]? = some x) :
    ∃ front back, text = front ++ x :: back ∧ front.length = i := by
  obtain ⟨hi, rfl⟩ := List.getElem?_eq_some_iff.mp h
  refine ⟨text.take i, text.drop (i + 1), ?_, ?_⟩
  · rw [← List.drop_eq_getElem_cons hi, List.take_append_drop]
  · rw [List.length_take]
    omega

/-- Behind a front, places count from its end. -/
theorem getElem?_behind {front back : List Char} {x : Char} {i j : Nat} (hi : front.length = i) :
    (front ++ x :: back)[i + 1 + j]? = back[j]? := by
  rw [List.getElem?_append_right (by omega), show i + 1 + j - front.length = j + 1 by omega,
    List.getElem?_cons_succ]

/-- A text in the shape of a written identifier has five groups. -/
theorem isGuidShaped_iff {text : List Char} :
    isGuidShaped text = true ↔ ∃ digits, HasGroups text digits := by
  constructor
  · intro h
    simp only [isGuidShaped, guidDashes, List.all_cons, List.all_nil, Bool.and_true, Bool.and_eq_true,
      decide_eq_true_eq] at h
    obtain ⟨hlength, h8, h13, h18, h23⟩ := h
    obtain ⟨a, rest, rfl, ha⟩ := exists_append_cons h8
    rw [getElem?_behind (j := 4) ha] at h13
    rw [getElem?_behind (j := 9) ha] at h18
    rw [getElem?_behind (j := 14) ha] at h23
    obtain ⟨b, rest, rfl, hb⟩ := exists_append_cons h13
    rw [getElem?_behind (j := 4) hb] at h18
    rw [getElem?_behind (j := 9) hb] at h23
    obtain ⟨c, rest, rfl, hc⟩ := exists_append_cons h18
    rw [getElem?_behind (j := 4) hc] at h23
    obtain ⟨d, e, rfl, hd⟩ := exists_append_cons h23
    refine ⟨_, a, b, c, d, e, rfl, rfl, ha, hb, hc, hd, ?_⟩
    simp only [List.length_append, List.length_cons, guidLength] at hlength
    omega
  · rintro ⟨digits, a, b, c, d, e, rfl, -, ha, hb, hc, hd, he⟩
    exact isGuidShaped_dashed ha hb hc hd he

/-- Between dashes the canonical form has digits. -/
theorem forall_mem_zipIdx {xs : List Char} {k : Nat}
    (h : ∀ i ∈ guidDashes, i < k ∨ k + xs.length ≤ i) :
    (∀ p ∈ xs.zipIdx k, if p.2 ∈ guidDashes then p.1 = '-' else isHexDigit p.1 = true) ↔
      ∀ c ∈ xs, isHexDigit c = true := by
  have hbetween {p : Char × Nat} (hp : p ∈ xs.zipIdx k) : p.2 ∉ guidDashes := by
    intro hdash
    have hplace := List.snd_lt_of_mem_zipIdx hp
    have hfirst := List.le_snd_of_mem_zipIdx hp
    rcases h p.2 hdash with hlt | hle <;> omega
  constructor
  · intro hall c hc
    rw [← List.zipIdx_map_fst k xs, List.mem_map] at hc
    obtain ⟨p, hp, rfl⟩ := hc
    have hfits := hall p hp
    rwa [if_neg (hbetween hp)] at hfits
  · intro hall p hp
    rw [if_neg (hbetween hp)]
    exact hall p.1 (List.fst_mem_of_mem_zipIdx hp)

/-- A text in the right shape is canonical if it has digits between the dashes. -/
theorem HasGroups.isCanonicalGuid_iff {text digits : List Char} (h : HasGroups text digits) :
    IsCanonicalGuid text ↔ ∀ c ∈ digits, isHexDigit c = true := by
  obtain ⟨a, b, c, d, e, rfl, rfl, ha, hb, hc, hd, he⟩ := h
  have hlength : (dashed a b c d e).length = guidLength := by
    simp [dashed, guidLength, ha, hb, hc, hd, he]
  have hplaces : (∀ i x, (dashed a b c d e)[i]? = some x →
        if i ∈ guidDashes then x = '-' else isHexDigit x = true) ↔
      ∀ p ∈ (dashed a b c d e).zipIdx,
        if p.2 ∈ guidDashes then p.1 = '-' else isHexDigit p.1 = true := by
    simp only [Prod.forall, List.mem_zipIdx_iff_getElem?]
    exact forall_comm
  have hgroup {xs : List Char} {k length : Nat} (hxs : xs.length = length)
      (hgap : ∀ i ∈ guidDashes, i < k ∨ k + length ≤ i) :
      (∀ p ∈ xs.zipIdx k, if p.2 ∈ guidDashes then p.1 = '-' else isHexDigit p.1 = true) ↔
        ∀ c ∈ xs, isHexDigit c = true :=
    forall_mem_zipIdx (hxs ▸ hgap)
  rw [IsCanonicalGuid, and_iff_right hlength, hplaces, dashed]
  simp only [List.zipIdx_append, List.zipIdx_cons, List.forall_mem_append, List.forall_mem_cons, ha, hb,
    hc, hd, Nat.reduceAdd, hgroup ha (k := 0) (by decide), hgroup hb (k := 9) (by decide),
    hgroup hc (k := 14) (by decide), hgroup hd (k := 19) (by decide),
    hgroup he (k := 24) (by decide)]
  simp [guidDashes, and_assoc]

/-- The canonical form has the shape of a written identifier. -/
theorem IsCanonicalGuid.exists_hasGroups {text : List Char} (h : IsCanonicalGuid text) :
    ∃ digits, HasGroups text digits := by
  obtain ⟨hlength, hplaces⟩ := h
  refine isGuidShaped_iff.mp ?_
  rw [isGuidShaped, Bool.and_eq_true, decide_eq_true_eq, List.all_eq_true]
  refine ⟨hlength, fun i hi => decide_eq_true ?_⟩
  have hinside : i < text.length := by
    have hall : ∀ i ∈ guidDashes, i < guidLength := by decide
    exact hlength ▸ hall i hi
  have hdash := hplaces i text[i] (List.getElem?_eq_getElem hinside)
  rw [if_pos hi] at hdash
  rw [List.getElem?_eq_getElem hinside, hdash]

/-- The texts in canonical form are the spellings of numbers. -/
theorem isCanonicalGuid_iff {text : List Char} : IsCanonicalGuid text ↔ ∃ n, SpellsGuid text n := by
  constructor
  · intro h
    obtain ⟨digits, hgroups⟩ := h.exists_hasGroups
    have hdigits := hgroups.isCanonicalGuid_iff.mp h
    obtain ⟨a, b, c, d, e, htext, rfl, hlengths⟩ := hgroups
    have hne : a ++ b ++ c ++ d ++ e ≠ [] := by
      have ha := hlengths.1
      rintro hnil
      simp_all
    exact ⟨_, a, b, c, d, e, htext, writesHex_of_isHexDigit hne hdigits, hlengths⟩
  · rintro ⟨n, a, b, c, d, e, htext, hdigits, hlengths⟩
    have hgroups : HasGroups text (a ++ b ++ c ++ d ++ e) := ⟨a, b, c, d, e, htext, rfl, hlengths⟩
    exact hgroups.isCanonicalGuid_iff.mpr hdigits.digitsNumber.2.1

/-! ## Digits -/

/-- Removing a part leaves the other characters in their order. -/
theorem removeAll_sublist (part text : List Char) : (removeAll part text).Sublist text := by
  fun_induction removeAll part text with
  | case1 => exact .slnil
  | case2 c rest _ ih => exact (ih.trans (List.drop_sublist _ _)).cons c
  | case3 c rest _ ih => exact ih.cons_cons c

/-- The text has 32 digits only if nothing was taken away between the dashes. -/
theorem guidDigits_eq {text digits : List Char} (h : HasGroups text digits)
    (hlength : (guidDigits text).length = 32) : guidDigits text = digits ∧ '-' ∉ digits := by
  obtain ⟨a, b, c, d, e, rfl, rfl, ha, hb, hc, hd, he⟩ := h
  have hstrip (p : Char → Bool) (text : List Char) : (strip p text).Sublist text := by
    obtain ⟨before, after, htext, -⟩ := exists_strip p text
    have hmiddle : (strip p text).Sublist (before ++ strip p text ++ after) :=
      (List.sublist_append_right _ _).trans (List.sublist_append_left _ _)
    rwa [← htext] at hmiddle
  have hgroups : (dashed a b c d e).filter (· ≠ '-') = (a ++ b ++ c ++ d ++ e).filter (· ≠ '-') := by
    simp [dashed]
  -- every step only leaves characters out, so 32 characters are all that stand between the dashes
  have hsublist : (guidDigits (dashed a b c d e)).Sublist (a ++ b ++ c ++ d ++ e) := by
    have hleft := (hstrip (fun c => c = '\x7b' || c = '\x7d') _).trans
      ((removeAll_sublist "uuid:".toList _).trans
        (removeAll_sublist "urn:".toList (dashed a b c d e)))
    have hfiltered := hleft.filter (· ≠ '-')
    rw [hgroups] at hfiltered
    exact hfiltered.trans List.filter_sublist
  have heq : guidDigits (dashed a b c d e) = a ++ b ++ c ++ d ++ e :=
    hsublist.eq_of_length (by simp [hlength, ha, hb, hc, hd, he])
  refine ⟨heq, fun hdash => ?_⟩
  rw [← heq, guidDigits, List.mem_filter] at hdash
  exact of_decide_eq_true hdash.2 rfl

/-- No character of a numeral but a minus is among those that are taken away from an identifier. -/
theorem not_mark_of_isNumeral {base : Nat} {digits : List Char} {n : Int} (h : IsNumeral base digits n)
    (hminus : '-' ∉ digits) {x : Char} (hx : x ∈ digits) : x ∉ ['-', ':', '\x7b', '\x7d'] := by
  have hnone : [':', '\x7b', '\x7d'].all (fun x => !isNumeralPart x) = true := by
    decide +kernel
  intro hmark
  rcases List.mem_cons.mp hmark with rfl | hmark
  · exact hminus hx
  · have hpart := List.all_eq_true.mp hnone x hmark
    rw [h.isNumeralPart hx] at hpart
    cases hpart

/-! ## What is decomposed -/

/-- The identifiers that are decomposed have the right shape and a numeral between the dashes. -/
theorem decomposeGuid_eq_ok_iff {guid : String} {parts : GuidParts} :
    decomposeGuid guid = .ok parts ↔
      ∃ (digits : List Char) (n : Nat), HasGroups guid.toList digits ∧ '-' ∉ digits ∧
        IsNumeral 16 digits n ∧ parts = .ofNumber n := by
  constructor
  · intro h
    rw [decomposeGuid] at h
    dsimp only at h
    split at h
    · rename_i hshape
      split at h
      · rename_i hlength
        obtain ⟨digits, hgroups⟩ := isGuidShaped_iff.mp hshape
        obtain ⟨hdigits, hminus⟩ := guidDigits_eq hgroups hlength
        split at h
        · rename_i n hn
          rw [hdigits, readInteger?_eq_some_iff] at hn
          obtain ⟨m, rfl⟩ := Int.eq_ofNat_of_zero_le (hn.nonneg hminus)
          cases h
          exact ⟨digits, m, hgroups, hminus, hn, rfl⟩
        · cases h
      · cases h
    · cases h
  · rintro ⟨digits, n, hgroups, hminus, hn, rfl⟩
    have hshape : isGuidShaped guid.toList = true := isGuidShaped_iff.mpr ⟨digits, hgroups⟩
    have hdigits : guidDigits guid.toList = digits := by
      obtain ⟨a, b, c, d, e, htext, rfl, -⟩ := hgroups
      rw [htext]
      exact guidDigits_dashed fun x hx => not_mark_of_isNumeral hn hminus hx
    have hlength : digits.length = 32 := by
      obtain ⟨a, b, c, d, e, -, rfl, ha, hb, hc, hd, he⟩ := hgroups
      simp [ha, hb, hc, hd, he]
    rw [decomposeGuid]
    dsimp only
    rw [if_pos hshape, hdigits, if_pos hlength, readInteger?_eq_some_iff.mpr hn]
    rfl

/-- The text has the shape of a written identifier, and the characters between the dashes are a numeral
without being digits. -/
def IsLooseGuid (text : List Char) : Prop :=
  ∃ (digits : List Char) (n : Nat), HasGroups text digits ∧ '-' ∉ digits ∧ IsNumeral 16 digits n ∧
    ∃ x ∈ digits, isHexDigit x = false

/-- A loose identifier is not in canonical form. -/
theorem IsLooseGuid.not_isCanonicalGuid {text : List Char} (h : IsLooseGuid text) :
    ¬ IsCanonicalGuid text := by
  obtain ⟨digits, n, hgroups, -, -, x, hx, hdigit⟩ := h
  intro hcanonical
  have hall := hgroups.isCanonicalGuid_iff.mp hcanonical x hx
  exact absurd (hall.symm.trans hdigit) (by decide)

/-- **What is decomposed.**  An identifier is decomposed if and only if it has the shape of the written
form and the 32 characters between the dashes are a numeral in base sixteen, which has 128 bits; the
parts are those of its number.  Otherwise it is reported, and as not canonical if the shape is wrong.
Every identifier in canonical form is decomposed, and no other one is if and only if it is not loose. -/
theorem decomposeGuid_spec (guid : String) :
    (∀ parts, decomposeGuid guid = .ok parts ↔
      ∃ (digits : List Char) (n : Nat), HasGroups guid.toList digits ∧ '-' ∉ digits ∧
        IsNumeral 16 digits n ∧ n < 2 ^ 128 ∧ parts = .ofNumber n) ∧
    ((¬ ∃ digits, HasGroups guid.toList digits) ↔ decomposeGuid guid = .error (.notCanonical guid)) ∧
    (IsCanonicalGuid guid.toList →
      ∃ n, SpellsGuid guid.toList n ∧ decomposeGuid guid = .ok (.ofNumber n)) ∧
    (((∃ parts, decomposeGuid guid = .ok parts) ↔ IsCanonicalGuid guid.toList) ↔
      ¬ IsLooseGuid guid.toList) := by
  have hcanonical (h : IsCanonicalGuid guid.toList) :
      ∃ n, SpellsGuid guid.toList n ∧ decomposeGuid guid = .ok (.ofNumber n) := by
    obtain ⟨n, hn⟩ := isCanonicalGuid_iff.mp h
    exact ⟨n, hn, hn.decomposeGuid⟩
  refine ⟨fun parts => ?_, ?_, hcanonical, ?_⟩
  · rw [decomposeGuid_eq_ok_iff]
    refine exists_congr fun digits => exists_congr fun n => ?_
    refine and_congr_right fun hgroups => and_congr_right fun _ => and_congr_right fun hn => ?_
    have hsize : n < 2 ^ 128 := by
      obtain ⟨a, b, c, d, e, -, rfl, ha, hb, hc, hd, he⟩ := hgroups
      have hlt := hn.natAbs_lt
      simp only [List.length_append, ha, hb, hc, hd, he, Int.natAbs_natCast] at hlt
      exact Nat.lt_of_lt_of_eq hlt (by decide)
    exact (and_iff_right hsize).symm
  · rw [← isGuidShaped_iff, decomposeGuid]
    dsimp only
    split <;> rename_i hshape
    · refine iff_of_false (not_not_intro hshape) ?_
      split
      · split <;> simp
      · simp
    · exact iff_of_true hshape rfl
  · constructor
    · intro hiff hloose
      obtain ⟨digits, n, hgroups, hminus, hn, -⟩ := id hloose
      have hdecomposed := decomposeGuid_eq_ok_iff.mpr ⟨digits, n, hgroups, hminus, hn, rfl⟩
      exact hloose.not_isCanonicalGuid (hiff.mp ⟨_, hdecomposed⟩)
    · intro hloose
      constructor
      · rintro ⟨parts, hparts⟩
        obtain ⟨digits, n, hgroups, hminus, hn, -⟩ := decomposeGuid_eq_ok_iff.mp hparts
        refine hgroups.isCanonicalGuid_iff.mpr fun x hx => ?_
        by_contra hdigit
        exact hloose ⟨digits, n, hgroups, hminus, hn, x, hx, Bool.eq_false_iff.mpr hdigit⟩
      · intro h
        obtain ⟨n, -, hdecomposed⟩ := hcanonical h
        exact ⟨_, hdecomposed⟩

/-- An identifier in canonical form, with digits in both cases. -/
theorem decomposeGuid_spec_mixed :
    IsCanonicalGuid "839D1216-bb2e-412b-B7f4-a9dbebe08ed1".toList ∧
      ∃ n, SpellsGuid "839D1216-bb2e-412b-B7f4-a9dbebe08ed1".toList n ∧
        decomposeGuid "839D1216-bb2e-412b-B7f4-a9dbebe08ed1" = .ok (.ofNumber n) := by
  have hplaces : ∀ p ∈ "839D1216-bb2e-412b-B7f4-a9dbebe08ed1".toList.zipIdx,
      if p.2 ∈ guidDashes then p.1 = '-' else isHexDigit p.1 = true := by
    decide +kernel
  have hcanonical : IsCanonicalGuid "839D1216-bb2e-412b-B7f4-a9dbebe08ed1".toList :=
    ⟨by decide, fun i c h => hplaces (c, i) (List.mem_zipIdx_iff_getElem?.mpr h)⟩
  exact ⟨hcanonical, (decomposeGuid_spec _).2.2.1 hcanonical⟩

/-- A sign in the place of the first digit. -/
theorem decomposeGuid_signed :
    ¬ IsCanonicalGuid "+39d1216-bb2e-412b-b7f4-a9dbebe08ed1".toList ∧
      decomposeGuid "+39d1216-bb2e-412b-b7f4-a9dbebe08ed1" =
        .ok ⟨0x39D1216, 0xBB2E, 0x412B, [0xB7, 0xF4, 0xA9, 0xDB, 0xEB, 0xE0, 0x8E, 0xD1]⟩ := by
  refine ⟨fun h => ?_, by decide +kernel⟩
  have hsign := h.2 0 '+' (by decide)
  exact absurd hsign (by decide)

end SdkBindings
