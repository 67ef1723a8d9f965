import SdkBindings.Environment
import SdkBindings.Proofs.Declared.Names
import SdkBindings.Proofs.Transform.Canonical
import SdkBindings.Transform.Normalize

/-!
# What removing prefixes leaves of a name

Removing a part from a text can be done piece by piece, as long as no occurrence lies across the seam of
the pieces (`removeAll_append`), and what is left of a text can be traced back to where it stood
(`removeAll_eq_append_cons`).  Both are carried from one prefix to all of them (`strip_append_cons`,
`strip_eq_append_cons`).

With the vendor's prefixes this decides what becomes of a name.  What is left starts with a character
that follows a part of the name that has been removed altogether.  Conversely, behind such a part a digit
stays where it is: an occurrence that takes a digit from behind a seam ends in `D` or `D1` in front of it
(`IsVendorPart`), and a text with such an end never vanishes (`strip_ne_nil`).  So an identifier stays
one unless nothing or a digit follows a part of it that vanishes (`isName_normalize_iff`).
-/

namespace SdkBindings

namespace Text

variable {part a b : List Char}

/-! ## One part -/

/-- No occurrence of the part lies across the seam of two texts. -/
def IsSeam (part a b : List Char) : Prop :=
  ∀ left right, part = left ++ right → left ≠ [] → right ≠ [] → left <:+ a → ¬ right <+: b

/-- At a part that is removed. -/
theorem removeAll_self_append (hpart : part ≠ []) (text : List Char) :
    removeAll part (part ++ text) = removeAll part text := by
  obtain ⟨c, rest, rfl⟩ := List.exists_cons_of_ne_nil hpart
  have hhit : (c :: rest).isPrefixOf (c :: (rest ++ text)) = true :=
    List.isPrefixOf_iff_prefix.mpr (List.prefix_append (c :: rest) text)
  rw [List.cons_append, removeAll, if_pos ⟨hpart, hhit⟩, List.length_cons, Nat.add_sub_cancel,
    List.drop_left]

/-- At a character that stays. -/
theorem removeAll_cons {c : Char} {rest : List Char} (h : ¬ (part ≠ [] ∧ part <+: c :: rest)) :
    removeAll part (c :: rest) = c :: removeAll part rest := by
  rw [removeAll, if_neg (by rwa [List.isPrefixOf_iff_prefix])]

/-- Two texts may be dealt with one by one if no occurrence lies across their seam. -/
theorem removeAll_append (h : IsSeam part a b) :
    removeAll part (a ++ b) = removeAll part a ++ removeAll part b := by
  induction hlength : a.length using Nat.strongRecOn generalizing a with
  | ind n ih =>
    cases a with
    | nil => rw [removeAll, List.nil_append, List.nil_append]
    | cons c rest =>
      by_cases hhit : part ≠ [] ∧ part <+: c :: rest
      · obtain ⟨hpart, tail, hrest⟩ := hhit
        have hshorter : tail.length < n := by
          have hpos := List.length_pos_iff.mpr hpart
          have hsum := congrArg List.length hrest
          rw [List.length_append] at hsum
          omega
        have htail : IsSeam part tail b := fun left right heq hleft hright hend =>
          h left right heq hleft hright (hend.trans (hrest ▸ List.suffix_append part tail))
        rw [← hrest, List.append_assoc, removeAll_self_append hpart, removeAll_self_append hpart,
          ih _ hshorter htail rfl]
      · have hmiss : ¬ (part ≠ [] ∧ part <+: c :: (rest ++ b)) := by
          rintro ⟨hpart, tail, htail⟩
          rcases List.append_eq_append_iff.mp (htail.trans (List.cons_append ..).symm) with
            ⟨more, hrest, -⟩ | ⟨right, hpart', hb⟩
          · exact hhit ⟨hpart, more, hrest.symm⟩
          · -- the part would lie across the seam unless it ended there
            by_cases hright : right = []
            · rw [hright, List.append_nil] at hpart'
              exact hhit ⟨hpart, hpart' ▸ List.prefix_refl _⟩
            · exact h (c :: rest) right hpart' (List.cons_ne_nil _ _) hright List.suffix_rfl
                (hb ▸ List.prefix_append right tail)
        have hrest : IsSeam part rest b := fun left right heq hleft hright hend =>
          h left right heq hleft hright (hend.trans (List.suffix_cons c rest))
        rw [List.cons_append, removeAll_cons hmiss, removeAll_cons hhit,
          ih rest.length (by rw [← hlength]; exact Nat.lt_succ_self _) hrest rfl, List.cons_append]

/-- What is left of a text up to a character comes from what stood in front of it. -/
theorem removeAll_eq_append_cons {text front : List Char} {d : Char} {back : List Char}
    (h : removeAll part text = front ++ d :: back) :
    ∃ p y, text = p ++ d :: y ∧ removeAll part p = front ∧ removeAll part (d :: y) = d :: back := by
  induction hlength : text.length using Nat.strongRecOn generalizing text front with
  | ind n ih =>
    cases text with
    | nil =>
      rw [removeAll] at h
      cases front <;> cases h
    | cons c rest =>
      by_cases hhit : part ≠ [] ∧ part <+: c :: rest
      · obtain ⟨hpart, tail, hrest⟩ := hhit
        have hshorter : tail.length < n := by
          have hpos := List.length_pos_iff.mpr hpart
          have hsum := congrArg List.length hrest
          rw [List.length_append] at hsum
          omega
        rw [← hrest, removeAll_self_append hpart] at h
        obtain ⟨p, y, rfl, hp, hy⟩ := ih _ hshorter h rfl
        refine ⟨part ++ p, y, by rw [← hrest, List.append_assoc], ?_, hy⟩
        rw [removeAll_self_append hpart, hp]
      · have hstays := removeAll_cons hhit
        rw [hstays] at h
        cases front with
        | nil =>
          obtain ⟨rfl, hback⟩ := List.cons.inj h
          refine ⟨[], rest, rfl, by rw [removeAll], ?_⟩
          rw [hstays, hback]
        | cons e front =>
          obtain ⟨rfl, hrest⟩ := List.cons.inj h
          obtain ⟨p, y, rfl, hp, hy⟩ :=
            ih rest.length (by rw [← hlength]; exact Nat.lt_succ_self _) hrest rfl
          refine ⟨c :: p, y, rfl, ?_, hy⟩
          have hmiss : ¬ (part ≠ [] ∧ part <+: c :: p) := fun h =>
            hhit ⟨h.1, h.2.trans (List.prefix_append (c :: p) (d :: y))⟩
          rw [removeAll_cons hmiss, hp]

end Text

namespace Transform

open Text

/-! ## All prefixes -/

/-- A text without the prefixes. -/
def strip (prefixes : List String) (text : List Char) : List Char :=
  prefixes.foldl (fun text part => removeAll part.toList text) text

@[simp]
theorem strip_nil (text : List Char) : strip [] text = text := rfl

@[simp]
theorem strip_cons (part : String) (prefixes : List String) (text : List Char) :
    strip (part :: prefixes) text = strip prefixes (removeAll part.toList text) := rfl

/-- The characters of a name without the prefixes. -/
@[simp]
theorem toList_normalize (prefixes : List String) (name : String) :
    (normalize prefixes name).toList = strip prefixes name.toList := by
  rw [normalize, String.toList_ofList, strip]

/-- Removing prefixes leaves the other characters in their order. -/
theorem strip_sublist (prefixes : List String) (text : List Char) :
    (strip prefixes text).Sublist text := by
  induction prefixes generalizing text with
  | nil => exact .refl text
  | cons part prefixes ih => exact (ih _).trans (removeAll_sublist _ _)

/-- What is left of a text up to a character comes from what stood in front of it. -/
theorem strip_eq_append_cons {prefixes : List String} {text front : List Char} {d : Char}
    {back : List Char} (h : strip prefixes text = front ++ d :: back) :
    ∃ p y, text = p ++ d :: y ∧ strip prefixes p = front := by
  induction prefixes generalizing text with
  | nil => exact ⟨front, back, h, rfl⟩
  | cons part prefixes ih =>
    obtain ⟨p, y, hremoved, hp⟩ := ih h
    obtain ⟨p', y', htext, hp', -⟩ := removeAll_eq_append_cons hremoved
    exact ⟨p', y', htext, by rw [strip_cons, hp', hp]⟩

/-! ## Prefixes of the vendor -/

/-- The text ends in `D` or `D1`. -/
def EndsFirm (text : List Char) : Prop :=
  ['D'] <:+ text ∨ ['D', '1'] <:+ text

instance (text : List Char) : Decidable (EndsFirm text) :=
  inferInstanceAs (Decidable (_ ∨ _))

/-- What is relied on of a prefix. -/
structure IsVendorPart (part : List Char) : Prop where
  /-- It is longer than what a firm end is made of. -/
  long : 2 < part.length
  /-- It starts with no digit. -/
  head : part.head?.all (fun c => !c.isDigit) = true
  /-- It has no firm end itself. -/
  open_ : ¬ EndsFirm part
  /-- In front of a digit its beginning has one. -/
  firm : ∀ i < part.length, 0 < i → part[i]?.all Char.isDigit = true → EndsFirm (part.take i)

/-- The prefixes that are removed by default are of this kind. -/
theorem areVendorParts_default :
    ∀ part ∈ Settings.default.stripPrefixes, IsVendorPart part.toList := by
  intro part h
  have hall : ∀ part ∈ Settings.default.stripPrefixes, 2 < part.toList.length ∧
      part.toList.head?.all (fun c => !c.isDigit) = true ∧ ¬ EndsFirm part.toList ∧
      ∀ i < part.toList.length, 0 < i → part.toList[i]?.all Char.isDigit = true →
        EndsFirm (part.toList.take i) := by
    decide +kernel
  obtain ⟨long, head, open_, firm⟩ := hall part h
  exact ⟨long, head, open_, firm⟩

namespace IsVendorPart

variable {part text : List Char}

/-- It is not empty. -/
theorem ne_nil (h : IsVendorPart part) : part ≠ [] := by
  rintro rfl
  exact absurd h.long (by decide)

/-- It lies across no seam in front of a firm end. -/
theorem isSeam_firm (h : IsVendorPart part) (front : List Char) {last : List Char}
    (hlast : last = ['D'] ∨ last = ['D', '1']) : IsSeam part front last := by
  rintro left right rfl - hright - hbegin
  have hright : right = ['D'] ∨ right = ['D', '1'] := by
    rcases hlast with rfl | rfl
    · exact .inl (by simpa [List.prefix_cons_iff, hright] using hbegin)
    · simp only [List.prefix_cons_iff, hright, false_or, List.prefix_nil] at hbegin
      obtain ⟨tail, rfl, rfl | ⟨_, rfl, rfl⟩⟩ := hbegin
      · exact .inl rfl
      · exact .inr rfl
  rcases hright with rfl | rfl
  · exact h.open_ (.inl (List.suffix_append left ['D']))
  · exact h.open_ (.inr (List.suffix_append left ['D', '1']))

/-- It cannot be found in a firm end. -/
theorem removeAll_firm (h : IsVendorPart part) {last : List Char}
    (hlast : last = ['D'] ∨ last = ['D', '1']) : removeAll part last = last := by
  refine removeAll_eq_self (Bool.eq_false_iff.mpr fun hoccurs => ?_)
  have hlength := (occursIn_iff.mp hoccurs).length_le
  have hlong := h.long
  rcases hlast with rfl | rfl <;> simp only [List.length_cons, List.length_nil] at hlength <;> omega

/-- Removing it leaves a firm end in place. -/
theorem endsFirm_removeAll (h : IsVendorPart part) (htext : EndsFirm text) :
    EndsFirm (removeAll part text) := by
  have hlast (last : List Char) (hlast : last = ['D'] ∨ last = ['D', '1']) (hend : last <:+ text) :
      last <:+ removeAll part text := by
    obtain ⟨front, rfl⟩ := hend
    rw [removeAll_append (h.isSeam_firm front hlast), h.removeAll_firm hlast]
    exact List.suffix_append _ last
  exact htext.imp (hlast _ (.inl rfl)) (hlast _ (.inr rfl))

/-- It lies across no seam between a text without a firm end and a digit. -/
theorem isSeam_digit (h : IsVendorPart part) (htext : ¬ EndsFirm text) {d : Char}
    (hd : d.isDigit = true) (back : List Char) : IsSeam part text (d :: back) := by
  rintro left right rfl hleft hright hend hbegin
  obtain ⟨c, rest, rfl⟩ := List.exists_cons_of_ne_nil hright
  obtain rfl : c = d := (List.cons_prefix_cons.mp hbegin).1
  have hfirm := h.firm left.length (by simp) (List.length_pos_iff.mpr hleft) (by simp [hd])
  rw [List.take_left] at hfirm
  exact htext (hfirm.imp (·.trans hend) (·.trans hend))

/-- It does not start at a digit. -/
theorem removeAll_digit (h : IsVendorPart part) {d : Char} (hd : d.isDigit = true) (back : List Char) :
    removeAll part (d :: back) = d :: removeAll part back := by
  refine removeAll_cons ?_
  rintro ⟨hpart, hbegin⟩
  obtain ⟨c, rest, rfl⟩ := List.exists_cons_of_ne_nil hpart
  obtain rfl : c = d := (List.cons_prefix_cons.mp hbegin).1
  have hhead := h.head
  simp [hd] at hhead

end IsVendorPart

section

variable {prefixes : List String} (hprefixes : ∀ part ∈ prefixes, IsVendorPart part.toList)
include hprefixes

/-- A text with a firm end does not vanish. -/
theorem strip_ne_nil {text : List Char} (h : EndsFirm text) : strip prefixes text ≠ [] := by
  induction prefixes generalizing text with
  | nil =>
    rintro rfl
    exact absurd h (by decide)
  | cons part prefixes ih =>
    have hpart := hprefixes part List.mem_cons_self
    exact ih (fun p hp => hprefixes p (List.mem_cons_of_mem _ hp)) (hpart.endsFirm_removeAll h)

/-- Behind what vanishes a digit stays where it is. -/
theorem strip_append_cons {front : List Char} (hfront : strip prefixes front = []) {d : Char}
    (hd : d.isDigit = true) (back : List Char) :
    ∃ rest, strip prefixes (front ++ d :: back) = d :: rest := by
  induction prefixes generalizing front back with
  | nil => exact ⟨back, by rw [strip_nil, show front = [] from hfront, List.nil_append]⟩
  | cons part prefixes ih =>
    have hpart := hprefixes part List.mem_cons_self
    have hloose : ¬ EndsFirm front := fun h => strip_ne_nil hprefixes h hfront
    obtain ⟨rest, hrest⟩ := ih (fun p hp => hprefixes p (List.mem_cons_of_mem _ hp)) hfront
      (removeAll part.toList back)
    refine ⟨rest, ?_⟩
    rw [strip_cons, removeAll_append (hpart.isSeam_digit hloose hd back),
      hpart.removeAll_digit hd back, hrest]

end

/-! ## Names -/

/-- The text consists of characters of a name. -/
def IsWordy (text : String) : Prop :=
  ∀ c ∈ text.toList, Lexer.isIdentPart c = true

instance (text : String) : Decidable (IsWordy text) :=
  inferInstanceAs (Decidable (∀ c ∈ text.toList, _))

/-- A character that continues a name starts one unless it is a digit. -/
theorem isIdentStart_iff {c : Char} :
    Lexer.isIdentStart c = true ↔ Lexer.isIdentPart c = true ∧ c.isDigit = false := by
  constructor
  · intro h
    have hall : ∀ n < 128, Lexer.isIdentStart (Char.ofNat n) = true →
        (Char.ofNat n).isDigit = false := by
      decide +kernel
    have hdigit := hall c.toNat (Lexer.toNat_lt_of_isIdentStart h)
    rw [Char.ofNat_toNat] at hdigit
    exact ⟨Lexer.isIdentPart_of_isIdentStart h, hdigit h⟩
  · rintro ⟨hpart, hdigit⟩
    rwa [Lexer.isIdentPart, Char.isAlphanum, hdigit, Bool.or_false] at hpart

/-- A name is a text of such characters that starts with no digit. -/
theorem isName_iff {text : String} :
    IsName text ↔ IsWordy text ∧ ∃ c rest, text.toList = c :: rest ∧ c.isDigit = false := by
  unfold IsName IsWordy
  cases text.toList with
  | nil => simp [Lexer.isIdentifier]
  | cons c rest =>
    rw [Lexer.isIdentifier, Bool.and_eq_true, List.all_eq_true, isIdentStart_iff, List.forall_mem_cons]
    simp [and_right_comm]

/-- Removing prefixes leaves characters of a name. -/
theorem isWordy_normalize (prefixes : List String) {text : String} (h : IsWordy text) :
    IsWordy (normalize prefixes text) := by
  intro c hc
  rw [toList_normalize] at hc
  exact h c ((strip_sublist prefixes text.toList).mem hc)

/-- Nothing or a digit follows a part of the text that vanishes. -/
def LosesStart (prefixes : List String) (text : String) : Prop :=
  ∃ front back, text = front ++ back ∧ normalize prefixes front = "" ∧
    back.toList.head?.all Char.isDigit = true

/-- **What becomes of a name.**  What is left is a name unless nothing or a digit follows a part that
vanishes. -/
theorem isName_normalize_iff {prefixes : List String}
    (hprefixes : ∀ part ∈ prefixes, IsVendorPart part.toList) {text : String} (h : IsWordy text) :
    IsName (normalize prefixes text) ↔ ¬ LosesStart prefixes text := by
  rw [isName_iff, toList_normalize, and_iff_right (isWordy_normalize prefixes h)]
  constructor
  · rintro ⟨c, rest, hstrip, hc⟩ ⟨front, back, rfl, hfront, hback⟩
    have hvanish : strip prefixes front.toList = [] := by
      rw [← toList_normalize, hfront, String.toList_empty]
    rw [String.toList_append] at hstrip
    match hlist : back.toList with
    | [] =>
      rw [hlist, List.append_nil, hvanish] at hstrip
      cases hstrip
    | d :: tail =>
      have hd : d.isDigit = true := by simpa [hlist] using hback
      obtain ⟨left, hleft⟩ := strip_append_cons hprefixes hvanish hd tail
      rw [hlist, hleft] at hstrip
      cases hstrip
      cases hd.symm.trans hc
  · intro hkeeps
    match hstrip : strip prefixes text.toList with
    | [] =>
      refine absurd ⟨text, "", String.append_empty.symm, ?_, rfl⟩ hkeeps
      rw [normalize, ← strip, hstrip, String.ofList_nil]
    | d :: left =>
      refine ⟨d, left, rfl, Bool.eq_false_iff.mpr fun hd => hkeeps ?_⟩
      have hstart : strip prefixes text.toList = [] ++ d :: left := hstrip
      obtain ⟨front, back, htext, hfront⟩ := strip_eq_append_cons hstart
      refine ⟨String.ofList front, String.ofList (d :: back), ?_, ?_, by simpa using hd⟩
      · rw [← String.ofList_append, ← htext, String.ofList_toList]
      · rw [normalize, ← strip, String.toList_ofList, hfront, String.ofList_nil]

end Transform

end SdkBindings
