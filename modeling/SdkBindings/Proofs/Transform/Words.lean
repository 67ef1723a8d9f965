import SdkBindings.Proofs.Lexing.Forms
import SdkBindings.Proofs.Transform.Prefixes

/-!
# Removing names from a text with other characters

When the parts that are removed are names, the characters that belong to no name are left alone: each of
them stays where it is (`filter_strip`), and what stands in front of one and behind it can be dealt with
one by one (`strip_append`).  So if what has been removed from the front of a text leaves something that
is known up to its other characters, it leaves it from exactly that front (`strip_append_eq`).
-/

namespace SdkBindings

open Lexer (EndsWord isIdentPart isIdentStart)

/-- The character belongs to no name. -/
def isOuter (c : Char) : Bool :=
  !isIdentPart c

/-- A name has no such character. -/
theorem filter_isOuter_word {text : List Char} (h : ∀ c ∈ text, isIdentPart c = true) :
    text.filter isOuter = [] := by
  refine List.filter_eq_nil_iff.mpr fun c hc => ?_
  rw [isOuter, h c hc]
  exact Bool.false_ne_true

namespace Text

variable {part : List Char} (hpart : Lexer.isIdentifier part = true)

include hpart

/-- A name consists of characters of names. -/
theorem isIdentPart_of_mem {c : Char} (h : c ∈ part) : isIdentPart c = true := by
  cases part with
  | nil => cases h
  | cons d rest =>
    rw [Lexer.isIdentifier, Bool.and_eq_true, List.all_eq_true] at hpart
    rcases List.mem_cons.mp h with rfl | h
    · exact Lexer.isIdentPart_of_isIdentStart hpart.1
    · exact hpart.2 c h

/-- A name does not lie across the seam to what no name goes on in. -/
theorem isSeam_endsWord (a : List Char) {b : List Char} (hb : EndsWord b) : IsSeam part a b := by
  rintro left right rfl - hright - hbegin
  obtain ⟨c, rest, rfl⟩ := List.exists_cons_of_ne_nil hright
  obtain ⟨tail, rfl⟩ := hbegin
  have hc := isIdentPart_of_mem hpart (List.mem_append_right left List.mem_cons_self)
  cases hc.symm.trans (hb c rfl)

/-- A character that starts no name stays. -/
theorem removeAll_cons_of_not_start {c : Char} (hc : isIdentStart c = false) (text : List Char) :
    removeAll part (c :: text) = c :: removeAll part text := by
  refine removeAll_cons ?_
  rintro ⟨-, tail, htail⟩
  cases part with
  | nil => cases hpart
  | cons d rest =>
    obtain rfl : d = c := (List.cons.inj htail).1
    rw [Lexer.isIdentifier, hc] at hpart
    cases hpart

/-- The characters that belong to no name stay in their order. -/
theorem filter_removeAll (text : List Char) :
    (removeAll part text).filter isOuter = text.filter isOuter := by
  have hnone : part.filter isOuter = [] := filter_isOuter_word fun c => isIdentPart_of_mem hpart
  induction hlength : text.length using Nat.strongRecOn generalizing text with
  | ind n ih =>
    cases text with
    | nil => rw [removeAll]
    | cons c rest =>
      by_cases hhit : part ≠ [] ∧ part <+: c :: rest
      · obtain ⟨hne, tail, hrest⟩ := hhit
        have hshorter : tail.length < n := by
          have hpos := List.length_pos_iff.mpr hne
          have hsum := congrArg List.length hrest
          rw [List.length_append] at hsum
          omega
        rw [← hrest, removeAll_self_append hne, ih _ hshorter tail rfl, List.filter_append, hnone,
          List.nil_append]
      · rw [removeAll_cons hhit, List.filter_cons, List.filter_cons,
          ih rest.length (by rw [← hlength]; exact Nat.lt_succ_self _) rest rfl]

end Text

namespace Transform

open Text

/-- Nothing can be removed from nothing. -/
theorem strip_empty (prefixes : List String) : strip prefixes [] = [] :=
  List.sublist_nil.mp (strip_sublist prefixes [])

variable {prefixes : List String} (hprefixes : ∀ part ∈ prefixes, IsName part)

include hprefixes

/-- A character that starts no name stays where it is. -/
theorem strip_cons_of_not_start {c : Char} (hc : isIdentStart c = false) (text : List Char) :
    strip prefixes (c :: text) = c :: strip prefixes text := by
  induction prefixes generalizing text with
  | nil => rfl
  | cons part prefixes ih =>
    obtain ⟨hpart, hrest⟩ := List.forall_mem_cons.mp hprefixes
    rw [strip_cons, strip_cons, removeAll_cons_of_not_start hpart hc, ih hrest]

/-- A character of no name starts none. -/
theorem strip_cons_of_outer {c : Char} (hc : isIdentPart c = false) (text : List Char) :
    strip prefixes (c :: text) = c :: strip prefixes text := by
  refine strip_cons_of_not_start hprefixes (Bool.eq_false_iff.mpr fun hstart => ?_) text
  cases (Lexer.isIdentPart_of_isIdentStart hstart).symm.trans hc

/-- What no name goes on in stays so. -/
theorem endsWord_strip {text : List Char} (h : EndsWord text) : EndsWord (strip prefixes text) := by
  cases text with
  | nil =>
    rw [strip_empty]
    exact h
  | cons c text =>
    rw [strip_cons_of_outer hprefixes (h c rfl)]
    exact h

/-- **Names are removed between other characters.**  Up to a character that belongs to no name, they
are removed whatever follows. -/
theorem strip_append (a : List Char) {b : List Char} (hb : EndsWord b) :
    strip prefixes (a ++ b) = strip prefixes a ++ strip prefixes b := by
  induction prefixes generalizing a b with
  | nil => rfl
  | cons part prefixes ih =>
    obtain ⟨hpart, hrest⟩ := List.forall_mem_cons.mp hprefixes
    have hone : ∀ other ∈ [part], IsName other := List.forall_mem_singleton.mpr hpart
    have hstrip : EndsWord (strip [part] b) := endsWord_strip hone hb
    have hb' : EndsWord (removeAll part.toList b) := hstrip
    rw [strip_cons, strip_cons, strip_cons, removeAll_append (isSeam_endsWord hpart a hb),
      ih hrest _ hb']

/-- The characters that belong to no name stay in their order. -/
theorem filter_strip (text : List Char) :
    (strip prefixes text).filter isOuter = text.filter isOuter := by
  induction prefixes generalizing text with
  | nil => rfl
  | cons part prefixes ih =>
    obtain ⟨hpart, hrest⟩ := List.forall_mem_cons.mp hprefixes
    rw [strip_cons, ih hrest, filter_removeAll hpart]

/-- What is left of a text, in front of something that no name goes on in, does not end within another
text with the same characters of no name. -/
theorem strip_append_eq {text front back rest : List Char}
    (hsame : text.filter isOuter = front.filter isOuter) (hback : EndsWord back)
    (h : strip prefixes text ++ back = front ++ rest) :
    ∃ more, strip prefixes text = front ++ more ∧ rest = more ++ back ∧
      ∀ c ∈ more, isIdentPart c = true := by
  have hfilter := filter_strip hprefixes text
  rw [hsame] at hfilter
  have hword {more : List Char} (hmore : more.filter isOuter = []) :
      ∀ c ∈ more, isIdentPart c = true := by
    intro c hc
    have hc' := List.filter_eq_nil_iff.mp hmore c hc
    rwa [isOuter, Bool.not_eq_true', Bool.not_eq_false] at hc'
  rcases List.append_eq_append_iff.mp h with ⟨more, hfront, hrest⟩ | ⟨more, hstrip, hrest⟩
  · rw [hfront, List.filter_append, List.self_eq_append_right] at hfilter
    cases more with
    | nil => exact ⟨[], by simp [hfront], by simpa using hrest.symm, List.forall_mem_nil _⟩
    | cons c more =>
      have hc := hword hfilter c List.mem_cons_self
      rw [hrest] at hback
      cases hc.symm.trans (hback c rfl)
  · rw [hstrip, List.filter_append, List.append_right_eq_self] at hfilter
    exact ⟨more, hstrip, hrest, hword hfilter⟩

end Transform

end SdkBindings
