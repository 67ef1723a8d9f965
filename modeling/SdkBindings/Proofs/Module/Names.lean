import Mathlib.Data.List.TakeWhile
import SdkBindings.Proofs.Module.Definitions

/-!
# Names that the text of a wrapper looks up

The text of an expression is put together from pieces: the name of a function, its arguments and the
brackets and commas between them.  A character that belongs to no word keeps the words on its two sides
apart (`words_append_cons`), so the names that the whole looks up are those of the pieces
(`readNames_call`, `readNames_callPair`).  A piece that consists of word characters looks up nothing but
itself (`eq_of_mem_readNames`).
-/

namespace SdkBindings.Module

/-- The names that a text looks up, in order: its words that may be names, apart from keywords. -/
def readNames (text : String) : List String :=
  ((words none text.toList).map String.ofList).filter fun name => !keywords.contains name

/-- The names that an expression looks up, without the library. -/
theorem mem_referencedNames_iff {expression name : String} :
    name ∈ referencedNames expression ↔ name ∈ readNames expression ∧ name ≠ libraryName := by
  rw [referencedNames, readNames, List.mem_eraseDups, List.mem_filter, List.mem_filter]
  simp only [Bool.and_eq_true, decide_eq_true_eq, and_assoc, and_comm (a := name ≠ libraryName)]

/-! ## Words on two sides of a mark -/

/-- The character belongs to no word. -/
structure IsMark (c : Char) : Prop where
  /-- No word starts with it. -/
  startsName : Module.startsName c = false
  /-- It is not inside of one either. -/
  isWordCharacter : Text.isWordCharacter c = false

/-- What is left of a word behind its first character ends at a mark. -/
theorem takeWhile_append_mark {c : Char} (hc : IsMark c) (front rest : List Char) :
    (front ++ c :: rest).takeWhile Text.isWordCharacter = front.takeWhile Text.isWordCharacter := by
  rw [List.takeWhile_append, List.takeWhile_cons_of_neg (by simp [hc.isWordCharacter]),
    List.append_nil]
  split
  · rename_i hall
    exact ((List.takeWhile_prefix _).eq_of_length hall).symm
  · rfl

/-- A mark keeps the words on its two sides apart. -/
theorem words_append_cons {c : Char} (hc : IsMark c) (previous : Option Char)
    (front rest : List Char) :
    words previous (front ++ c :: rest) = words previous front ++ words (some c) rest := by
  fun_induction words previous front with
  | case1 previous => rw [List.nil_append, words, hc.startsName, Bool.false_and,
      if_neg Bool.false_ne_true, List.nil_append]
  | case2 previous d text hstarts tail ih =>
    have hlength : tail.length ≤ text.length := (List.takeWhile_prefix _).length_le
    rw [List.cons_append, words, if_pos hstarts, takeWhile_append_mark hc]
    dsimp only
    rw [List.drop_append_of_le_length hlength, ih, List.cons_append]
  | case3 previous d text hstarts ih =>
    rw [List.cons_append, words, if_neg hstarts, ih]

/-- Behind a mark other than a point a word starts as at the beginning of a text. -/
theorem words_some_mark {c : Char} (hc : IsMark c) (hpoint : c ≠ '.') (text : List Char) :
    words (some c) text = words none text := by
  cases text with
  | nil => rw [words, words]
  | cons d rest =>
    rw [words, words]
    simp [hc.isWordCharacter, hpoint]

/-- No word starts inside of one, nor behind a point. -/
theorem words_inside {c : Char} (hc : Text.isWordCharacter c = true ∨ c = '.') {text : List Char}
    (htext : ∀ d ∈ text, Text.isWordCharacter d = true) : words (some c) text = [] := by
  induction text generalizing c with
  | nil => rw [words]
  | cons d rest ih =>
    obtain ⟨hd, hrest⟩ := List.forall_mem_cons.mp htext
    have hprevious : (some c).any (fun p => Text.isWordCharacter p || p = '.') = true := by
      simpa using hc
    rw [words, hprevious, Bool.not_true, Bool.and_false, if_neg Bool.false_ne_true]
    exact ih (.inl hd) hrest

/-! ## Names in pieces of text -/

/-- A text of word characters looks up at most itself. -/
theorem eq_of_mem_readNames {text name : String} (h : IsWord text) (hname : name ∈ readNames text) :
    name = text := by
  rw [readNames, List.mem_filter, List.mem_map] at hname
  obtain ⟨⟨word, hword, rfl⟩, -⟩ := hname
  cases hchars : text.toList with
  | nil =>
    rw [hchars, words] at hword
    cases hword
  | cons c rest =>
    have hall : ∀ d ∈ c :: rest, Text.isWordCharacter d = true := hchars ▸ h
    obtain ⟨hc, hrest⟩ := List.forall_mem_cons.mp hall
    rw [hchars, words] at hword
    split at hword
    · have htail : rest.takeWhile Text.isWordCharacter = rest := List.takeWhile_eq_self_iff.mpr hrest
      rw [htail] at hword
      dsimp only at hword
      rw [List.drop_length, words, List.mem_singleton] at hword
      rw [hword, ← hchars, String.ofList_toList]
    · rw [words_inside (.inl hc) hrest] at hword
      cases hword

/-- The empty text looks up nothing. -/
theorem readNames_empty : readNames "" = [] := by
  decide +kernel

/-- The names of two pieces with a mark other than a point between them. -/
theorem readNames_append_mark {c : Char} (hc : IsMark c) (hpoint : c ≠ '.') (first second : String) :
    readNames (first ++ String.singleton c ++ second) = readNames first ++ readNames second := by
  have htext : (first ++ String.singleton c ++ second).toList = first.toList ++ c :: second.toList := by
    simp
  rw [readNames, htext, words_append_cons hc, words_some_mark hc hpoint, List.map_append,
    List.filter_append]
  rfl

/-- The names of a call are those of what is called and those of the arguments. -/
theorem readNames_call (callee : String) {opening : String} (hopening : opening = callee ++ "(")
    (arguments : String) :
    readNames (opening ++ arguments ++ ")") = readNames callee ++ readNames arguments := by
  have hclose := readNames_append_mark (c := ')') ⟨by decide, by decide +kernel⟩ (by decide)
    (callee ++ "(" ++ arguments) ""
  have hopen := readNames_append_mark (c := '(') ⟨by decide, by decide +kernel⟩ (by decide) callee
    arguments
  rw [readNames_empty, List.append_nil, String.append_empty] at hclose
  rw [hopening]
  exact hclose.trans hopen

/-- The names of a call with two arguments. -/
theorem readNames_callPair (callee : String) {opening : String} (hopening : opening = callee ++ "(")
    (first second : String) :
    readNames (opening ++ first ++ ", " ++ second ++ ")") =
      readNames callee ++ (readNames first ++ readNames second) := by
  have hspace := readNames_append_mark (c := ' ') ⟨by decide, by decide +kernel⟩ (by decide)
    (first ++ String.singleton ',') second
  have hcomma := readNames_append_mark (c := ',') ⟨by decide, by decide +kernel⟩ (by decide) first ""
  have hpair : (", " : String) = String.singleton ',' ++ String.singleton ' ' := by decide
  rw [readNames_empty, List.append_nil, String.append_empty] at hcomma
  rw [← hcomma, ← hspace, ← readNames_call callee hopening, hpair]
  simp only [String.append_assoc]

/-- A member of an object looks up the object only. -/
theorem readNames_member (object member : String) (hmember : IsWord member) :
    readNames (object ++ "." ++ member) = readNames object := by
  have htext : (object ++ "." ++ member).toList = object.toList ++ '.' :: member.toList := by simp
  rw [readNames, htext, words_append_cons ⟨by decide, by decide +kernel⟩,
    words_inside (.inr rfl) hmember, List.append_nil, readNames]

end SdkBindings.Module
