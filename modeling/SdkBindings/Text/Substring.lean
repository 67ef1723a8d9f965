/-!
# Parts of a text

Looking for a literal part of a text, and taking all its occurrences away.
-/

namespace SdkBindings.Text

/-- Whether a part occurs in a text. -/
def occursIn (part text : List Char) : Bool :=
  match text with
  | [] => part.isEmpty
  | c :: rest => part.isPrefixOf (c :: rest) || occursIn part rest

/-- A part occurs if the text can be cut around it. -/
theorem occursIn_iff {part text : List Char} : occursIn part text = true ↔ part <:+: text := by
  induction text with
  | nil => simp [occursIn]
  | cons c rest ih =>
    rw [occursIn, Bool.or_eq_true, ih, List.isPrefixOf_iff_prefix, List.infix_cons_iff]

/-- A text without the occurrences of a part, found from left to right without overlap. -/
def removeAll (part text : List Char) : List Char :=
  match text with
  | [] => []
  | c :: rest =>
    if part ≠ [] ∧ part.isPrefixOf (c :: rest) then removeAll part (rest.drop (part.length - 1))
    else c :: removeAll part rest
termination_by text.length
decreasing_by all_goals (simp only [List.length_cons, List.length_drop]; omega)

/-- A text in which a part does not occur stays as it is. -/
theorem removeAll_eq_self {part text : List Char} (h : occursIn part text = false) :
    removeAll part text = text := by
  induction text with
  | nil => rw [removeAll]
  | cons c rest ih =>
    rw [occursIn, Bool.or_eq_false_iff] at h
    rw [removeAll, if_neg (by simp [h.1]), ih h.2]

/-- Removing nothing changes nothing. -/
theorem removeAll_nil (text : List Char) : removeAll [] text = text := by
  induction text with
  | nil => rw [removeAll]
  | cons c rest ih => rw [removeAll, if_neg (by simp), ih]

example : removeAll "aa".toList "aaabaa".toList = "ab".toList := by decide +kernel

end SdkBindings.Text
