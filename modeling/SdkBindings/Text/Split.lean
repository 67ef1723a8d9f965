import SdkBindings.Text.Blank

/-!
# Splitting at a character

Lists in option values are written with commas and paths with slashes.  A text is cut at every
occurrence of a separator, so that a text without any is its only part.
-/

namespace SdkBindings.Text

/-- The parts of a text between occurrences of a character. -/
def splitAt (separator : Char) : List Char → List (List Char)
  | [] => [[]]
  | c :: rest =>
    if c = separator then [] :: splitAt separator rest
    else
      match splitAt separator rest with
      | part :: parts => (c :: part) :: parts
      | [] => [[c]]

/-- A text has at least one part. -/
theorem splitAt_ne_nil (separator : Char) (text : List Char) : splitAt separator text ≠ [] := by
  cases text with
  | nil => simp [splitAt]
  | cons c rest =>
    simp only [splitAt]
    split
    · simp
    · split <;> simp

/-- No part holds the separator. -/
theorem not_mem_of_mem_splitAt {separator : Char} {text part : List Char}
    (h : part ∈ splitAt separator text) : separator ∉ part := by
  induction text generalizing part with
  | nil => simp_all [splitAt]
  | cons c rest ih =>
    simp only [splitAt] at h
    split at h
    · rcases List.mem_cons.1 h with rfl | h
      · simp
      · exact ih h
    · next hc =>
      split at h
      · next first parts hs =>
        rcases List.mem_cons.1 h with rfl | h
        · have : separator ∉ first := ih (by simp [hs])
          simp only [List.mem_cons, not_or]
          exact ⟨fun he => hc he.symm, this⟩
        · exact ih (by simp [hs, h])
      · next hs => exact absurd hs (splitAt_ne_nil separator rest)

/-- A text without the separator is its only part. -/
theorem splitAt_of_not_mem {separator : Char} {text : List Char} (h : separator ∉ text) :
    splitAt separator text = [text] := by
  induction text with
  | nil => rfl
  | cons c rest ih =>
    rw [List.mem_cons, not_or] at h
    rw [splitAt, if_neg (Ne.symm h.1), ih h.2]

/-- The parts of two texts in a row are those of the one and of the other, except that the last part
of the first one and the first part of the second one are one part. -/
theorem exists_splitAt_append (separator : Char) (xs ys : List Char) :
    ∃ initial last first rest, splitAt separator xs = initial ++ [last] ∧
      splitAt separator ys = first :: rest ∧
      splitAt separator (xs ++ ys) = initial ++ (last ++ first) :: rest := by
  obtain ⟨first, rest, hys⟩ := List.exists_cons_of_ne_nil (splitAt_ne_nil separator ys)
  induction xs with
  | nil => exact ⟨[], [], first, rest, rfl, hys, hys⟩
  | cons c xs ih =>
    obtain ⟨initial, last, first', rest', hxs, hys', hall⟩ := ih
    rw [List.cons_append, splitAt, splitAt, hxs, hall]
    by_cases hc : c = separator
    · exact ⟨[] :: initial, last, first', rest', by simp [hc], hys', by simp [hc]⟩
    · cases initial with
      | nil => exact ⟨[], c :: last, first', rest', by simp [hc], hys', by simp [hc]⟩
      | cons part parts =>
        exact ⟨(c :: part) :: parts, last, first', rest', by simp [hc], hys', by simp [hc]⟩

/-- A separator between two texts keeps their parts apart. -/
theorem splitAt_append_cons (separator : Char) (xs ys : List Char) :
    splitAt separator (xs ++ separator :: ys) = splitAt separator xs ++ splitAt separator ys := by
  obtain ⟨initial, last, first, rest, hxs, hys, hall⟩ :=
    exists_splitAt_append separator xs (separator :: ys)
  rw [splitAt, if_pos rfl] at hys
  cases hys
  rw [hall, hxs, List.append_nil, List.append_assoc, List.singleton_append]

/-- The parts of a text hold nothing else. -/
theorem mem_of_mem_splitAt {separator : Char} {text part : List Char}
    (h : part ∈ splitAt separator text) {c : Char} (hc : c ∈ part) : c ∈ text := by
  induction text generalizing part with
  | nil =>
    obtain rfl := List.mem_singleton.mp h
    cases hc
  | cons d rest ih =>
    rw [splitAt] at h
    split at h
    · rcases List.mem_cons.mp h with rfl | h
      · cases hc
      · exact List.mem_cons_of_mem d (ih h hc)
    · obtain ⟨first, parts, hrest⟩ := List.exists_cons_of_ne_nil (splitAt_ne_nil separator rest)
      rw [hrest] at h ih
      rcases List.mem_cons.mp h with rfl | h
      · rcases List.mem_cons.mp hc with rfl | hc
        · exact List.mem_cons_self
        · exact List.mem_cons_of_mem d (ih List.mem_cons_self hc)
      · exact List.mem_cons_of_mem d (ih (List.mem_cons_of_mem first h) hc)

/-- The non-empty items of a list written with commas, each without the white space around it. -/
def splitList (text : String) : List String :=
  ((splitAt ',' text.toList).map (strip isBlank)).filterMap fun item =>
    if item = [] then none else some (String.ofList item)

example : splitList "a.h, b c.h,,  " = ["a.h", "b c.h"] := by decide +kernel

end SdkBindings.Text
