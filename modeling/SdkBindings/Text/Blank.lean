/-!
# Blank characters

The two notions of blank that show in the program's answers: the 29 white space characters of
Unicode that are trimmed from option values and generated text, and the six of them in ASCII that
may surround a numeral.
-/

namespace SdkBindings.Text

/-- The code points of Unicode white space, with the four information separators. -/
def blankPoints : List Nat :=
  [9, 10, 11, 12, 13, 28, 29, 30, 31, 32, 133, 160, 5760, 8192, 8193, 8194, 8195, 8196, 8197,
   8198, 8199, 8200, 8201, 8202, 8232, 8233, 8239, 8287, 12288]

/-- White space of every script. -/
def isBlank (c : Char) : Bool :=
  blankPoints.contains c.toNat

/-- Space, tab, line feed, vertical tab, form feed and carriage return. -/
def isAsciiBlank (c : Char) : Bool :=
  c = ' ' || (9 ≤ c.toNat && c.toNat ≤ 13)

/-- Every character that ASCII text may be padded with is blank. -/
theorem isBlank_of_isAsciiBlank {c : Char} (h : isAsciiBlank c = true) : isBlank c = true := by
  simp only [isAsciiBlank, Bool.or_eq_true, Bool.and_eq_true, decide_eq_true_eq] at h
  rcases h with h | ⟨h₁, h₂⟩
  · subst h; decide
  · have : c.toNat = 9 ∨ c.toNat = 10 ∨ c.toNat = 11 ∨ c.toNat = 12 ∨ c.toNat = 13 := by omega
    rcases this with h | h | h | h | h <;> simp [isBlank, blankPoints, h]

/-- Removes the characters of a class at both ends. -/
def strip (p : Char → Bool) (text : List Char) : List Char :=
  ((text.dropWhile p).reverse.dropWhile p).reverse

end SdkBindings.Text
