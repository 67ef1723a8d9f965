import SdkBindings.Text.WordCharacter

/-!
# Names in a generated module

A name that is a keyword of the generated language gets an underscore.  The names that an expression
looks up are its maximal words that start with an ASCII letter or an underscore and do not follow a
point, apart from keywords and the name of the foreign function library.
-/

namespace SdkBindings.Module

/-- The keywords of the generated language. -/
def keywords : List String :=
  ["False", "None", "True", "and", "as", "assert", "async", "await", "break", "class", "continue",
    "def", "del", "elif", "else", "except", "finally", "for", "from", "global", "if", "import", "in",
    "is", "lambda", "nonlocal", "not", "or", "pass", "raise", "return", "try", "while", "with",
    "yield"]

/-- A name that can be bound. -/
def safeName (name : String) : String :=
  if keywords.contains name then name ++ "_" else name

/-- No keyword is a safe name of itself. -/
theorem safeName_ne_of_mem {name : String} (h : name ∈ keywords) : safeName name ≠ name := by
  intro he
  have hl := congrArg String.length he
  simp [safeName, h] at hl

/-- Whether a word can start with the character. -/
def startsName (c : Char) : Bool :=
  c.isAlpha || c = '_'

/-- The words of a text that may be names; `previous` is the character before the text. -/
def words (previous : Option Char) (text : List Char) : List (List Char) :=
  match text with
  | [] => []
  | c :: rest =>
    if startsName c && !previous.any fun p => Text.isWordCharacter p || p = '.' then
      let tail := rest.takeWhile Text.isWordCharacter
      (c :: tail) :: words (some c) (rest.drop tail.length)
    else words (some c) rest
termination_by text.length
decreasing_by all_goals (simp only [List.length_cons, List.length_drop]; omega)

/-- The foreign function library, whose members need no definition. -/
def libraryName : String := "ctypes"

/-- The names an expression looks up, in order and without repetition. -/
def referencedNames (expression : String) : List String :=
  (((words none expression.toList).map String.ofList).filter fun name =>
    name ≠ libraryName && !keywords.contains name).eraseDups

/-- Names in the order of their code points. -/
def sortNames (names : List String) : List String :=
  names.mergeSort fun a b => decide (a ≤ b)

/-- The names of an expression that are not among the known ones. -/
def unknownNames (known : List String) (expression : String) : List String :=
  (referencedNames expression).filter fun name => !known.contains name

example : referencedNames "A + x.B(C * 2 * A)" = ["A", "x", "C"] := by decide +kernel

end SdkBindings.Module
