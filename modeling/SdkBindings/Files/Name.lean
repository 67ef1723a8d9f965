import SdkBindings.Files.Path
import SdkBindings.Files.Replacement
import SdkBindings.Text.Substring

/-!
# Names of output files

A name is made safe for every file system: characters other than ASCII letters, digits, `_`, `-` and
`.` are replaced, runs of the replacement collapse into one, and the replacement is removed from both
ends.  What is left of a name with nothing safe in it is `unnamed`.
-/

namespace SdkBindings.FileName

/-- Whether a character may stand in a file name. -/
def isSafe (c : Char) : Bool :=
  c.isAlphanum || c = '_' || c = '-' || c = '.'

/-- The name of what has no name. -/
def unnamed : String := "unnamed"

/-- A name with its unsafe characters replaced. -/
def replaceUnsafe (replacement name : List Char) : List Char :=
  name.flatMap fun c => if isSafe c then [c] else replacement

/-- Replaces every run of the replacement: the replacement, followed by any number of further copies
of its last character. -/
def collapse (replacement : List Char) (become : List Char → List Char) : List Char → List Char
  | [] => []
  | c :: rest =>
    match replacement.getLast? with
    | none => c :: rest
    | some last =>
      if replacement.isPrefixOf (c :: rest) then
        let after := rest.drop (replacement.length - 1)
        let more := after.takeWhile (· = last)
        become (replacement ++ more) ++ collapse replacement become (after.drop more.length)
      else c :: collapse replacement become rest
termination_by text => text.length
decreasing_by all_goals (simp only [List.length_cons, List.length_drop]; omega)

/-- A text, or the name of what has none. -/
def orUnnamed (text : List Char) : String :=
  if text = [] then unnamed else String.ofList text

/-- A safe name, where `become` says what a run of the replacement turns into. -/
def sanitizeBy (replacement : List Char) (become : List Char → List Char) (name : String) : String :=
  if name = "" then unnamed
  else
    orUnnamed (Text.strip replacement.contains
      (collapse replacement become (replaceUnsafe replacement name.toList)))

/-- A safe name, with underscores for what is not safe. -/
def sanitize (name : String) : String :=
  sanitizeBy ['_'] (fun _ => ['_']) name

/-- A safe name with a given replacement.  The replacement is read as a text with escapes when there
is something to collapse. -/
def sanitizeWith (replacement name : String) : Except Replacement.Error String :=
  let r := replacement.toList
  if name = "" ∨ !Text.occursIn r (replaceUnsafe r name.toList) then .ok (sanitizeBy r id name)
  else if r = [] then .error (.malformed .nothingToRepeat 0 "+")
  else do
    let pieces ← Replacement.read replacement
    pure (sanitizeBy r (Replacement.expand pieces) name)

/-- The name of the dump of a header: its safe name, with another ending. -/
def dump (header : String) : String :=
  sanitize (Path.ofString header).stem ++ ".json"

/-- The name of the file of a module. -/
def moduleFile (moduleName : String) : String :=
  sanitize moduleName ++ ".py"

example : dump "sub/DXGI Type.h" = "DXGI_Type.json" ∧ moduleFile "été" = "t.py" := by decide +kernel

end SdkBindings.FileName
