import SdkBindings.Text.Split

/-!
# Paths

A path is a start and a list of names.  Empty names and the name `.` say nothing and are dropped when
a path is read, while `..` is kept, because what it leads to depends on the files there are.  A path
that starts with exactly two slashes keeps both; any other number of slashes counts as one.
-/

namespace SdkBindings

/-- Where a path starts. -/
inductive Anchor where
  /-- At the working directory. -/
  | relative
  /-- At the root. -/
  | root
  /-- At the root, written with two slashes. -/
  | doubleRoot
  deriving DecidableEq, Repr

/-- How a start is written. -/
def Anchor.text : Anchor → String
  | .relative => ""
  | .root => "/"
  | .doubleRoot => "//"

/-- A start and the names from there. -/
structure Path where
  /-- Where the path starts. -/
  anchor : Anchor
  /-- The names, outermost first. -/
  names : List String
  deriving DecidableEq, Repr

namespace Path

/-- The start of a written path. -/
def anchorOf (text : List Char) : Anchor :=
  match (text.takeWhile (· = '/')).length with
  | 0 => .relative
  | 2 => .doubleRoot
  | _ => .root

/-- Whether a name leads somewhere. -/
def isName (name : List Char) : Bool :=
  name ≠ [] && name ≠ ['.']

/-- Reads a path. -/
def ofString (text : String) : Path where
  anchor := anchorOf text.toList
  names := ((Text.splitAt '/' text.toList).filter isName).map String.ofList

/-- Writes a path; the working directory is a single point. -/
def render (path : Path) : String :=
  let text := path.anchor.text ++ "/".intercalate path.names
  if text = "" then "." else text

/-- A path continued by another one, unless that one has a start of its own. -/
def join (base path : Path) : Path :=
  match path.anchor with
  | .relative => ⟨base.anchor, base.names ++ path.names⟩
  | _ => path

/-- A path continued by a written one. -/
def child (base : Path) (text : String) : Path :=
  base.join (.ofString text)

/-- The last name of a path, empty if it has none. -/
def name (path : Path) : String :=
  path.names.getLast?.getD ""

/-- A name without its ending: what is before its last point, unless that point is its first or last
character. -/
def withoutEnding (name : List Char) : List Char :=
  match (name.reverse.dropWhile (· ≠ '.')).reverse with
  | [] => name
  | upToPoint =>
    if upToPoint.length = 1 ∨ upToPoint.length = name.length then name else upToPoint.dropLast

/-- The last name of a path without its ending. -/
def stem (path : Path) : String :=
  String.ofList (withoutEnding path.name.toList)

/-- Whether a name holds the null character, which ends a name for the operating system. -/
def holdsNull (path : Path) : Bool :=
  path.names.any fun name => name.toList.contains '\x00'

/-- A path with a start of its own replaces the path it continues. -/
theorem join_of_anchor_ne {base path : Path} (h : path.anchor ≠ .relative) :
    base.join path = path := by
  unfold join
  split
  · contradiction
  · rfl

/-- Continuing is associative. -/
theorem join_assoc (p q r : Path) : (p.join q).join r = p.join (q.join r) := by
  obtain ⟨a, ns⟩ := p
  obtain ⟨b, ms⟩ := q
  obtain ⟨c, ks⟩ := r
  cases b <;> cases c <;> simp [join]

example : (ofString "a//./b/").render = "a/b" ∧ (ofString "").render = "." ∧
    (ofString "//a/../b").render = "//a/../b" ∧ (ofString "///").render = "/" := by decide +kernel

example : (ofString "x/a.tar.gz").stem = "a.tar" ∧ (ofString ".h").stem = ".h" ∧
    (ofString "a.").stem = "a." ∧ (ofString "..").stem = ".." := by decide +kernel

end Path

end SdkBindings
