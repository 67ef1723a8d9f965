import SdkBindings.Files.Access

/-!
# A tree of files

A tree says what there is at each location and where the working directory is.  A path is followed
name by name: every name but the last has to lead to a directory, and `..` leads from a directory to
the one it lies in.  The root is always there and lies in itself.  A path that is too long as a whole
is refused before it is followed, a name that is too long when its turn comes.  The room for a file may
be limited; what has no room is lost, and what has stays.
-/

namespace SdkBindings

/-- What there can be at a location. -/
inductive Node where
  /-- A directory. -/
  | directory
  /-- A file with its bytes. -/
  | file (content : List UInt8)
  /-- A device that is always empty and keeps nothing. -/
  | sink
  deriving DecidableEq, Repr

/-- The kind of a node. -/
def Node.kind : Node → FileKind
  | .directory => .directory
  | .file _ => .file
  | .sink => .other

/-- The names that lead from the root to a place, innermost first. -/
abbrev Location := List String

/-- Files and directories by their locations. -/
structure Tree where
  /-- The working directory. -/
  home : Location
  /-- What there is; of two entries for a location the first counts. -/
  nodes : List (Location × Node)
  /-- The most bytes that a file at a location can have, if there is a limit. -/
  capacity : Location → Option Nat := fun _ => none

namespace Tree

/-- A tree that holds only its working directory. -/
def empty : Tree := { home := ["home"], nodes := [(["home"], .directory)] }

/-- What there is at a location. -/
def node? (t : Tree) (location : Location) : Option Node :=
  if location = [] then some .directory else t.nodes.lookup location

/-- Puts something at a location. -/
def put (t : Tree) (location : Location) (node : Node) : Tree :=
  { t with nodes := (location, node) :: t.nodes.filter (·.1 ≠ location) }

/-- What was put at a location is there. -/
theorem node?_put_self {t : Tree} {location : Location} {node : Node} (h : location ≠ []) :
    (t.put location node).node? location = some node := by
  simp [node?, put, h]

/-- Dropping the entries of one location leaves the others in place. -/
theorem lookup_filter_ne {location other : Location} (h : other ≠ location)
    (nodes : List (Location × Node)) :
    (nodes.filter (·.1 ≠ location)).lookup other = nodes.lookup other := by
  induction nodes with
  | nil => rfl
  | cons entry rest ih =>
    obtain ⟨l, n⟩ := entry
    by_cases hl : l = location
    · subst hl
      have hb : (other == l) = false := by simpa using h
      rw [List.filter_cons_of_neg (by simp), List.lookup_cons, hb]
      exact ih
    · rw [List.filter_cons_of_pos (by simp [hl]), List.lookup_cons, List.lookup_cons, ih]

/-- Nothing changes at other locations. -/
theorem node?_put_of_ne {t : Tree} {location other : Location} {node : Node}
    (h : other ≠ location) : (t.put location node).node? other = t.node? other := by
  have hb : (other == location) = false := by simpa using h
  simp only [node?, put, List.lookup_cons, hb, lookup_filter_ne h]

/-- The longest a name may be, in bytes. -/
def nameLimit : Nat := 255

/-- How long a path as a whole must stay below, in bytes. -/
def pathLimit : Nat := 4096

/-- The location that one more name leads to. -/
def enter (location : Location) (name : String) : Location :=
  if name = ".." then location.tail else name :: location

/-- The location that names lead to.  The last name need not lead to anything. -/
def follow (t : Tree) (location : Location) : List String → Except FileFault Location
  | [] => .ok location
  | name :: rest =>
    match t.node? location with
    | none => .error .notFound
    | some (.file _) | some .sink => .error .notDirectory
    | some .directory =>
      if name.utf8ByteSize > nameLimit then .error .nameTooLong
      else t.follow (enter location name) rest

/-- The location that a path leads to. -/
def locate (t : Tree) (path : Path) : Except FileFault Location :=
  if path.holdsNull then .error .nullCharacter
  else if path.render.utf8ByteSize ≥ pathLimit then .error .nameTooLong
  else t.follow (if path.anchor = .relative then t.home else []) path.names

/-- What there is at a path. -/
def find (t : Tree) (path : Path) : Except FileFault Node := do
  let location ← t.locate path
  match t.node? location with
  | none => .error .notFound
  | some node => .ok node

/-- The bytes of a file. -/
def read (t : Tree) (path : Path) : Except FileFault (List UInt8) := do
  match ← t.find path with
  | .directory => .error .isDirectory
  | .file content => .ok content
  | .sink => .ok []

/-- Makes a file that is empty, or empties the one that is there. -/
def create (t : Tree) (path : Path) : Except FileFault Tree := do
  let location ← t.locate path
  match t.node? location with
  | some .directory => .error .isDirectory
  | some .sink => .ok t
  | some (.file _) | none => .ok (t.put location (.file []))

/-- There is no room for more bytes. -/
def noSpace : FileFault := .other 28 "No space left on device"

/-- Adds bytes to those of a file as far as there is room for them. -/
def extend (t : Tree) (location : Location) (content bytes : List UInt8) :
    Except FileFault Unit × Tree :=
  let fitting := match t.capacity location with
    | none => bytes
    | some room => bytes.take (room - content.length)
  (if fitting = bytes then .ok () else .error noSpace, t.put location (.file (content ++ fitting)))

/-- Adds bytes to the end of a file, which need not exist. -/
def append (t : Tree) (path : Path) (bytes : List UInt8) : Except FileFault Unit × Tree :=
  match t.locate path with
  | .error fault => (.error fault, t)
  | .ok location =>
    match t.node? location with
    | some .directory => (.error .isDirectory, t)
    | some .sink => (.ok (), t)
    | some (.file content) => t.extend location content bytes
    | none => t.extend location [] bytes

/-- Makes one directory. -/
def makeDirectory (t : Tree) (path : Path) : Except FileFault Tree := do
  let location ← t.locate path
  match t.node? location with
  | some _ => .error .alreadyThere
  | none => .ok (t.put location .directory)

/-- Keeps the changed tree of an operation, or the old one if it failed. -/
def commit (change : Tree → Except FileFault Tree) : StateM Tree (Except FileFault Unit) := fun t =>
  match change t with
  | .ok t' => (.ok (), t')
  | .error fault => (.error fault, t)

/-- The operations of a run on a tree. -/
def access : FileAccess (StateM Tree) where
  kind path := fun t => ((t.find path).map Node.kind, t)
  read path := fun t => (t.read path, t)
  create path := commit fun t => t.create path
  append path bytes := fun t => t.append path bytes
  makeDirectory path := commit fun t => t.makeDirectory path

/-- A location below the working directory, as a path from there. -/
def relative? (t : Tree) (location : Location) : Option String :=
  if location.length > t.home.length ∧ location.drop (location.length - t.home.length) = t.home then
    some ("/".intercalate (location.take (location.length - t.home.length)).reverse)
  else none

/-- The paths below the working directory of what is of one kind, in the order of their code points. -/
def listed (t : Tree) (kind : FileKind) : List String :=
  ((t.nodes.filter fun entry => entry.2.kind = kind).filterMap fun entry =>
    t.relative? entry.1).mergeSort fun a b => decide (a ≤ b)

end Tree

end SdkBindings
