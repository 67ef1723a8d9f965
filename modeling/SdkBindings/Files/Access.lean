import SdkBindings.Files.Path
import SdkBindings.Text.Quoted
import SdkBindings.Text.Utf8

/-!
# Access to files

A run touches files through a record of operations, so that the same run works on the files of a
machine and on a tree that is a value.  Each operation tells how it failed; a failure is reported
with the number the operating system gives it.  A path that cannot lead anywhere, because something
on the way is missing or is no directory, is a path at which nothing is found; any other failure to
look at a path is an error.

A text is written in two steps.  Its file is made or emptied first; then the text is encoded and its
bytes are added.  Where the second step fails, the file is left with a beginning of the text, which may
be empty.
-/

namespace SdkBindings

/-- How an operation on a file fails. -/
inductive FileFault where
  /-- A directory on the way, or the file itself, is missing. -/
  | notFound
  /-- There already is something at the path. -/
  | alreadyThere
  /-- Something on the way is no directory. -/
  | notDirectory
  /-- There is a directory where a file is wanted. -/
  | isDirectory
  /-- A name, or the path as a whole, is longer than it may be. -/
  | nameTooLong
  /-- A name holds the null character, so that the operating system is not even asked. -/
  | nullCharacter
  /-- Anything else, by its number and description. -/
  | other (number : Nat) (description : String)
  deriving DecidableEq, Repr

namespace FileFault

/-- The number of a failure, if it is one of the operating system. -/
def number? : FileFault → Option Nat
  | .notFound => some 2
  | .alreadyThere => some 17
  | .notDirectory => some 20
  | .isDirectory => some 21
  | .nameTooLong => some 36
  | .nullCharacter => none
  | .other number _ => some number

/-- The description of a failure. -/
def description : FileFault → String
  | .notFound => "No such file or directory"
  | .alreadyThere => "File exists"
  | .notDirectory => "Not a directory"
  | .isDirectory => "Is a directory"
  | .nameTooLong => "File name too long"
  | .nullCharacter => "embedded null byte"
  | .other _ description => description

/-- The failure as a message. -/
def message (fault : FileFault) : String :=
  match fault.number? with
  | some number => "[Errno " ++ toString number ++ "] " ++ fault.description
  | none => fault.description

/-- Whether a failure to look at a path only means that nothing can be there. -/
def isAbsence : FileFault → Bool
  | .notFound | .notDirectory | .nullCharacter => true
  | .alreadyThere | .isDirectory | .nameTooLong | .other _ _ => false

end FileFault

/-- An operation that failed, with the path it was given. -/
structure FileError where
  /-- How it failed. -/
  fault : FileFault
  /-- The path it was given. -/
  path : Path
  deriving DecidableEq, Repr

/-- The error as a message. -/
def FileError.message (e : FileError) : String :=
  match e.fault.number? with
  | some _ => e.fault.message ++ ": " ++ Text.quote e.path.render
  | none => e.fault.message

/-- How the writing of a text fails. -/
inductive WriteFault where
  /-- The file can be neither made nor emptied. -/
  | creation (fault : FileFault)
  /-- The file is empty, but the text cannot be encoded. -/
  | encoding (stray : Text.Stray)
  /-- The file is empty, but not all the bytes can be added to it. -/
  | device (fault : FileFault)
  deriving DecidableEq, Repr

/-- The failure at a path as a message. -/
def WriteFault.message (path : Path) : WriteFault → String
  | .creation fault => FileError.message ⟨fault, path⟩
  | .encoding stray => stray.message
  | .device fault => fault.message

/-- What there can be at a path. -/
inductive FileKind where
  /-- A directory. -/
  | directory
  /-- A file. -/
  | file
  /-- Neither, such as a device. -/
  | other
  deriving DecidableEq, Repr

/-- The operations on files that a run needs. -/
structure FileAccess (m : Type → Type) where
  /-- What there is at a path. -/
  kind : Path → m (Except FileFault FileKind)
  /-- The bytes of a file. -/
  read : Path → m (Except FileFault (List UInt8))
  /-- Makes a file that is empty, or empties the one that is there. -/
  create : Path → m (Except FileFault Unit)
  /-- Adds bytes to the end of a file, which need not exist.  If it fails, some of them may be there. -/
  append : Path → List UInt8 → m (Except FileFault Unit)
  /-- Makes one directory. -/
  makeDirectory : Path → m (Except FileFault Unit)

namespace FileAccess

variable {m : Type → Type} [Monad m]

/-- What there is at a path, if there is anything. -/
def find (files : FileAccess m) (path : Path) : m (Except FileError (Option FileKind)) := do
  match ← files.kind path with
  | .ok kind => pure (.ok (some kind))
  | .error fault => pure (if fault.isAbsence then .ok none else .error ⟨fault, path⟩)

/-- Writes a text to a file, which need not exist. -/
def writeText [Host] (files : FileAccess m) (path : Path) (text : String) :
    m (Except WriteFault Unit) := do
  match ← files.create path with
  | .error fault => pure (.error (.creation fault))
  | .ok () =>
    match Text.encode text with
    | .error stray => pure (.error (.encoding stray))
    | .ok bytes => do
      let added ← files.append path bytes
      pure (added.mapError .device)

/-- Whether there is something of a kind at a path. -/
def holds (files : FileAccess m) (kind : FileKind) (path : Path) : m (Except FileError Bool) := do
  let found ← files.find path
  pure (found.map fun kind? => kind? = some kind)

/-- What remains of a failure to make a directory: nothing if it is there already. -/
def excuse (files : FileAccess m) (fault : FileFault) (path : Path) : m (Except FileError Unit) := do
  if fault = .nullCharacter then pure (.error ⟨fault, path⟩)
  else
    match ← files.holds .directory path with
    | .ok true => pure (.ok ())
    | .ok false => pure (.error ⟨fault, path⟩)
    | .error e => pure (.error e)

/-- Makes one directory; it is no failure if it is there already. -/
def ensureDirectory (files : FileAccess m) (path : Path) : m (Except FileError Unit) := do
  match ← files.makeDirectory path with
  | .ok () => pure (.ok ())
  | .error .notFound => pure (.error ⟨.notFound, path⟩)
  | .error fault => files.excuse fault path

/-- Makes a directory and those above it, given by their names from the innermost outwards. -/
def ensureAll (files : FileAccess m) (anchor : Anchor) : List String → m (Except FileError Unit)
  | [] => files.ensureDirectory ⟨anchor, []⟩
  | name :: above => do
    let path : Path := ⟨anchor, (name :: above).reverse⟩
    match ← files.makeDirectory path with
    | .ok () => pure (.ok ())
    | .error .notFound => do
      match ← files.ensureAll anchor above with
      | .ok () => files.ensureDirectory path
      | .error e => pure (.error e)
    | .error fault => files.excuse fault path

/-- Makes a directory and those above it as far as they are missing. -/
def ensureDirectories (files : FileAccess m) (path : Path) : m (Except FileError Unit) :=
  files.ensureAll path.anchor path.names.reverse

end FileAccess

end SdkBindings
