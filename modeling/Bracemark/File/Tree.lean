import Bracemark.File.Path

/-!
# File trees

The files that a run can see, as a value. A place in the tree is the list of
names on the way from its root. Every place above a file or above the working
directory is a directory.

A path is followed component by component: before each one, also before `..`,
the place reached so far must be a directory.
-/

namespace Bracemark

abbrev Bytes := List UInt8

/-- The names on the way to a file or directory. -/
abbrev Spot := List Text

/-- Why a file operation fails. -/
inductive FileError where
  | embeddedNul
  | notFound
  | notADirectory
  | isADirectory
  | alreadyExists
  deriving DecidableEq, Repr

/-- Files by place, latest first, further directories, and the directory that
relative paths start from. -/
structure FileTree where
  files : List (Spot × Bytes) := []
  directories : List Spot := []
  working : Spot := []
  deriving DecidableEq, Repr

namespace FileTree

def file? (t : FileTree) (spot : Spot) : Option Bytes := t.files.lookup spot

def isDirectory (t : FileTree) (spot : Spot) : Bool :=
  spot.isPrefixOf t.working || t.directories.any (spot.isPrefixOf ·)
    || t.files.any fun entry => entry.1 ≠ spot && spot.isPrefixOf entry.1

/-- One component further: `..` goes up, and stays at the root. -/
def descend (spot : Spot) (part : Text) : Spot :=
  if part = ['.', '.'] then spot.dropLast else spot ++ [part]

def follow (t : FileTree) : Spot → List Text → Except FileError Spot
  | spot, [] => .ok spot
  | spot, part :: rest =>
    if t.isDirectory spot then t.follow (descend spot part) rest
    else .error (if (t.file? spot).isSome then .notADirectory else .notFound)

def locate (t : FileTree) (p : Path) : Except FileError Spot :=
  if p.parts.any (·.contains '\x00') then .error .embeddedNul
  else t.follow (if p.isAbsolute then [] else t.working) p.parts

def workingPath (t : FileTree) : Path := ⟨['/'], t.working⟩

def absolute (t : FileTree) (p : Path) : Path := t.workingPath.join p

def read (t : FileTree) (p : Path) : Except FileError Bytes := do
  let spot ← t.locate p
  match t.file? spot with
  | some bytes => return bytes
  | none => throw (if t.isDirectory spot then .isADirectory else .notFound)

def isFile (t : FileTree) (p : Path) : Bool := (t.read p).isOk

/-- Writes a file into an existing directory. -/
def write (t : FileTree) (p : Path) (bytes : Bytes) : Except FileError FileTree := do
  let spot ← t.locate p
  if t.isDirectory spot then throw .isADirectory
  return { t with files := (spot, bytes) :: t.files.filter (·.1 ≠ spot) }

/-- Makes one directory. One that exists is left as it is. -/
def makeDirectory (t : FileTree) (p : Path) : Except FileError FileTree := do
  let spot ← t.locate p
  if (t.file? spot).isSome then throw .alreadyExists
  if t.isDirectory spot then return t
  return { t with directories := spot :: t.directories }

/-- Makes the directory of the first `n` components of a path; where the one
above it is missing, that one is made first. -/
def makeDirectories (t : FileTree) (p : Path) : Nat → Except FileError FileTree
  | 0 => t.makeDirectory { p with parts := [] }
  | n + 1 =>
    let here : Path := { p with parts := p.parts.take (n + 1) }
    match t.makeDirectory here with
    | .error .notFound => (t.makeDirectories p n).bind (·.makeDirectory here)
    | done => done

end FileTree

end Bracemark
