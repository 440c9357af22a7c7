import Bracemark.Text.Basic

/-!
# Paths

A path is a root and a list of components. Components that are empty or a single
full stop are dropped when a path is read, `..` is kept. The root is empty for
a relative path; an absolute one has a slash, or two if it is written with
exactly two in front.
-/

namespace Bracemark

/-- A path with its root and its components. -/
structure Path where
  root : Text
  parts : List Text
  deriving DecidableEq, Repr

namespace Path

def rootOf (t : Text) : Text :=
  match (t.takeWhile (· = '/')).length with
  | 0 => []
  | 2 => ['/', '/']
  | _ => ['/']

def ofText (t : Text) : Path where
  root := rootOf t
  parts := (t.cut '/').filter fun part => part ≠ [] && part ≠ ['.']

/-- Writes a path; the empty one is a full stop. -/
def toText (p : Path) : Text :=
  if p.root.isEmpty && p.parts.isEmpty then ['.']
  else p.root ++ ['/'].intercalate p.parts

def top : Path := ⟨['/'], []⟩

def isAbsolute (p : Path) : Bool := !p.root.isEmpty

/-- A path taken from a directory. An absolute one replaces the directory. -/
def join (directory p : Path) : Path :=
  if p.isAbsolute then p else { directory with parts := directory.parts ++ p.parts }

def parent (p : Path) : Path := { p with parts := p.parts.dropLast }

def name (p : Path) : Text := p.parts.getLast?.getD []

end Path

end Bracemark
