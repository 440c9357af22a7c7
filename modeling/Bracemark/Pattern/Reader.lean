import Bracemark.Escape.Piece
import Bracemark.Pattern.Error
import Bracemark.Text.Identifier

/-!
# Reading from a pattern or a template

Patterns and templates are read piece by piece, where a backslash and the
character after it are one piece. The reader looks one piece ahead: a lone
backslash at the end is refused as soon as it becomes the next piece, whatever
else is wrong with the text.

The state is generic in what the two kinds of text keep besides.
-/

namespace Bracemark

namespace Pattern

/-- A reader: the text, the pieces left, and the offset of the next piece. -/
structure Cursor where
  source : Text
  rest : List Piece
  position : Nat := 0

/-- Reading with a state in which a cursor stands. -/
abbrev ReadM (σ : Type) := EStateM Error (Cursor × σ)

variable {σ α : Type}

namespace ReadM

def failAt (problem : Problem) (position : Nat) : ReadM σ α := do
  throw (.fault ⟨(← get).1.source, problem, some position⟩)

/-- Refuses the text so many characters before the next piece. -/
def failBack (problem : Problem) (back : Nat) : ReadM σ α := do
  failAt problem ((← get).1.position - back)

def tell : ReadM σ Nat := return (← get).1.position

def peek : ReadM σ (Option Piece) := return (← get).1.rest.head?

/-- Refuses a lone backslash that has become the next piece. -/
def checkNext : ReadM σ Unit := do
  let c := (← get).1
  if c.rest.head? = some .dangling then failAt .danglingEscape (c.source.length - 1)

def advance : ReadM σ (Option Piece) := do
  let (c, s) ← get
  match c.rest with
  | [] => return none
  | p :: rest =>
    set ({ c with rest, position := c.position + p.written.length }, s)
    checkNext
    return some p

/-- Takes the next piece if it is a given character. -/
def accept (c : Char) : ReadM σ Bool := do
  if (← peek) = some (.plain c) then
    let _ ← advance
    return true
  return false

/-- Takes at most so many characters of a class. -/
def takeWhile (p : Char → Bool) : Nat → ReadM σ Text
  | 0 => return []
  | n + 1 => do
    match ← peek with
    | some (.plain c) =>
      if p c then
        let _ ← advance
        return c :: (← takeWhile p n)
      return []
    | _ => return []

/-- Takes a name up to a terminator, which is taken too; `n` bounds the pieces. -/
def nameLoop (terminator : Char) (what : String) (name : Text) : Nat → ReadM σ Text
  | 0 => return name
  | n + 1 => do
    match ← advance with
    | none =>
      if name.isEmpty then failBack (.missing what) 0
      failBack (.unterminatedName terminator) name.length
    | some p =>
      if p = .plain terminator then
        if name.isEmpty then failBack (.missing what) 1
        return name
      nameLoop terminator what (name ++ p.written) n

/-- Takes a name up to a terminator, which is taken too. -/
def takeName (terminator : Char) (what : String) : ReadM σ Text := do
  nameLoop terminator what [] ((← get).1.rest.length + 1)

/-- Refuses a name that is no identifier; the terminator has been taken. -/
def checkName (name : Text) : ReadM σ Unit := do
  unless isIdentifier name do failBack (.badGroupName name) (name.length + 1)

end ReadM

def isOctal (c : Char) : Bool := '0' ≤ c && c ≤ '7'

def isHex (c : Char) : Bool :=
  c.isDigit || ('a' ≤ c && c ≤ 'f') || ('A' ≤ c && c ≤ 'F')

def hexValue (c : Char) : Nat :=
  if c.isDigit then c.toNat - 0x30
  else if 'a' ≤ c then c.toNat - 0x61 + 10
  else c.toNat - 0x41 + 10

/-- The number that digits of a base spell. -/
def digitsValue (base : Nat) (digits : Text) : Nat :=
  digits.foldl (fun n c => base * n + hexValue c) 0

/-- The control characters and the backslash that have an escape letter. -/
def controlEscape? : Char → Option Nat
  | 'a' => some 0x07
  | 'b' => some 0x08
  | 'f' => some 0x0C
  | 'n' => some 0x0A
  | 'r' => some 0x0D
  | 't' => some 0x09
  | 'v' => some 0x0B
  | '\\' => some 0x5C
  | _ => none

/-- The least number that no repetition count and no group number may reach. -/
def countLimit : Nat := 4294967295

/-- The least number that no group number may reach. -/
def groupLimit : Nat := 1073741823

end Pattern

end Bracemark
