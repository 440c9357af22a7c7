import Bracemark.Escape.Scheme
import Bracemark.Text.Segment

/-!
# Escape pairs

Read from left to right, a text falls into pieces: plain characters, pairs of a
backslash and the character it escapes, and perhaps a lone backslash at the
end. Protecting a text replaces each pair that the scheme knows by its code.

`Scheme.fault?` is the first piece that a strict scheme refuses.
-/

namespace Bracemark

/-- What stands at one place of a text before protection. -/
inductive Piece where
  | plain (c : Char)
  | escaped (c : Char)
  | dangling
  deriving DecidableEq, Repr

namespace Piece

/-- A backslash takes the next character along. -/
def step (c : Char) (rest : Text) : Piece × Nat :=
  if c = '\\' then
    match rest with
    | [] => (.dangling, 0)
    | d :: _ => (.escaped d, 1)
  else (.plain c, 0)

def ofText (t : Text) : List Piece := segment step 0 t

def written : Piece → Text
  | .plain c => [c]
  | .escaped c => ['\\', c]
  | .dangling => ['\\']

end Piece

/-- A backslash that escapes nothing the scheme knows: `character?` is what
follows it, or nothing at the end of the text. -/
structure EscapeFault where
  offset : Nat
  character? : Option Char
  deriving DecidableEq, Repr

namespace Scheme

/-- The first refused piece, with its offset counted from `offset`. -/
def faultFrom (s : Scheme) (offset : Nat) : List Piece → Option EscapeFault
  | [] => none
  | .plain _ :: rest => s.faultFrom (offset + 1) rest
  | .escaped c :: rest =>
    if (s.tag? c).isSome then s.faultFrom (offset + 2) rest else some ⟨offset, some c⟩
  | .dangling :: _ => some ⟨offset, none⟩

/-- The fault of a text under a strict scheme; a lenient one finds none. -/
def fault? (s : Scheme) (t : Text) : Option EscapeFault :=
  if s.strict then s.faultFrom 0 (Piece.ofText t) else none

/-- The code for a pair that the scheme knows; any other piece stays as written. -/
def protectPiece (s : Scheme) : Piece → Text
  | .escaped c => match s.tag? c with
    | some g => g.code
    | none => ['\\', c]
  | p => p.written

/-- The text with every known escape pair replaced by its code. -/
def protect (s : Scheme) (t : Text) : Text :=
  (Piece.ofText t).flatMap s.protectPiece

/-- The number of pairs that `protect` replaces. -/
def escapeCount (s : Scheme) (t : Text) : Nat :=
  (Piece.ofText t).countP fun
    | .escaped c => (s.tag? c).isSome
    | _ => false

/-- Protects characters that carry no backslash. -/
def shield (s : Scheme) (t : Text) : Text :=
  t.flatMap fun c => match s.tag? c with
    | some g => g.code
    | none => [c]

end Scheme

end Bracemark
