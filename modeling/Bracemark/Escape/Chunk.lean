import Bracemark.Escape.Scheme
import Bracemark.Text.Segment

/-!
# Protected text

Read from left to right, a protected text falls into chunks: characters, and
sequences of ten characters shaped like a protected code. Taking the protection
off replaces each code by its character and drops codes that the scheme does
not know. Masking replaces each known code by one private use character, so
that a pattern can neither split nor alter it.
-/

namespace Bracemark

/-- What stands at one place of a protected text. -/
inductive Chunk where
  | plain (c : Char)
  | code (g : Tag)
  deriving DecidableEq, Repr

namespace Chunk

/-- A sequence shaped like a code is one chunk. -/
def step (c : Char) (rest : Text) : Chunk × Nat :=
  match c, rest with
  | '@', '#' :: '\x27' :: ':' :: '[' :: ';' :: ':' :: a :: b :: ']' :: _ =>
    if Tag.mayBegin a && Tag.mayEnd b then (.code ⟨a, b⟩, 9) else (.plain c, 0)
  | _, _ => (.plain c, 0)

def ofText (t : Text) : List Chunk := segment step 0 t

def written : Chunk → Text
  | .plain c => [c]
  | .code g => g.code

end Chunk

namespace Scheme

/-- The character of a known code, nothing for an unknown one. -/
def deprotectChunk (s : Scheme) : Chunk → Text
  | .plain c => [c]
  | .code g => (s.character? g).toList

/-- The text with every code replaced by the character it stands for. -/
def deprotect (s : Scheme) (t : Text) : Text :=
  (Chunk.ofText t).flatMap s.deprotectChunk

/-- The tags of the codes that `deprotect` drops. -/
def unknownTags (s : Scheme) (t : Text) : List Tag :=
  (Chunk.ofText t).filterMap fun
    | .plain _ => none
    | .code g => if (s.character? g).isSome then none else some g

/-- The sentinel of a known code; any other chunk stays as written. -/
def maskChunk (s : Scheme) : Chunk → Text
  | .plain c => [c]
  | .code g => match s.sentinel? g with
    | some c => [c]
    | none => g.code

/-- The text with every known code replaced by its sentinel. -/
def mask (s : Scheme) (t : Text) : Text :=
  (Chunk.ofText t).flatMap s.maskChunk

/-- The text with every sentinel replaced by its code. -/
def unmask (s : Scheme) (t : Text) : Text :=
  t.flatMap fun c => match s.sentinelTag? c with
    | some g => g.code
    | none => [c]

end Scheme

end Bracemark
