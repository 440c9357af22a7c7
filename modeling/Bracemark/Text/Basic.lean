/-!
# Texts

A text is a list of characters, and every offset, length and line number of the
library counts characters of such a list. Strings appear at the outer boundary
only.
-/

namespace Bracemark

/-- A text. An offset into it counts characters. -/
abbrev Text := List Char

namespace Text

/-- The part of a text from `start` up to `stop`, both cut to the text. -/
def slice (t : Text) (start stop : Nat) : Text :=
  (t.take stop).drop start

/-- The line of an offset: one more than the line feeds before it. Offsets past
the end belong to the last line. -/
def lineAt (t : Text) (offset : Nat) : Nat :=
  1 + (t.take offset).count '\n'

/-- The numbers of opening and of closing braces. -/
def braces (t : Text) : Nat × Nat :=
  (t.count '\x7b', t.count '\x7d')

/-- The parts of a text between separators; there is one more of them than of
separators. -/
def cut (separator : Char) : Text → List Text
  | [] => [[]]
  | c :: rest =>
    match decide (c = separator), cut separator rest with
    | true, parts => [] :: parts
    | false, [] => [[c]]
    | false, part :: parts => (c :: part) :: parts

end Text

end Bracemark
