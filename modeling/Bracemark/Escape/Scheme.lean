import Bracemark.Text.Basic

/-!
# Escape schemes and protected codes

A character that would be read as structure is written with a backslash before
it. While a document is preprocessed, such a character is kept as a protected
code: ten characters, none of which any scanner treats as structure. A scheme
says which characters can be escaped and which tag of two letters each one has;
the tag makes its code.

The document scheme is strict: a backslash before any other character, or at
the end of the text, is a fault. The table scheme is lenient and leaves such
backslashes alone.
-/

namespace Bracemark

/-- The two letters that tell one protected code from another. -/
structure Tag where
  first : Char
  second : Char
  deriving DecidableEq, Repr

namespace Tag

/-- The characters of every code in front of its tag. -/
def opening : Text := ['@', '#', '\x27', ':', '[', ';', ':']

def code (g : Tag) : Text :=
  opening ++ [g.first, g.second, ']']

def mayBegin (c : Char) : Bool := c.isUpper

/-- A capital letter, a digit or the low line ends a tag. -/
def mayEnd (c : Char) : Bool := c.isUpper || c.isDigit || c = '_'

end Tag

/-- The characters that one kind of text can escape, with their tags. -/
structure Scheme where
  name : String
  tags : List (Char × Tag)
  strict : Bool

namespace Scheme

/-- Markup: braces, backslash, full stop, at sign and closing bracket. -/
def document : Scheme where
  name := "document"
  tags := [
    ('\x7b', ⟨'L', 'B'⟩), ('\x7d', ⟨'R', 'B'⟩), ('\\', ⟨'B', 'S'⟩),
    ('.', ⟨'P', '_'⟩), ('@', ⟨'A', 'T'⟩), (']', ⟨'R', 'K'⟩)]
  strict := true

def table : Scheme where
  name := "table"
  tags := [('&', ⟨'A', 'S'⟩), ('$', ⟨'D', 'S'⟩)]
  strict := false

/-- The tag of a character that can be escaped. -/
def tag? (s : Scheme) (c : Char) : Option Tag :=
  s.tags.lookup c

def character? (s : Scheme) (g : Tag) : Option Char :=
  (s.tags.find? fun entry => entry.2 = g).map (·.1)

/-- The private use character that stands in for the code of a tag while
patterns run: U+10FF00 and the ones after it, in the order of the scheme. -/
def sentinel? (s : Scheme) (g : Tag) : Option Char :=
  (s.tags.findIdx? fun entry => entry.2 = g).map fun i => Char.ofNat (0x10FF00 + i)

def sentinelTag? (s : Scheme) (c : Char) : Option Tag :=
  if 0x10FF00 ≤ c.toNat then (s.tags[c.toNat - 0x10FF00]?).map (·.2) else none

end Scheme

end Bracemark
