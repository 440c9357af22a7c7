import Bracemark.Text.Ranges
import Bracemark.Text.Segment

/-!
# Blanks

Blank characters are the white space of Unicode together with the information
separators U+001C to U+001F. The zero width space, the Mongolian vowel
separator and the byte order mark are not blank.
-/

namespace Bracemark

def blankRanges : List (Nat × Nat) :=
  [
    (0x85, 0x85), (0xA0, 0xA0), (0x1680, 0x1680), (0x2000, 0x200A), (0x2028, 0x2029),
    (0x202F, 0x202F), (0x205F, 0x205F), (0x3000, 0x3000)
  ]

def isSeparator (c : Char) : Bool := 0x1C ≤ c.toNat && c.toNat ≤ 0x1F

def isSpace (c : Char) : Bool :=
  if c.toNat < 0x80 then c.toNat == 0x20 || (0x09 ≤ c.toNat && c.toNat ≤ 0x0D)
  else inRanges blankRanges c.toNat

def isBlank (c : Char) : Bool := isSpace c || isSeparator c

namespace Text

def collapse (t : Text) : Text :=
  segment (fun c rest =>
    if isBlank c then (' ', (rest.takeWhile isBlank).length) else (c, 0)) 0 t

/-- The text without the characters of a class at its two ends. -/
def trimWhile (p : Char → Bool) (t : Text) : Text :=
  ((t.dropWhile p).reverse.dropWhile p).reverse

/-- The text without the blanks at its two ends. -/
def trim (t : Text) : Text := t.trimWhile isBlank

end Text

end Bracemark
