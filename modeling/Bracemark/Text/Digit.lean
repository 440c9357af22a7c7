import Bracemark.Text.Blank

/-!
# Decimal digits and whole numbers

The decimal digits of Unicode 14 come in runs of ten, from zero to nine, and a
run is known by its zero. A whole number is written with such digits, single
low lines between them, a sign in front and white space around. Information
separators are no white space here. The number of digits is bounded, and zeros in
front count.
-/

namespace Bracemark

/-- The zeros of the digit runs beyond ASCII. -/
def digitZeros : List Nat :=
  [
    0x660, 0x6F0, 0x7C0, 0x966, 0x9E6, 0xA66, 0xAE6, 0xB66, 0xBE6, 0xC66, 0xCE6, 0xD66, 0xDE6,
    0xE50, 0xED0, 0xF20, 0x1040, 0x1090, 0x17E0, 0x1810, 0x1946, 0x19D0, 0x1A80, 0x1A90, 0x1B50,
    0x1BB0, 0x1C40, 0x1C50, 0xA620, 0xA8D0, 0xA900, 0xA9D0, 0xA9F0, 0xAA50, 0xABF0, 0xFF10,
    0x104A0, 0x10D30, 0x11066, 0x110F0, 0x11136, 0x111D0, 0x112F0, 0x11450, 0x114D0, 0x11650,
    0x116C0, 0x11730, 0x118E0, 0x11950, 0x11C50, 0x11D50, 0x11DA0, 0x16A60, 0x16AC0, 0x16B50,
    0x1D7CE, 0x1D7D8, 0x1D7E2, 0x1D7EC, 0x1D7F6, 0x1E140, 0x1E2F0, 0x1E950, 0x1FBF0
  ]

/-- The value of a decimal digit of any script. -/
def digit? (c : Char) : Option Nat :=
  if c.toNat < 0x80 then
    if c.isDigit then some (c.toNat - 0x30) else none
  else
    (digitZeros.find? fun first => first ≤ c.toNat && c.toNat ≤ first + 9).map (c.toNat - ·)

def isDigit (c : Char) : Bool := (digit? c).isSome

/-- Reads the digits after a first one: a low line must stand between digits. -/
def digitsFrom (value : Nat) : Text → Option Nat
  | [] => some value
  | '_' :: c :: rest => match digit? c with
    | some d => digitsFrom (10 * value + d) rest
    | none => none
  | c :: rest => match digit? c with
    | some d => digitsFrom (10 * value + d) rest
    | none => none

def natural? : Text → Option Nat
  | [] => none
  | c :: rest => (digit? c).bind fun d => digitsFrom d rest

/-- The most digits that a number may be written with. -/
def longestNumber : Nat := 4300

/-- Reads a whole number with an optional sign, white space around it aside. A
number of too many digits is not read. -/
def integer? (t : Text) : Option Int :=
  if longestNumber < t.countP isDigit then none
  else match t.trimWhile isSpace with
  | '-' :: rest => (natural? rest).map fun n => -(n : Int)
  | '+' :: rest => (natural? rest).map fun n => (n : Int)
  | rest => (natural? rest).map fun n => (n : Int)

end Bracemark
