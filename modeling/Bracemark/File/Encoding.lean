import Bracemark.File.Tree

/-!
# Encodings of text files

Three encodings: UTF-8, Latin-1 and ASCII. Decoding is strict and says which
bytes are wrong and why. A byte order mark stays in the text. A text that is
read from a file has line feeds only: a carriage return, alone or before a line
feed, counts as one.

No other encoding is known: every name but those of the three is refused as
unknown, also where it is that of an encoding in use elsewhere, such as UTF-16,
Windows-1252 or UTF-8 with a byte order mark.
-/

namespace Bracemark

/-- The encodings. -/
inductive Encoding where
  | utf8
  | latin1
  | ascii
  deriving DecidableEq, Repr

/-- Bytes that no text encodes: the span from `start` up to `stop`, the first of
them, and the reason. -/
structure DecodeError where
  encoding : Encoding
  start : Nat
  stop : Nat
  first : UInt8
  reason : String
  deriving DecidableEq, Repr

namespace Encoding

def name : Encoding → String
  | .utf8 => "utf-8"
  | .latin1 => "latin-1"
  | .ascii => "ascii"

/-- The proper name of an encoding, in lower case and with low lines for other
marks. -/
def properName : Encoding → String
  | .utf8 => "utf_8"
  | .latin1 => "latin_1"
  | .ascii => "ascii"

/-- The other names under which an encoding is known, written alike. -/
def aliases : Encoding → List String
  | .utf8 => ["utf8", "u8", "utf", "utf8_ucs2", "utf8_ucs4", "cp65001"]
  | .latin1 => ["latin1", "latin", "l1", "8859", "cp819", "csisolatin1", "ibm819", "iso8859",
      "iso8859_1", "iso_8859_1", "iso_8859_1_1987", "iso_ir_100"]
  | .ascii => ["us_ascii", "us", "646", "ansi_x3.4_1968", "ansi_x3_4_1968", "ansi_x3.4_1986",
      "cp367", "csascii", "ibm367", "iso646_us", "iso_646.irv_1991", "iso_ir_6"]

/-- Lower case letters, digits and full stops of a name, with one low line for
every run of other marks between them. -/
def normalizedName (name : Text) : Text :=
  let kept (c : Char) : Bool := c.isAlphanum || c = '.'
  let words := Text.cut '_' (name.map fun c => if kept c then c.toLower else '_')
  ['_'].intercalate (words.filter (· ≠ []))

/-- Whether a name, once normalized, names an encoding. In place of the low lines
of an alias there may be full stops, but not in a proper name. -/
def isNamed (e : Encoding) (name : Text) : Bool :=
  e.properName.toList = name || e.aliases.any fun a =>
    a.toList = name || a.toList = name.map fun c => if c = '.' then '_' else c

/-- The name, spelled just so, that leaves the choice to the surroundings; they
use UTF-8. -/
def localeName : String := "locale"

/-- The encoding of a name, if it is one of the three. -/
def ofName? (name : Text) : Option Encoding :=
  if name = localeName.toList then some .utf8
  else [Encoding.utf8, .latin1, .ascii].find? (·.isNamed (normalizedName name))

namespace Utf8

def isContinuation (b : UInt8) : Bool := 0x80 ≤ b && b < 0xC0

/-- Whether a second byte may follow a first one of three or four: overlong
forms, surrogates and numbers past the last code point are excluded. -/
def mayFollow (b c : UInt8) : Bool :=
  isContinuation c &&
    if b = 0xE0 then 0xA0 ≤ c
    else if b = 0xED then c < 0xA0
    else if b = 0xF0 then 0x90 ≤ c
    else if b = 0xF4 then c < 0x90
    else true

def payload (b : UInt8) : Nat := b.toNat - 0x80

def badStart : String := "invalid start byte"

/-- A byte that does not continue the character begun. -/
def badContinuation : String := "invalid continuation byte"

/-- A character that the bytes do not finish. -/
def endOfData : String := "unexpected end of data"

/-- The character that begins with a byte and the number of bytes that continue
it, or the number of bytes to refuse and why. -/
def step (b : UInt8) (rest : Bytes) : Except (Nat × String) (Char × Nat) :=
  if b < 0x80 then .ok (Char.ofNat b.toNat, 0)
  else if b < 0xC2 then .error (1, badStart)
  else if b < 0xE0 then
    match rest with
    | [] => .error (1, endOfData)
    | c :: _ =>
      if !isContinuation c then .error (1, badContinuation)
      else .ok (Char.ofNat ((b.toNat - 0xC0) * 0x40 + payload c), 1)
  else if b < 0xF0 then
    match rest with
    | [] => .error (1, endOfData)
    | c :: rest =>
      if !mayFollow b c then .error (1, badContinuation)
      else match rest with
        | [] => .error (2, endOfData)
        | d :: _ =>
          if !isContinuation d then .error (2, badContinuation)
          else .ok (Char.ofNat ((b.toNat - 0xE0) * 0x1000 + payload c * 0x40 + payload d), 2)
  else if b < 0xF5 then
    match rest with
    | [] => .error (1, endOfData)
    | c :: rest =>
      if !mayFollow b c then .error (1, badContinuation)
      else match rest with
        | [] => .error (2, endOfData)
        | d :: rest =>
          if !isContinuation d then .error (2, badContinuation)
          else match rest with
            | [] => .error (3, endOfData)
            | e :: _ =>
              if !isContinuation e then .error (3, badContinuation)
              else .ok (Char.ofNat ((b.toNat - 0xF0) * 0x40000 + payload c * 0x1000
                + payload d * 0x40 + payload e), 3)
  else .error (1, badStart)

/-- Decodes bytes from a position on; the first `skip` belong to a character
already decoded. -/
def decodeFrom : (skip position : Nat) → Bytes → Except DecodeError Text
  | _, _, [] => .ok []
  | skip + 1, position, _ :: rest => decodeFrom skip (position + 1) rest
  | 0, position, b :: rest =>
    match step b rest with
    | .ok (c, more) => (decodeFrom more (position + 1) rest).map (c :: ·)
    | .error (length, reason) =>
      .error ⟨.utf8, position, position + length, b, reason⟩

def encodeChar (c : Char) : Bytes :=
  let n := c.toNat
  let tail (k : Nat) : UInt8 := UInt8.ofNat (0x80 + n / k % 0x40)
  if n < 0x80 then [UInt8.ofNat n]
  else if n < 0x800 then [UInt8.ofNat (0xC0 + n / 0x40), tail 1]
  else if n < 0x10000 then [UInt8.ofNat (0xE0 + n / 0x1000), tail 0x40, tail 1]
  else [UInt8.ofNat (0xF0 + n / 0x40000), tail 0x1000, tail 0x40, tail 1]

end Utf8

/-- Decodes bytes of which each is a character below a limit. -/
def decodeBelow (limit : Nat) (position : Nat) : Bytes → Except DecodeError Text
  | [] => .ok []
  | b :: rest =>
    if b.toNat < limit then
      (decodeBelow limit (position + 1) rest).map (Char.ofNat b.toNat :: ·)
    else .error ⟨.ascii, position, position + 1, b, "ordinal not in range(128)"⟩

def decode (bytes : Bytes) : Encoding → Except DecodeError Text
  | .utf8 => Utf8.decodeFrom 0 0 bytes
  | .latin1 => decodeBelow 0x100 0 bytes
  | .ascii => decodeBelow 0x80 0 bytes

/-- Encodes a text, unless it holds a character that the encoding lacks. -/
def encode? (t : Text) : Encoding → Option Bytes
  | .utf8 => some (t.flatMap Utf8.encodeChar)
  | .latin1 => if t.all (·.toNat < 0x100) then some (t.map fun c => UInt8.ofNat c.toNat) else none
  | .ascii => if t.all (·.toNat < 0x80) then some (t.map fun c => UInt8.ofNat c.toNat) else none

end Encoding

namespace DecodeError

def message (e : DecodeError) : String :=
  let place :=
    if e.stop = e.start + 1 then
      "byte 0x" ++ String.ofList (hexByte e.first.toNat) ++ " in position " ++ toString e.start
    else "bytes in position " ++ toString e.start ++ "-" ++ toString (e.stop - 1)
  "'" ++ e.encoding.name ++ "' codec can't decode " ++ place ++ ": " ++ e.reason
where
  /-- Two hexadecimal digits. -/
  hexByte (n : Nat) : Text := [Nat.digitChar (n / 16), Nat.digitChar (n % 16)]

end DecodeError

/-- Line feeds in place of carriage returns, and of carriage returns with a line
feed behind them. -/
def Text.unixLines : Text → Text
  | [] => []
  | '\r' :: '\n' :: rest => '\n' :: unixLines rest
  | c :: rest => (if c = '\r' then '\n' else c) :: unixLines rest

end Bracemark
