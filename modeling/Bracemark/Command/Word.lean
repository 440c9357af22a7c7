import Bracemark.Command.Switch
import Bracemark.Text.Digit
import Bracemark.Text.Quoted

/-!
# Words of a command line

Each word is read by itself before any of them takes effect: as a switch, as an
operand, or as something that looks like a switch and is none. A negative number
and a word with a space in it are operands. Behind the word of two hyphens there
are operands only.
-/

namespace Bracemark

/-- Why a command line is refused. -/
inductive ArgumentFault where
  | missingValue (s : Switch)
  | unusedValue (s : Switch) (value : Text)
  | ambiguous (written : Text) (candidates : List Text)
  | noInput
  | unrecognized (words : List Text)
  deriving DecidableEq, Repr

namespace ArgumentFault

def message : ArgumentFault → String
  | .missingValue s => "argument " ++ s.label ++ ": expected one argument"
  | .unusedValue s value =>
    "argument " ++ s.label ++ ": ignored explicit argument "
      ++ String.ofList (Quoted.encode value)
  | .ambiguous written candidates =>
    "ambiguous option: " ++ String.ofList written ++ " could match "
      ++ ", ".intercalate (candidates.map String.ofList)
  | .noInput =>
    "the following arguments are required: " ++ (Switch.value .inputFile).label
  | .unrecognized words =>
    "unrecognized arguments: " ++ " ".intercalate (words.map String.ofList)

end ArgumentFault

/-- A word that has been read. A value may be attached to a long switch by an
equals sign; behind a switch of one letter more text may follow, with such a sign
or without. -/
inductive Word where
  | operand (t : Text)
  | separator
  | switch (s : Switch) (value? : Option Text)
  | letters (s : Switch) (more : Text)
  | unknown (t : Text)
  deriving DecidableEq, Repr

namespace Word

/-- The word behind which there are operands only. -/
def separatorText : Text := ['-', '-']

/-- Whether a word is a negative number; a line feed may follow it. -/
def isNegative (t : Text) : Bool :=
  match t with
  | '-' :: rest =>
    let digits := if rest.getLast? = some '\n' then rest.dropLast else rest
    let whole := digits.takeWhile isDigit
    match digits.dropWhile isDigit with
    | [] => !whole.isEmpty
    | '.' :: fraction => !fraction.isEmpty && fraction.all isDigit
    | _ => false
  | _ => false

/-- The part of a word before its first equals sign, and the part behind it. -/
def splitValue (t : Text) : Text × Option Text :=
  (t.takeWhile (· ≠ '='), match t.dropWhile (· ≠ '=') with
    | [] => none
    | _ :: value => some value)

def isLong (spelling : Text) : Bool := separatorText.isPrefixOf spelling

def completions (start : Text) : List (Text × Switch) :=
  Switch.spellings.filter fun entry => start.isPrefixOf entry.1

/-- A word that is no switch as it stands: a number or a word with a space is an
operand. -/
def leftover (t : Text) : Word :=
  if isNegative t || t.contains ' ' then .operand t else .unknown t

/-- Reads a word of which no spelling is the part before the equals sign. -/
def readShortened (t : Text) : Except ArgumentFault Word :=
  match t with
  | '-' :: '-' :: _ =>
    let (start, value?) := splitValue t
    match completions start with
    | [] => .ok (leftover t)
    | [(_, s)] => .ok (.switch s value?)
    | several => .error (.ambiguous t (several.map (·.1)))
  | '-' :: c :: more => .ok <| match Switch.ofLetter? c with
    | some s => .letters s more
    | none => leftover t
  | _ => .ok (.operand t)

def read (t : Text) : Except ArgumentFault Word :=
  if t.head? ≠ some '-' then .ok (.operand t)
  else match Switch.ofSpelling? t with
    | some s => .ok (.switch s none)
    | none => match splitValue t with
      | (start, some value) => match Switch.ofSpelling? start with
        | some s => .ok (if isLong start then .switch s (some value) else .letters s value)
        | none => readShortened t
      | (_, none) => readShortened t

def readAll : List Text → Except ArgumentFault (List Word)
  | [] => .ok []
  | t :: rest =>
    if t = separatorText then .ok (.separator :: rest.map .operand)
    else do
      let first ← read t
      return first :: (← readAll rest)

end Word

end Bracemark
