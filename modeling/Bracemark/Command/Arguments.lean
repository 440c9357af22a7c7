import Bracemark.Command.Word

/-!
# Arguments

The words of a command line take effect from left to right. A switch that asks
for a text ends the reading at once; so words behind it are not looked at, while
words before it can still be refused. Operands belong to no switch but the one
they are the value of, and any other is refused in the end, but only after it is
known that an input file is named.
-/

namespace Bracemark

/-- What is asked of a compilation. -/
structure Options where
  inputFile : Text
  outputFile : Text
  verbosity : Nat
  deriving DecidableEq, Repr

/-- What a command line asks for. -/
inductive Request where
  | show (topic : Topic)
  | compile (options : Options)
  deriving DecidableEq, Repr

/-- The arguments so far, and the words that had no use. -/
structure Arguments where
  inputFile? : Option Text := none
  outputFile : Text := "index.html".toList
  verbosity : Nat := 1
  unused : List Text := []
  deriving DecidableEq, Repr

namespace Arguments

def set (a : Arguments) (value : Text) : ValueOption → Arguments
  | .inputFile => { a with inputFile? := some value }
  | .outputFile => { a with outputFile := value }

def skip (a : Arguments) (t : Text) : Arguments := { a with unused := a.unused ++ [t] }

/-- The effect of switches that need no value, or the topic that one asks for. -/
def perform : List Switch → Arguments → Except Topic Arguments
  | [], a => .ok a
  | .topic t :: _, _ => .error t
  | .verbosity :: rest, a => perform rest { a with verbosity := a.verbosity + 1 }
  | .value _ :: rest, a => perform rest a

/-- The switches of a letter and of the letters behind it. From the first one that
is no switch on, the text is a value for the switch before; but no switch of one
letter takes a value. -/
def spread (s : Switch) : Text → Except ArgumentFault (List Switch)
  | [] => .error (.unusedValue s [])
  | c :: rest =>
    match Switch.ofLetter? c, rest with
    | none, _ => .error (.unusedValue s (c :: rest))
    | some last, [] => .ok [s, last]
    | some next, _ => (spread next rest).map (s :: ·)

/-- What the arguments ask for once all words are read. -/
def finish (a : Arguments) : Except ArgumentFault Request :=
  match a.inputFile?, a.unused with
  | none, _ => .error .noInput
  | some inputFile, [] => .ok (.compile ⟨inputFile, a.outputFile, a.verbosity⟩)
  | some _, words => .error (.unrecognized words)

/-- Lets words take effect from left to right. -/
def readWords : List Word → Arguments → Except ArgumentFault Request
  | [], a => a.finish
  | .operand t :: rest, a | .unknown t :: rest, a => readWords rest (a.skip t)
  | .separator :: rest, a => readWords rest (a.skip Word.separatorText)
  | .letters s more :: rest, a => do
    match perform (← spread s more) a with
    | .error topic => return .show topic
    | .ok a => readWords rest a
  | .switch (.value o) (some value) :: rest, a => readWords rest (a.set value o)
  | .switch (.value o) none :: .operand value :: rest, a => readWords rest (a.set value o)
  | .switch (.value o) none :: _, _ => .error (.missingValue (.value o))
  | .switch s (some value) :: _, _ => .error (.unusedValue s value)
  | .switch s none :: rest, a =>
    match perform [s] a with
    | .error topic => return .show topic
    | .ok a => readWords rest a

def read (words : List Text) : Except ArgumentFault Request := do
  readWords (← Word.readAll words) {}

end Arguments

end Bracemark
