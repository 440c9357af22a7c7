import Bracemark.Text.Basic

/-!
# Switches

The words of a command line that begin with a hyphen. A switch sets an option
that has a value, raises the verbosity, or asks for a text to be shown instead of
any work. A long switch may be cut short as long as it stays unambiguous, and
switches of one letter may be written together behind one hyphen.
-/

namespace Bracemark

/-- The options that have a value. -/
inductive ValueOption where
  | inputFile
  | outputFile
  deriving DecidableEq, Repr

/-- The texts that a command line can ask for. -/
inductive Topic where
  | help
  | directives
  | version
  deriving DecidableEq, Repr

/-- What a switch does. -/
inductive Switch where
  | value (o : ValueOption)
  | verbosity
  | topic (t : Topic)
  deriving DecidableEq, Repr

namespace Switch

/-- Every spelling of every switch, in the order in which they are listed. -/
def spellings : List (Text × Switch) :=
  [
    ("-h".toList, .topic .help), ("--help".toList, .topic .help),
    ("--inputFile".toList, .value .inputFile), ("--outputFile".toList, .value .outputFile),
    ("-v".toList, .verbosity), ("--verbosity".toList, .verbosity),
    ("--directives".toList, .topic .directives),
    ("-V".toList, .topic .version), ("--version".toList, .topic .version)
  ]

def ofSpelling? (t : Text) : Option Switch := spellings.lookup t

def ofLetter? (c : Char) : Option Switch := ofSpelling? ['-', c]

/-- The spellings of a switch as messages name it. -/
def label (s : Switch) : String :=
  "/".intercalate ((spellings.filter (·.2 = s)).map fun entry => String.ofList entry.1)

end Switch

end Bracemark
