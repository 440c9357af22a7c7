import Bracemark.Text.Digit

/-!
# Settings

The settings of a run. They can be given by value or through the environment;
a given value wins over the environment, and what neither gives has a default.
Names count without regard to case, and of several spellings the last one wins.
A setting that cannot be read makes the whole reading fail, and so does a given
value that belongs to no setting.
-/

namespace Bracemark

/-- The settings of a run. `maxPasses` bounds the passes, and 0 means
no bound. -/
structure Settings where
  maxPasses : Nat := 256
  strict : Bool := false
  collapse : Bool := true
  sourceEncoding : Text := "utf-8".toList
  outputEncoding : Text := "utf-8".toList
  deriving DecidableEq, Repr

namespace Settings

/-- Whether a number of passes is past the bound. -/
def limitReached (s : Settings) (passes : Nat) : Bool :=
  0 < s.maxPasses && s.maxPasses < passes

end Settings

namespace Setting

/-- A value before it is known which setting it is for. -/
inductive Value where
  | flag (b : Bool)
  | number (n : Int)
  | text (t : Text)
  | other
  deriving DecidableEq, Repr

/-- An unsigned number without the zeros in front; low lines between and behind
those zeros go with them, however many. At least the last character before a full
stop or the end stays. -/
def withoutZeros (t : Text) : Text :=
  match t with
  | '0' :: more =>
    match (more.dropWhile fun c => c = '0' || c = '_') with
    | [] => t.drop (t.length - 1)
    | '.' :: fraction => t.drop (t.length - fraction.length - 2)
    | rest => rest
  | _ => t

/-- A number without a full stop and the zeros behind it, of which there is at
least one. -/
def withoutFraction (t : Text) : Text :=
  match t.dropWhile (· ≠ '.') with
  | '.' :: '0' :: zeros => if zeros.all (· = '0') then t.takeWhile (· ≠ '.') else t
  | _ => t

/-- Reads ASCII digits with single low lines between them. -/
def digits? (t : Text) : Option Nat :=
  if t.all fun c => c.isDigit || c = '_' then natural? t else none

/-- Reads a whole number with white space around it, perhaps with a sign, and
perhaps with a full stop and zeros behind. All of its characters count against the
bound on digits. -/
def number? (t : Text) : Option Int :=
  let t := t.trimWhile isSpace
  if longestNumber < t.length then none
  else match t with
    | '-' :: rest => (digits? (withoutFraction rest)).map fun n => -(n : Int)
    | '+' :: rest => (digits? (withoutFraction (withoutZeros rest))).map fun n => (n : Int)
    | rest => (digits? (withoutFraction (withoutZeros rest))).map fun n => (n : Int)

namespace Value

/-- A count is a whole number that is not negative. -/
def count? : Value → Option Nat
  | .flag b => some b.toNat
  | .number n => if 0 ≤ n then some n.toNat else none
  | .text t => (number? t).bind fun n => if 0 ≤ n then some n.toNat else none
  | .other => none

def onWords : List String := ["1", "t", "true", "y", "yes", "on"]

def offWords : List String := ["0", "f", "false", "n", "no", "off"]

/-- A flag is a truth value, 0 or 1, or one of the words, in letters of any case. -/
def flag? : Value → Option Bool
  | .flag b => some b
  | .number n => if n = 0 then some false else if n = 1 then some true else none
  | .text t =>
    let word := String.ofList (t.map Char.toLower)
    if onWords.contains word then some true
    else if offWords.contains word then some false
    else none
  | .other => none

def name? : Value → Option Text
  | .text t => some t
  | _ => none

end Value

def names : List String :=
  ["max_passes", "strict_mode", "collapse_whitespace", "source_encoding", "output_encoding"]

/-- What the names of the environment begin with, in lower case. -/
def environmentStart : String := "vvsml_"

def readOr {α : Type} (given : String → Option Value) (name : String)
    (read : Value → Option α) (default : α) : Option α :=
  match given name with
  | some v => read v
  | none => some default

def readAll (given : String → Option Value) : Option Settings := do
  let d : Settings := {}
  return {
    maxPasses := ← readOr given "max_passes" Value.count? d.maxPasses
    strict := ← readOr given "strict_mode" Value.flag? d.strict
    collapse := ← readOr given "collapse_whitespace" Value.flag? d.collapse
    sourceEncoding := ← readOr given "source_encoding" Value.name? d.sourceEncoding
    outputEncoding := ← readOr given "output_encoding" Value.name? d.outputEncoding }

/-- What is given last under a name, without regard to case. -/
def lastGiven? {α : Type} (given : List (String × α)) (name : String) : Option α :=
  (given.reverse.find? fun entry => entry.1.toLower = name).map (·.2)

/-- Settings from values by name and an environment. -/
def fromGiven (values : List (String × Value)) (environment : List (String × Text)) :
    Option Settings :=
  if values.all fun (name, _) => names.contains name.toLower then
    readAll fun name =>
      (lastGiven? values name).or
        ((lastGiven? environment (environmentStart ++ name)).map .text)
  else none

end Setting

end Bracemark
