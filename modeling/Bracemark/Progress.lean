import Bracemark.Directive.Basic
import Bracemark.Document.Kind
import Bracemark.Escape.Scheme

/-!
# Progress log

A run notes its progress as events. Each event has a level, and a reader of the
log sees those up to the verbosity it asks for: 1 for the stages of the work, 2
for passes and files, 3 for single directives and nodes.
-/

namespace Bracemark

/-- What a run notes on its way. -/
inductive Event where
  | protectedEscapes (count : Nat) (scheme : String)
  | droppedCode (g : Tag)
  | readFile (characters : Nat) (path : Text)
  | definedMacro (name : Text)
  | passStarted (pass : Nat)
  | passesDone (passes : Nat)
  | stageDone (family : Family) (characters : Nat)
  | resolved (count : Nat) (family : Family)
  | parsedContents (count : Nat)
  | parsedNode (kind : Kind) (children : Nat)
  | preprocessing
  | parsing
  | generating
  | generated
  | postprocessed
  | checkingEnvironment
  | inputFile (path : Text)
  | outputFile (path : Text)
  | readingSource
  | wrote (path : Text)
  | succeeded
  | reportOutput (path : Text)
  | reportSize (characters : Nat)
  deriving DecidableEq, Repr

namespace Event

/-- The verbosity from which on an event is shown. -/
def level : Event → Nat
  | .preprocessing | .parsing | .generating | .readingSource | .succeeded
  | .reportOutput _ | .reportSize _ => 1
  | .readFile .. | .passStarted _ | .passesDone _ | .resolved .. | .parsedContents _
  | .generated | .postprocessed | .checkingEnvironment | .inputFile _ | .outputFile _
  | .wrote _ => 2
  | .protectedEscapes .. | .droppedCode _ | .definedMacro _ | .stageDone ..
  | .parsedNode .. => 3

def message : Event → String
  | .protectedEscapes n scheme => "Protected " ++ toString n ++ " " ++ scheme ++ " escape(s)"
  | .droppedCode g => "Dropping unknown protected sequence " ++ String.ofList g.code
  | .readFile n path => "Read " ++ toString n ++ " characters from " ++ String.ofList path
  | .definedMacro name => "Defined macro " ++ String.ofList name
  | .passStarted n => "Preprocessing pass " ++ toString n
  | .passesDone n => "Preprocessing complete after " ++ toString n ++ " pass(es)"
  | .stageDone family n =>
    "Stage " ++ family.stageName ++ " done (" ++ toString n ++ " characters)"
  | .resolved n family => "Resolved " ++ toString n ++ " " ++ family.name ++ " directive(s)"
  | .parsedContents n => "Parsed " ++ toString n ++ " main block(s)"
  | .parsedNode kind n => "Parsed " ++ kind.word ++ " with " ++ toString n ++ " child(ren)"
  | .preprocessing => "Preprocessing..."
  | .parsing => "Parsing..."
  | .generating => "Generating HTML..."
  | .generated => "Code generation complete"
  | .postprocessed => "Postprocessing complete"
  | .checkingEnvironment => "Checking environment..."
  | .inputFile path => "Input file: " ++ String.ofList path
  | .outputFile path => "Output file: " ++ String.ofList path
  | .readingSource => "Reading source file..."
  | .wrote path => "Wrote " ++ String.ofList path
  | .succeeded => "✓ Compilation successful!"
  | .reportOutput path => "  Output: " ++ String.ofList path
  | .reportSize n => "  Size: " ++ toString n ++ " characters"

end Event

end Bracemark
