import Bracemark.Command.Job
import Bracemark.Directive.Reference

/-!
# Outcomes

What a command line leaves behind: an exit status, text on the two streams, and
the job as it ended. A refused command line exits with 2, a job that stops with a
complaint exits with 1.
-/

namespace Bracemark

namespace Command

def name : String := "vvsml"

def version : String := "1.0.0"

/-- How the program is used: every switch with what it does, and the value that
it has if it is not given. -/
def help : String :=
  "\n".intercalate [
    "usage: " ++ name ++ " [-h] --inputFile INPUTFILE [--outputFile OUTPUTFILE] [-v]",
    "             [--directives] [-V]",
    "",
    name ++ " - compile structured document markup to HTML",
    "",
    "options:",
    "  -h, --help            show this help message and exit",
    "  --inputFile INPUTFILE",
    "                        Input " ++ name ++ " source file (relative to inputdir)",
    "                        (default: None)",
    "  --outputFile OUTPUTFILE",
    "                        Output HTML file (relative to outputdir) (default:",
    "                        index.html)",
    "  -v, --verbosity       Increase output verbosity (can be repeated: -v, -vv)",
    "                        (default: 1)",
    "  --directives          List every directive with examples and exit (default:",
    "                        None)",
    "  -V, --version         show program's version number and exit",
    ""]

def topicText : Topic → String
  | .help => help
  | .directives => Registry.complete.reference ++ "\n"
  | .version => name ++ " " ++ version ++ "\n"

end Command

/-- What a command line leaves behind. -/
structure Outcome where
  status : Except Failure Nat
  output : String := ""
  complaint : String := ""
  job? : Option Job := none

namespace Outcome

def ofStop (j : Job) : Stop → Outcome
  | .diagnosed d => {
      status := .ok 1
      complaint := "error [" ++ d.area.name ++ "] " ++ d.message ++ "\n"
      job? := some j }
  | .noHtml => {
      status := .ok 1, complaint := "Error: No HTML generated\n", job? := some j }
  | .noResult => {
      status := .ok 1, complaint := "Error: Compilation failed\n", job? := some j }
  | .failed e => { status := .error e, job? := some j }

def ofJob (stages : List Stage) (j : Job) : Outcome :=
  match Job.stages stages j with
  | .ok () j => { status := .ok 0, job? := some j }
  | .error stop j => ofStop j stop

def ofFault (fault : ArgumentFault) : Outcome :=
  { status := .ok 2, complaint := Command.name ++ ": error: " ++ fault.message ++ "\n" }

def ofTopic (topic : Topic) : Outcome :=
  { status := .ok 0, output := Command.topicText topic }

/-- Reads a command line and does what it asks for; `start` makes the job from
its options. -/
def ofWords (words : List Text) (stages : List Stage) (start : Options → Job) : Outcome :=
  match Arguments.read words with
  | .error fault => ofFault fault
  | .ok (.show topic) => ofTopic topic
  | .ok (.compile options) => ofJob stages (start options)

end Outcome

end Bracemark
