import Bracemark.Command.Arguments
import Bracemark.Compile

/-!
# Jobs

A job compiles one file of an input directory into one file of an output
directory. Its stages share one state, which holds the files as they are at that
point. A stage that cannot go on stops the job; what was written until then
stays. Nothing is written before the HTML is complete.
-/

namespace Bracemark

/-- What a finished job says of its output. -/
structure JobResult where
  outputFile : Text
  characters : Nat
  deriving DecidableEq, Repr

/-- A job with what its stages have given so far. -/
structure Job where
  options : Options
  settings : Settings
  inputDirectory : Path
  outputDirectory : Path
  files : FileTree
  patience : Nat
  ready : Bool := false
  source : Path := Path.top
  target : Path := Path.top
  text? : Option Text := none
  tree? : Option Tree := none
  html? : Option Text := none
  result? : Option JobResult := none
  written : List Spot := []
  warnings : List Diagnostic := []
  progress : Array Event := #[]

/-- Why a job stops: a complaint about a file, a stage without what it needs, or
what ends a run otherwise. -/
inductive Stop where
  | diagnosed (d : Diagnostic)
  | noHtml
  | noResult
  | failed (e : Failure)
  deriving DecidableEq, Repr

namespace Stop

def ofFailure : Failure → Stop
  | .diagnostic d => .diagnosed d
  | e => .failed e

end Stop

abbrev JobStep (α : Type) := EStateM Stop Job α

/-- The stages of a job. -/
inductive Stage where
  | checkEnvironment
  | readSource
  | compileSource
  | writeHtml
  | reportResult
  deriving DecidableEq, Repr

namespace Stage

def all : List Stage :=
  [.checkEnvironment, .readSource, .compileSource, .writeHtml, .reportResult]

def name : Stage → String
  | .checkEnvironment => "env_check"
  | .readSource => "source_read"
  | .compileSource => "source_compile"
  | .writeHtml => "html_write"
  | .reportResult => "results_report"

end Stage

namespace Job

variable {α : Type}

def note (e : Event) : JobStep Unit :=
  modify fun j => { j with progress := j.progress.push e }

/-- Stops with a complaint about a file as a whole. -/
def complain (area : Area) (path : Path) (cause : Cause) : JobStep α :=
  throw (.diagnosed ⟨area, path.toText, none, cause⟩)

/-- Finds the input file and fixes both paths. -/
def checkEnvironment : JobStep Unit := do
  note .checkingEnvironment
  let j ← get
  let source := j.inputDirectory.join (Path.ofText j.options.inputFile)
  if !j.files.isFile source then complain .usage source (.missingInput source.toText)
  note (.inputFile source.toText)
  let target := j.outputDirectory.join (Path.ofText j.options.outputFile)
  note (.outputFile target.toText)
  modify fun j => { j with source, target, ready := true }

def readSource : JobStep Unit := do
  note .readingSource
  let j ← get
  let unreadable (reason : String) : JobStep Unit :=
    complain .source j.source (.unreadableSource reason)
  match j.files.read j.source with
  | .error .embeddedNul => throw (.failed (.file .embeddedNul))
  | .error e => unreadable (e.message j.source.toText)
  | .ok bytes =>
    match Encoding.ofName? j.settings.sourceEncoding with
    | none => throw (.failed (.unknownEncoding j.settings.sourceEncoding))
    | some encoding =>
      match encoding.decode bytes with
      | .error e => unreadable e.message
      | .ok text =>
        let text := Text.unixLines text
        note (.readFile text.length j.source.name)
        modify fun j => { j with text? := some text }

/-- What a compilation of the job is given. -/
def context (j : Job) : Context :=
  { path := j.source.toText, settings := j.settings, files := j.files, patience := j.patience }

/-- Compiles the text, or an empty one if none was read. -/
def compileSource : JobStep Unit := do
  let j ← get
  let report := compileFrom j.context (j.text?.getD [])
    { warnings := j.warnings, progress := j.progress }
  modify fun j => { j with warnings := report.state.warnings, progress := report.state.progress }
  match report.result with
  | .error e => throw (Stop.ofFailure e)
  | .ok html => modify fun j => { j with html? := some html, tree? := report.tree? }

/-- Changes the files by an operation that can fail. -/
def changeFiles (change : FileTree → Except FileError FileTree) : JobStep Unit := do
  match change (← get).files with
  | .ok files => modify fun j => { j with files }
  | .error e => throw (.failed (.file e))

/-- Opens the output file, which makes the directories above it and leaves the
file empty. -/
def openTarget : JobStep Unit := do
  let target := (← get).target
  changeFiles fun files => files.makeDirectories target.parent target.parent.parts.length
  changeFiles fun files => files.write target []
  modify fun j => { j with written := (j.files.locate target).toOption.toList ++ j.written }

def writeHtml : JobStep Unit := do
  let j ← get
  match j.html? with
  | none => throw .noHtml
  | some html =>
    openTarget
    match Encoding.ofName? j.settings.outputEncoding with
    | none => throw (.failed (.unknownEncoding j.settings.outputEncoding))
    | some encoding =>
      match encoding.encode? html with
      | none => throw (.failed .unencodable)
      | some bytes =>
        changeFiles fun files => files.write j.target bytes
        note (.wrote j.target.toText)
        modify fun j => { j with result? := some ⟨j.target.toText, html.length⟩ }

def reportResult : JobStep Unit := do
  match (← get).result? with
  | none => throw .noResult
  | some result =>
    note .succeeded
    note (.reportOutput result.outputFile)
    note (.reportSize result.characters)

def stage : Stage → JobStep Unit
  | .checkEnvironment => checkEnvironment
  | .readSource => readSource
  | .compileSource => compileSource
  | .writeHtml => writeHtml
  | .reportResult => reportResult

/-- Stages one after the other, up to the first that stops the job. -/
def stages (list : List Stage) : JobStep Unit := list.forM stage

end Job

end Bracemark
