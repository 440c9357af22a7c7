import Bracemark.Command.Outcome

/-!
# The program

Called as `vvsml inputdir outputdir` with the arguments of a command line behind.
Settings come from the environment. The job runs on a tree of the files that it
has asked for: when it stops at a file that the tree lacks, the file is read and
the job starts again. In the end the files that the job has written are written
to the disk.
-/

namespace Bracemark

namespace Program

/-- The variables of the environment that give settings. -/
def environment : IO (List (String × Text)) := do
  let names := Setting.names.map fun name => Setting.environmentStart ++ name
  let found ← names.mapM fun name => do
    return (← IO.getEnv name.toUpper).map fun value => (name, value.toList)
  return found.filterMap id

/-- The files that are known: none, in the current directory. -/
def noFiles : IO FileTree := do
  let here ← IO.currentDir
  return { working := (Path.ofText here.toString.toList).parts }

/-- The directories that a path leads through. -/
def passedDirectories (files : FileTree) (p : Path) : List Spot :=
  let start : Spot := if p.isAbsolute then [] else files.working
  (List.range p.parts.length).map fun n => (p.parts.take n).foldl FileTree.descend start

/-- Adds a file of the disk, if there is one that the tree lacks. -/
def load (files : FileTree) (p : Path) : IO (Option FileTree) := do
  if files.isFile p then return none
  try
    let bytes ← IO.FS.readBinFile (String.ofList p.toText)
    let wider := { files with directories := passedDirectories files p ++ files.directories }
    return (wider.write p bytes.toList).toOption
  catch _ => return none

/-- The file that a job has asked for in vain. -/
def wanted? (j : Job) : Stop → Option Path
  | .diagnosed d => match d.cause with
    | .missingInput path => some (Path.ofText path)
    | .unreadableInclude name | .unreadableTable name => some (Include.resolve j.context name)
    | _ => none
  | _ => none

/-- Runs a job on more and more files, until it asks for none that can be read. -/
def run (j : Job) : IO Outcome := do
  let mut files := j.files
  repeat
    let start := { j with files }
    match Job.stages Stage.all start with
    | .ok () ended => return { status := .ok 0, job? := some ended }
    | .error stop ended =>
      let more ← match wanted? ended stop with
        | some path => load files path
        | none => pure none
      match more with
      | some wider => files := wider
      | none => return Outcome.ofStop ended stop
  return { status := .error .outOfPatience }

/-- Writes what a job has written to the disk, and shows its warnings and its
progress. -/
def settle (j : Job) : IO Unit := do
  for d in j.warnings do IO.eprintln d.message
  for e in j.progress do
    if e.level ≤ j.options.verbosity then IO.eprintln e.message
  for (spot, bytes) in j.files.files do
    if j.written.contains spot then
      let path : Path := ⟨['/'], spot⟩
      IO.FS.createDirAll (String.ofList path.parent.toText)
      IO.FS.writeBinFile (String.ofList path.toText) (ByteArray.mk bytes.toArray)

/-- Shows an outcome and gives its exit status. -/
def conclude (outcome : Outcome) : IO UInt32 := do
  if let some j := outcome.job? then settle j
  IO.print outcome.output
  IO.eprint outcome.complaint
  match outcome.status with
  | .ok n => return UInt32.ofNat n
  | .error _ =>
    IO.eprintln (Command.name ++ ": the job ended without a result")
    return 1

/-- Runs the arguments behind the two directories. -/
def main (inputDirectory outputDirectory : Text) (words : List Text) : IO UInt32 := do
  match Arguments.read words with
  | .error fault => conclude (Outcome.ofFault fault)
  | .ok (.show topic) => conclude (Outcome.ofTopic topic)
  | .ok (.compile options) =>
    match Setting.fromGiven [] (← environment) with
    | none =>
      IO.eprintln (Command.name ++ ": a setting in the environment is not valid")
      return 1
    | some settings =>
      let j : Job := {
        options, settings
        inputDirectory := Path.ofText inputDirectory
        outputDirectory := Path.ofText outputDirectory
        files := ← noFiles
        patience := 1000000000000 }
      conclude (← run j)

end Program

end Bracemark

/-- Runs the program on the words behind its name. -/
def main (words : List String) : IO UInt32 :=
  match words.map String.toList with
  | input :: output :: rest =>
    if input.head? = some '-' then Bracemark.Program.main [] [] (input :: output :: rest)
    else Bracemark.Program.main input output rest
  | rest => Bracemark.Program.main [] [] rest
