import Bracemark.Diagnostic
import Bracemark.Escape.Chunk
import Bracemark.Escape.Piece
import Bracemark.Pattern.Read
import Bracemark.Progress
import Bracemark.Settings

/-!
# Runs

A run preprocesses one document. What it is given (its path, the settings, the
files) never changes; what it gathers (macros, substitutions that wait for the
end of the pass, the number of passes, warnings and progress) is kept even if
the run fails.
-/

namespace Bracemark

/-- What a run is given. A run without a bound on its passes is abandoned after
`patience` passes. -/
structure Context where
  path : Text := "<input>".toList
  settings : Settings := {}
  files : FileTree := {}
  patience : Nat := 1000000000000

namespace Context

def directory (ctx : Context) : Path := (Path.ofText ctx.path).parent

end Context

/-- A replacement that waits until the directives of its family are resolved. -/
structure Substitution where
  pattern : Pattern
  template : Text
  line : Nat

abbrev Macros := List (Text × Text)

namespace Macros

/-- Defines a macro, in place of an earlier one of that name. -/
def define (m : Macros) (name body : Text) : Macros :=
  (name, body) :: m.filter (·.1 ≠ name)

def body? (m : Macros) (name : Text) : Option Text := m.lookup name

end Macros

/-- What a run gathers. Warnings and progress come in order. -/
structure RunState where
  macros : Macros := []
  pending : List Substitution := []
  passes : Nat := 0
  warnings : List Diagnostic := []
  progress : Array Event := #[]

abbrev Run (α : Type) := EStateM Failure RunState α

namespace Run

variable {α : Type}

def note (e : Event) : Run Unit :=
  modify fun s => { s with progress := s.progress.push e }

def refuse (d : Diagnostic) : Run α := throw (.diagnostic d)

/-- Ends the run with a complaint about the document. -/
def complain (ctx : Context) (line? : Option Nat) (cause : Cause) : Run α :=
  refuse ⟨.directive, ctx.path, line?, cause⟩

def warn (ctx : Context) (line : Nat) (cause : Cause) : Run Unit :=
  modify fun s => { s with
    warnings := s.warnings ++ [⟨.directive, ctx.path, some line, cause⟩] }

/-- The diagnostic of a backslash that a scheme refuses. -/
def escapeDiagnostic (file text : Text) (f : EscapeFault) : Diagnostic :=
  ⟨.directive, file, some (text.lineAt f.offset), match f.character? with
    | none => .escapeAtEnd
    | some c => .inescapable c⟩

/-- Protects the escape pairs of a text of a file. -/
def protect (scheme : Scheme) (file text : Text) : Run Text := do
  match scheme.fault? text with
  | some f => refuse (escapeDiagnostic file text f)
  | none =>
    let count := scheme.escapeCount text
    if 0 < count then note (.protectedEscapes count scheme.name)
    return scheme.protect text

/-- Restores the characters of a protected text. -/
def deprotect (scheme : Scheme) (text : Text) : Run Text := do
  (scheme.unknownTags text).forM fun g => note (.droppedCode g)
  return scheme.deprotect text

end Run

end Bracemark
