import Bracemark.File.Encoding
import Bracemark.Pattern.Error
import Bracemark.Token.Block

/-!
# Diagnostics

A diagnostic says what is wrong with a document, in which file, and in which
line where there is one. Its cause is data; the wording is given by
`Cause.message` alone.

`Failure` adds what ends a run without being a diagnostic.
-/

namespace Bracemark

/-- The part of the work that a diagnostic comes from. -/
inductive Area where
  | directive
  | parse
  | generation
  | usage
  | source
  deriving DecidableEq, Repr

namespace Area

def name : Area → String
  | .directive => "directive"
  | .parse => "parse"
  | .generation => "codegen"
  | .usage => "usage"
  | .source => "source"

end Area

/-- What a diagnostic complains about. -/
inductive Cause where
  | escapeAtEnd
  | inescapable (c : Char)
  | block (problem : BlockProblem)
  | unbalanced (opening closing : Nat)
  | notConverged (passes : Nat)
  | undefinedMacro (name : Text)
  | unreadableInclude (name : Text)
  | unreadableTable (name : Text)
  | redundantSpecifier (c : Char)
  | invalidSpecifier (c : Char)
  | invalidCodePoint (written : Text)
  | invalidPattern (source : Text) (fault : Pattern.Fault)
  | invalidReplacement (source : Text) (fault : Pattern.Fault)
  | unexpected (accepted : List String) (found : Found)
  | notRoot
  | unboxedChild (parent : Kind)
  | missingInput (path : Text)
  | unreadableSource (reason : String)
  deriving DecidableEq, Repr

namespace BlockProblem

def message : BlockProblem → String
  | .expected keyword found =>
    "expected block start after " ++ String.ofList keyword ++ ", found " ++ found.describe
  | .unterminated keyword => "unterminated block after " ++ String.ofList keyword

end BlockProblem

namespace Cause

def message : Cause → String
  | .escapeAtEnd => "escaping inescapable character"
  | .inescapable c => String.singleton c ++ " cannot be escaped"
  | .block problem => problem.message
  | .unbalanced opening closing =>
    "unbalanced braces: " ++ toString opening ++ " '\x7b' and " ++ toString closing
      ++ " '\x7d' found"
  | .notConverged passes =>
    "preprocessing did not converge after " ++ toString passes ++ " passes"
  | .undefinedMacro name => "macro not defined: " ++ String.ofList name
  | .unreadableInclude name => "cannot include " ++ String.ofList name
  | .unreadableTable name => "cannot import table " ++ String.ofList name
  | .redundantSpecifier c => "format specifier " ++ String.singleton c ++ " is redundant"
  | .invalidSpecifier c => "invalid format specifier: " ++ String.singleton c
  | .invalidCodePoint written => "invalid codepoint: " ++ String.ofList written
  | .invalidPattern source fault =>
    "invalid pattern " ++ String.ofList source ++ ": " ++ fault.message
  | .invalidReplacement source fault =>
    "invalid replacement " ++ String.ofList source ++ ": " ++ fault.message
  | .unexpected accepted found =>
    "expected one of " ++ ", ".intercalate accepted ++ ", found " ++ found.describe
  | .notRoot => "tried to generate html from non-root node"
  | .unboxedChild parent => "unwrapped child in " ++ parent.word
  | .missingInput path => "input file not found: " ++ String.ofList path
  | .unreadableSource reason => "cannot read source: " ++ reason

end Cause

/-- A complaint about a file, and about one of its lines where there is one. -/
structure Diagnostic where
  area : Area
  file : Text
  line? : Option Nat
  cause : Cause
  deriving DecidableEq, Repr

namespace Diagnostic

/-- The wording of a diagnostic with its place in front. -/
def message (d : Diagnostic) : String :=
  match d.line? with
  | none => String.ofList d.file ++ " - " ++ d.cause.message
  | some line => String.ofList d.file ++ ":" ++ toString line ++ " - " ++ d.cause.message

/-- The diagnostic of a block that could not be read from a text. -/
def ofBlockFault (area : Area) (file text : Text) (f : BlockFault) : Diagnostic :=
  ⟨area, file, some (text.lineAt f.offset), .block f.problem⟩

end Diagnostic

namespace FileError

/-- The wording of a failed file operation on a path. -/
def message (path : Text) (e : FileError) : String :=
  let place := ": " ++ String.ofList (Quoted.encode path)
  match e with
  | .embeddedNul => "embedded null byte"
  | .notFound => "[Errno 2] No such file or directory" ++ place
  | .notADirectory => "[Errno 20] Not a directory" ++ place
  | .isADirectory => "[Errno 21] Is a directory" ++ place
  | .alreadyExists => "[Errno 17] File exists" ++ place

end FileError

/-- What only a node has, and a box around a node has not. -/
inductive NodePart where
  | kind
  | children
  | adding
  deriving DecidableEq, Repr

/-- What ends a run before it has a result. A box where a node is needed is known
by the part of a node that was asked of it. -/
inductive Failure where
  | diagnostic (d : Diagnostic)
  | file (e : FileError)
  | unknownEncoding (name : Text)
  | unencodable
  | pattern (e : Pattern.Error)
  | unhandled (keywords : List String)
  | boxedTwice
  | notANode (asked : NodePart)
  | outOfPatience
  deriving DecidableEq, Repr

end Bracemark
