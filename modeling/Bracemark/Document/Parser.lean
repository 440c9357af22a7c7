import Bracemark.Diagnostic
import Bracemark.Document.Tree
import Bracemark.Text.Blank
import Bracemark.Token.Block

/-!
# Parsing markup

Markup is read token by token. The containers that are open form a stack; the
root is at its bottom. Between the children of a container only blanks and words
without a meaning may stand. A leaf takes everything up to its closing brace as
text.

The parser is a machine with one step per token, so what can follow depends on
its state alone, and every error is found at the first token that no document
could have there.
-/

namespace Bracemark

namespace Document

/-- A container that is open: its label, and its children so far, latest first. -/
structure Container where
  label : Label
  children : List (Bool × Tree) := []

namespace Container

/-- Adds a child, boxed if the container boxes its children. -/
def add (c : Container) (child : Tree) : Container :=
  { c with children := (c.label.kind.boxes, child) :: c.children }

def tree (c : Container) : Tree := ⟨c.label, .ofList c.children.reverse⟩

end Container

/-- What the parser waits for: the next child, the block of a tag, or the end of
the leaf that a tag has begun, with the number of blocks open inside it. -/
inductive Mode where
  | between
  | entering (tag : Token) (kind : Kind)
  | inside (tag : Token) (kind : Kind) (opening : Token) (depth : Nat)

/-- The state of the parser. `closed` lists the containers that have ended, with
the number of their children, latest first. -/
structure ParseState where
  current : Container := { label := { kind := .root } }
  outer : List Container := []
  mode : Mode := .between
  closed : List (Kind × Nat) := []

/-- Why markup is refused, with the offset that a message cites. -/
structure ParseFault where
  cause : Cause
  offset : Nat
  deriving DecidableEq, Repr

namespace ParseState

/-- Adds a finished child to the current container. -/
def add (s : ParseState) (child : Tree) : ParseState :=
  { s with current := s.current.add child, mode := .between }

/-- Ends the current container, if it is not the root. -/
def close (s : ParseState) : Option ParseState :=
  match s.outer with
  | [] => none
  | parent :: others => some {
      current := parent.add s.current.tree
      outer := others
      closed := (s.current.label.kind, s.current.children.length) :: s.closed }

/-- The fault of a token, or of the end of the text, between children. -/
def unexpected (s : ParseState) (found : Found) (offset : Nat) : ParseFault :=
  ⟨.unexpected s.current.label.kind.acceptedWords found, offset⟩

def stepBetween (s : ParseState) (t : Token) : Except ParseFault ParseState :=
  let refuse := Except.error (s.unexpected (.ofToken? (some t)) t.start)
  match t.kind with
  | .blank | .other => .ok s
  | .tag kind =>
    if s.current.label.kind.accepts kind then .ok { s with mode := .entering t kind }
    else refuse
  | .blockEnd => match s.close with
    | some closed => .ok closed
    | none => refuse
  | _ => refuse

def stepEntering (s : ParseState) (text : Text) (tag : Token) (kind : Kind) (t : Token) :
    Except ParseFault ParseState :=
  match t.kind with
  | .blank => .ok s
  | .blockStart =>
    if kind.isLeaf then .ok { s with mode := .inside tag kind t 0 }
    else .ok { s with
      current := { label := { kind, line := text.lineAt tag.start } }
      outer := s.current :: s.outer
      mode := .between }
  | _ => .error ⟨.block (.expected tag.text (.ofToken? (some t))), t.start⟩

/-- The leaf of a tag whose block has ended. -/
def leaf (collapse : Bool) (text : Text) (tag : Token) (kind : Kind) (b : Block) : Tree :=
  let data := b.interior text
  { label := {
      kind
      data := some (if collapse then Text.collapse data else data)
      line := text.lineAt tag.start }
    children := .nil }

def stepInside (s : ParseState) (collapse : Bool) (text : Text) (tag : Token) (kind : Kind)
    (opening : Token) (depth : Nat) (t : Token) : ParseState :=
  match t.kind, depth with
  | .blockStart, _ => { s with mode := .inside tag kind opening (depth + 1) }
  | .blockEnd, 0 => s.add (leaf collapse text tag kind ⟨opening.stop, t.start⟩)
  | .blockEnd, inner + 1 => { s with mode := .inside tag kind opening inner }
  | _, _ => s

def step (collapse : Bool) (text : Text) (s : ParseState) (t : Token) :
    Except ParseFault ParseState :=
  match s.mode with
  | .between => s.stepBetween t
  | .entering tag kind => s.stepEntering text tag kind t
  | .inside tag kind opening depth =>
    .ok (s.stepInside collapse text tag kind opening depth t)

def finish (text : Text) (s : ParseState) : Except ParseFault Tree :=
  match s.mode with
  | .between =>
    if s.outer.isEmpty then .ok s.current.tree
    else .error (s.unexpected .endOfInput text.length)
  | .entering tag _ => .error ⟨.block (.expected tag.text .endOfInput), tag.start⟩
  | .inside tag _ opening _ => .error ⟨.block (.unterminated tag.text), opening.start⟩

/-- Takes tokens one after the other, up to the first that is refused. Gives the
outcome, and the containers that ended on the way. -/
def run (collapse : Bool) (text : Text) :
    ParseState → List Token → Except ParseFault Tree × List (Kind × Nat)
  | s, [] => (s.finish text, s.closed.reverse)
  | s, t :: rest =>
    match s.step collapse text t with
    | .ok next => run collapse text next rest
    | .error fault => (.error fault, s.closed.reverse)

end ParseState

/-- Parses markup into a tree. With `collapse`, every run of blanks in a leaf
becomes one space. Also gives the containers in the order in which they ended,
with the number of their children. -/
def parse (collapse : Bool) (text : Text) : Except ParseFault Tree × List (Kind × Nat) :=
  ParseState.run collapse text {} (Lexer.document.tokens text)

/-- The diagnostic of a fault in the markup of a file. -/
def ParseFault.diagnostic (file text : Text) (f : ParseFault) : Diagnostic :=
  ⟨.parse, file, some (text.lineAt f.offset), f.cause⟩

end Document

end Bracemark
