import Bracemark.Directive.Basic
import Bracemark.Token.Block

/-!
# Sites

A site is one directive found in a buffer, with its blocks. A scan for one
family goes through the buffer once, from left to right, and lists the sites to
resolve; what stands inside their blocks is passed over. A directive that waits
and still has directives in its blocks is no site, and the scan goes on inside
its blocks. A directive without its blocks ends the list with a fault.

Scanning has no effect and depends on the buffer alone.
-/

namespace Bracemark

/-- A directive in a buffer with the texts of its blocks. -/
structure Site where
  directive : Directive
  start : Nat
  stop : Nat
  line : Nat
  arguments : List Text
  deriving DecidableEq, Repr

namespace Site

def first (s : Site) : Text := s.arguments.headD []

def second (s : Site) : Text := s.arguments.tail.headD []

/-- What the scan finds at one token, and the number of tokens it passes over. -/
def step (family : Family) (buffer : Text) (t : Token) (rest : List Token) :
    List (Except BlockFault Site) × Nat :=
  match t.directive? with
  | none => ([], 0)
  | some d =>
    if d.family = family then
      match t.readBlocks d.arity rest with
      | .error fault _ => ([.error fault], rest.length)
      | .ok blocks after =>
        let arguments := blocks.map (·.interior buffer)
        if d.waits && arguments.any Text.hasDirective then ([], 0)
        else
          ([.ok {
            directive := d
            start := t.start
            stop := (blocks.getLast?.map (·.past)).getD t.stop
            line := buffer.lineAt t.start
            arguments }], rest.length - after.length)
    else ([], 0)

/-- The sites of one family in a buffer, in order, and perhaps a fault at the end. -/
def scan (family : Family) (buffer : Text) : List (Except BlockFault Site) :=
  (segment (step family buffer) 0 (Lexer.directive.tokens buffer)).flatten

end Site

end Bracemark
