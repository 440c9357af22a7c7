import Bracemark.Text.Basic

/-!
# Splicing edits into a text

An edit replaces a span of a text. A list of edits is applied from the latest
start to the earliest, so that the offsets of edits still to come stay valid
while the text changes its length. Edits with one start keep the order in which
they are given.
-/

namespace Bracemark

/-- Replaces the span from `start` up to `stop`. -/
structure Edit where
  start : Nat
  stop : Nat
  replacement : Text
  deriving DecidableEq, Repr

namespace Edit

/-- Applies one edit. Offsets past the end mean the end. -/
def apply (t : Text) (e : Edit) : Text :=
  t.take e.start ++ e.replacement ++ t.drop e.stop

/-- Puts an edit before the first one that does not start later. -/
def place (e : Edit) : List Edit → List Edit
  | [] => [e]
  | x :: rest => if x.start ≤ e.start then e :: x :: rest else x :: place e rest

/-- Edits by descending start; equal starts keep their order. -/
def latestFirst : List Edit → List Edit
  | [] => []
  | e :: rest => place e (latestFirst rest)

end Edit

/-- Applies every edit to a text, the latest start first. -/
def Text.splice (t : Text) (edits : List Edit) : Text :=
  (Edit.latestFirst edits).foldl Edit.apply t

end Bracemark
