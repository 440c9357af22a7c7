import Bracemark.Document.Kind

/-!
# Document trees

A node has a label and children. Children of lists and rows are expected to be
boxed, each in an item of its own; a tree built by hand need not keep to that,
and the tree can hold a boxed child anywhere.

The children of a node form a forest: nothing, or a first tree with the trees
after it. The forest is one inductive type, so a walk over a document is a plain
structural recursion.
-/

namespace Bracemark

/-- What a node says of itself: its kind, its text if it is a leaf, and its line. -/
structure Label where
  kind : Kind
  data : Option Text := none
  line : Nat := 0
  deriving DecidableEq, Repr

/-- Trees in order. Each has its label, its children, and the trees after it,
and is boxed or not. -/
inductive Forest where
  | nil
  | cons (boxed : Bool) (label : Label) (children rest : Forest)
  deriving DecidableEq, Repr

/-- A tree with its label and its children. -/
structure Tree where
  label : Label
  children : Forest
  deriving DecidableEq, Repr

/-- One line of a flat listing: depth, whether boxed, label. -/
structure Entry where
  depth : Nat
  boxed : Bool
  label : Label
  deriving DecidableEq, Repr

namespace Forest

def ofList : List (Bool × Tree) → Forest
  | [] => .nil
  | (boxed, t) :: rest => .cons boxed t.label t.children (ofList rest)

def toList : Forest → List (Bool × Tree)
  | .nil => []
  | .cons boxed label children rest => (boxed, ⟨label, children⟩) :: rest.toList

/-- The nodes from the top down, each with its depth. -/
def entries (depth : Nat) : Forest → List Entry
  | .nil => []
  | .cons boxed label children rest =>
    ⟨depth, boxed, label⟩ :: children.entries (depth + 1) ++ rest.entries depth

end Forest

namespace Tree

def entries (t : Tree) (boxed : Bool := false) : List Entry :=
  ⟨0, boxed, t.label⟩ :: t.children.entries 1

end Tree

end Bracemark
