import Bracemark.Diagnostic
import Bracemark.Document.Tree

/-!
# HTML

Every kind of node has one element. A leaf puts its text into it, a plain
container its children, and a list or row each of its children in an element of
its own. Below a leaf nothing is rendered.
-/

namespace Bracemark

namespace Html

/-- How a node becomes HTML. -/
inductive Shape where
  | leaf (element : String)
  | enclosing (element : String)
  | wrapping (element inner : String)
  deriving DecidableEq, Repr

def shape : Kind → Shape
  | .root => .enclosing "html"
  | .contents => .enclosing "body"
  | .table => .enclosing "table"
  | .chapter => .leaf "h1"
  | .sectionTitle => .leaf "h2"
  | .subsectionTitle => .leaf "h3"
  | .paragraph => .leaf "p"
  | .bulletList => .wrapping "ul" "li"
  | .numberedList => .wrapping "ol" "li"
  | .row => .wrapping "tr" "td"

/-- Why a tree has no HTML: a list or row has a child that is not boxed, another
container has one that is, or the tree does not begin at a root. -/
inductive RenderFault where
  | notRoot
  | unboxed (parent : Label)
  | boxed
  deriving DecidableEq, Repr

def element (name : String) (t : Text) : Text :=
  ("<" ++ name ++ ">").toList ++ t ++ ("</" ++ name ++ ">").toList

/-- An element is its name in angle brackets, what stands in it, and its name behind a slash in
angle brackets. -/
theorem element_eq (name : String) (t : Text) :
    element name t =
      '<' :: (name.toList ++ '>' :: (t ++ '<' :: '/' :: (name.toList ++ ['>']))) := by
  simp only [element, String.toList_append, List.append_assoc]
  rfl

/-- A rendered child, boxed or not, as the element of its parent holds it. -/
def place (parent : Label) (boxed : Bool) (child : Text) : Except RenderFault Text :=
  match shape parent.kind, boxed with
  | .wrapping _ inner, true => .ok (element inner child)
  | .wrapping .., false => .error (.unboxed parent)
  | _, true => .error .boxed
  | _, false => .ok child

/-- The HTML of the children of a node, in order. Whether a child may stand there
is decided before the child is rendered. -/
def forest (parent : Label) : Forest → Except RenderFault Text
  | .nil => .ok []
  | .cons boxed label children rest => do
    let _ ← place parent boxed []
    let child ← match shape label.kind with
      | .leaf name => .ok (element name (label.data.getD []))
      | .enclosing name | .wrapping name _ => (forest label children).map (element name)
    return (← place parent boxed child) ++ (← forest parent rest)

def render (t : Tree) : Except RenderFault Text :=
  if t.label.kind = .root then (forest t.label t.children).map (element "html")
  else .error .notRoot

/-- What ends a run that renders a tree of a file. -/
def RenderFault.failure (file : Text) : RenderFault → Failure
  | .notRoot => .diagnostic ⟨.generation, file, none, .notRoot⟩
  | .unboxed parent => .diagnostic ⟨.generation, file, some parent.line, .unboxedChild parent.kind⟩
  | .boxed => .notANode .kind

end Html

end Bracemark
