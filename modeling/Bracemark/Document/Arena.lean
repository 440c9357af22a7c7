import Bracemark.Document.Html

/-!
# Trees under construction

An arena holds nodes and boxes by number, in the order in which they were made.
A node can be a child of several parents, and what is added to it later shows
under all of them. Unfolding a node gives the tree that stands under it.
-/

namespace Bracemark

/-- A node with the numbers of its children, or a box around a node. -/
inductive ArenaItem where
  | node (label : Label) (children : List (Bool × Nat))
  | box (node : Nat)
  deriving DecidableEq, Repr

abbrev Arena := List ArenaItem

namespace Arena

/-- Makes a node; its number is the size of the arena before. -/
def node (a : Arena) (label : Label) : Arena := a ++ [.node label []]

/-- Puts a node into a box of its own. A box is not boxed again. -/
def box (a : Arena) (i : Nat) : Except Failure Arena :=
  match a[i]? with
  | some (.node ..) => .ok (a ++ [.box i])
  | some (.box _) => .error .boxedTwice
  | none => .error (.notANode .kind)

/-- A child as it is stored: a box counts as its node, boxed. -/
def child (a : Arena) (i : Nat) : Option (Bool × Nat) :=
  match a[i]? with
  | some (.node ..) => some (false, i)
  | some (.box j) => some (true, j)
  | none => none

/-- Puts a child after the others of a node; gives their number. -/
def push (a : Arena) (parent : Nat) (c : Bool × Nat) : Except Failure (Arena × Nat) :=
  match a[parent]? with
  | some (.node label children) =>
    .ok (a.set parent (.node label (children ++ [c])), children.length + 1)
  | _ => .error (.notANode .children)

def append (a : Arena) (parent i : Nat) : Except Failure (Arena × Nat) :=
  match a.child i with
  | some c => a.push parent c
  | none => .error (.notANode .kind)

/-- Adds a child, boxed if the kind of the parent asks for it. -/
def add (a : Arena) (parent i : Nat) : Except Failure (Arena × Nat) :=
  match a[parent]? with
  | some (.node label _) =>
    if label.kind.boxes then
      match a.child i with
      | some (false, j) => a.push parent (true, j)
      | some (true, _) => .error .boxedTwice
      | none => .error (.notANode .kind)
    else a.append parent i
  | _ => .error (.notANode .adding)

/-- The trees of given children, as deep as `fuel` allows. -/
def unfoldChildren (a : Arena) : (fuel : Nat) → List (Bool × Nat) → Forest
  | 0, _ => .nil
  | fuel + 1, children => .ofList (children.map fun (boxed, i) =>
    match a[i]? with
    | some (.node label grandchildren) =>
      (boxed, ⟨label, a.unfoldChildren fuel grandchildren⟩)
    | _ => (boxed, ⟨{ kind := .root }, .nil⟩))

/-- The tree under a node. No branch is longer than the arena. -/
def tree? (a : Arena) (i : Nat) : Option Tree :=
  match a[i]? with
  | some (.node label children) => some ⟨label, a.unfoldChildren a.length children⟩
  | _ => none

/-- The flat listing under a node, or under the node in a box. -/
def entries (a : Arena) (i : Nat) : Except Failure (List Entry) :=
  match (a.child i).bind fun (boxed, j) => (a.tree? j).map (boxed, ·) with
  | some (boxed, t) => .ok (t.entries boxed)
  | none => .error (.notANode .kind)

/-- The HTML of the tree under a node of a file. -/
def html (a : Arena) (file : Text) (i : Nat) : Except Failure Text :=
  match a.tree? i with
  | some t => (Html.render t).mapError (Html.RenderFault.failure file)
  | none => .error (.notANode .kind)

end Arena

end Bracemark
