import Bracemark.Document.Arena
import Bracemark.Proofs.LeafTexts
import Mathlib.Logic.Relation

/-!
# Children without a box

A tree built by hand can hold a child that is not boxed under a list or a row. Rendering walks the
children in document order and enters each of them unless it is a leaf (`Tree.reached`), and it
ends at the first bare child (`Html.forest_eq`). The children it comes to are those of the nodes
that can be reached from the top without going through a leaf (`Tree.mem_reached_iff`).

If there is no bare child among them, the HTML is markup that has one element for each of the
nodes, in document order, and around the element of a boxed child one for its box
(`Forest.elements_markup`). An element is listed with what stands directly in it, so the list says
how the elements are nested.
-/

namespace Bracemark

/-! ## The children that rendering comes to -/

/-- A child of a node, boxed or not. -/
structure Child where
  parent : Tree
  boxed : Bool
  node : Tree
  deriving DecidableEq

/-- The children below a node that rendering comes to, each in front of those below it. -/
def Forest.reached (parent : Tree) : Forest → List Child
  | .nil => []
  | .cons boxed label children rest =>
    ⟨parent, boxed, ⟨label, children⟩⟩ ::
      ((if label.kind.isLeaf then [] else children.reached ⟨label, children⟩) ++
        rest.reached parent)

namespace Tree

/-- The children below the top of a tree that rendering comes to, in document order. -/
def reached (t : Tree) : List Child :=
  if t.label.kind.isLeaf then [] else t.children.reached t

/-- Rendering goes from a node to its children, through their boxes, unless it is a leaf. -/
def Enters (t child : Tree) : Prop :=
  t.label.kind.isLeaf = false ∧ ∃ boxed, (boxed, child) ∈ t.children.toList

/-- A node that rendering comes to from the top of a tree. -/
def Reaches (t node : Tree) : Prop := Relation.ReflTransGen Enters t node

end Tree

/-- A child that has no box where its parent asks for one. -/
def Child.bare (c : Child) : Bool := c.parent.label.kind.boxes && !c.boxed

namespace Forest

variable {parent : Tree} {c : Child} {f : Forest}

theorem reached_cons (parent : Tree) (boxed : Bool) (label : Label) (children rest : Forest) :
    (cons boxed label children rest).reached parent =
      ⟨parent, boxed, ⟨label, children⟩⟩ ::
        (Tree.reached ⟨label, children⟩ ++ rest.reached parent) := rfl

/-- A child is listed, and so are those below it. -/
theorem mem_reached {boxed : Bool} {child : Tree} (h : (boxed, child) ∈ f.toList) :
    ⟨parent, boxed, child⟩ ∈ f.reached parent ∧ child.reached ⊆ f.reached parent := by
  induction f with
  | nil => exact absurd h List.not_mem_nil
  | cons boxed' label children rest _ ih =>
    rw [toList, List.mem_cons] at h
    rw [reached_cons]
    rcases h with heq | hrest
    · obtain ⟨rfl, rfl⟩ := Prod.mk.inj heq
      exact ⟨List.mem_cons_self, List.subset_cons_of_subset _ (List.subset_append_left ..)⟩
    · obtain ⟨hmem, hbelow⟩ := ih hrest
      exact ⟨List.mem_cons_of_mem _ (List.mem_append_right _ hmem),
        List.subset_cons_of_subset _ (List.subset_append_of_subset_right _ hbelow)⟩

/-- What is listed below a forest is the child of a node that can be reached. -/
theorem exists_reaches_of_mem (h : c ∈ f.reached parent) :
    (c.boxed, c.node) ∈ c.parent.children.toList ∧ c.parent.label.kind.isLeaf = false ∧
        (∃ boxed child, (boxed, child) ∈ f.toList ∧ child.Reaches c.parent) ∨
      c.parent = parent ∧ (c.boxed, c.node) ∈ f.toList := by
  induction f generalizing parent with
  | nil => exact absurd h List.not_mem_nil
  | cons boxed label children rest ihchildren ih =>
    rw [reached_cons, List.mem_cons, List.mem_append] at h
    rcases h with rfl | hbelow | hrest
    · exact .inr ⟨rfl, List.mem_cons_self⟩
    · unfold Tree.reached at hbelow
      split at hbelow
      · exact absurd hbelow List.not_mem_nil
      next hleaf =>
        rw [Bool.not_eq_true] at hleaf
        left
        rcases ihchildren hbelow with ⟨hmem, hparent, b, child, hchild, hreaches⟩ | ⟨hparent, hmem⟩
        · exact ⟨hmem, hparent, boxed, _, List.mem_cons_self,
            .head ⟨hleaf, b, hchild⟩ hreaches⟩
        · rw [hparent]
          exact ⟨hmem, hleaf, boxed, _, List.mem_cons_self, .refl⟩
    · refine (ih hrest).imp ?_ (And.imp_right (List.mem_cons_of_mem _))
      rintro ⟨hmem, hparent, b, child, hchild, hreaches⟩
      exact ⟨hmem, hparent, b, child, List.mem_cons_of_mem _ hchild, hreaches⟩

end Forest

/-- Rendering comes to just the children of the nodes that can be reached. -/
theorem Tree.mem_reached_iff {t : Tree} {c : Child} : c ∈ t.reached ↔
    t.Reaches c.parent ∧ c.parent.label.kind.isLeaf = false ∧
      (c.boxed, c.node) ∈ c.parent.children.toList := by
  have hreached {t : Tree} (h : t.label.kind.isLeaf = false) :
      t.reached = t.children.reached t := by
    unfold reached
    rw [h]
    rfl
  constructor
  · intro h
    cases hleaf : t.label.kind.isLeaf with
    | true =>
      unfold reached at h
      rw [if_pos hleaf] at h
      exact absurd h List.not_mem_nil
    | false =>
      rw [hreached hleaf] at h
      rcases Forest.exists_reaches_of_mem h with
        ⟨hmem, hparent, b, child, hchild, hreaches⟩ | ⟨hparent, hmem⟩
      · exact ⟨.head ⟨hleaf, b, hchild⟩ hreaches, hparent, hmem⟩
      · rw [hparent]
        exact ⟨.refl, hleaf, hmem⟩
  · rintro ⟨hreaches, hparent, hmem⟩
    induction hreaches using Relation.ReflTransGen.head_induction_on with
    | refl =>
      rw [hreached hparent]
      exact (Forest.mem_reached hmem).1
    | head henters _ ih =>
      obtain ⟨hleaf, b, hchild⟩ := henters
      rw [hreached hleaf]
      exact (Forest.mem_reached hchild).2 ih

/-! ## The first bare child -/

namespace Html

theorem place_bare {parent : Label} (h : parent.kind.boxes = true) (t : Text) :
    place parent false t = .error (.unboxed parent) := by
  obtain ⟨kind, data, line⟩ := parent
  cases kind <;> first | rfl | cases h

/-- Rendering ends at the first bare child, if no child is boxed where its parent does not ask for
it. -/
theorem forest_eq {parent : Tree} {f : Forest}
    (h : ∀ c ∈ f.reached parent, c.boxed = true → c.parent.label.kind.boxes = true) :
    forest parent.label f = ((f.reached parent).find? Child.bare).elim
      (.ok (f.html parent.label.kind)) fun c => .error (.unboxed c.parent.label) := by
  induction f generalizing parent with
  | nil => rfl
  | cons boxed label children rest ihchildren ih =>
    rw [Forest.reached_cons] at h ⊢
    obtain ⟨hhead, hothers⟩ := List.forall_mem_cons.1 h
    obtain ⟨hbelow, hrest⟩ := List.forall_mem_append.1 hothers
    rw [forest_cons]
    by_cases hboxed : boxed = parent.label.kind.boxes
    · -- the child has its place, so the first bare child is below it or behind it
      have hbare : Child.bare ⟨parent, boxed, ⟨label, children⟩⟩ ≠ true := by
        simp [Child.bare, hboxed]
      have hinner :
          (if label.kind.isLeaf then .ok (label.data.getD []) else forest label children) =
          ((Tree.reached ⟨label, children⟩).find? Child.bare).elim
            (.ok (if label.kind.isLeaf then label.data.getD [] else children.html label.kind))
            fun c => .error (.unboxed c.parent.label) := by
        unfold Tree.reached at hbelow ⊢
        cases hleaf : label.kind.isLeaf with
        | true => rfl
        | false =>
          rw [hleaf] at hbelow
          exact @ihchildren ⟨label, children⟩ hbelow
      rw [List.find?_cons_of_neg hbare, List.find?_append, hinner, ih hrest, hboxed]
      simp only [place_boxes]
      cases (Tree.reached ⟨label, children⟩).find? Child.bare with
      | some c => rfl
      | none => cases (rest.reached parent).find? Child.bare <;> rfl
    · have hboxes : boxed = false ∧ parent.label.kind.boxes = true := by
        cases boxed with
        | true => exact absurd (hhead rfl).symm hboxed
        | false => exact ⟨rfl, Bool.of_not_eq_false (Ne.symm hboxed)⟩
      rw [List.find?_cons_of_pos (by simp [Child.bare, hboxes]), hboxes.1, place_bare hboxes.2]
      rfl

end Html

/-! ## Elements -/

namespace Html

/-- What stands in an element: texts and elements, in order. -/
inductive Markup where
  | nil
  | text (t : Text) (rest : Markup)
  | element (name : String) (inside rest : Markup)

/-- One of the things that stand in an element: a text, or an element by its name. -/
inductive Part where
  | text (t : Text)
  | element (name : String)
  deriving DecidableEq

namespace Markup

def written : Markup → Text
  | .nil => []
  | .text t rest => t ++ rest.written
  | .element name inside rest => Html.element name inside.written ++ rest.written

/-- What stands at the top. -/
def parts : Markup → List Part
  | .nil => []
  | .text t rest => .text t :: rest.parts
  | .element name _ rest => .element name :: rest.parts

/-- The elements in document order, each with what stands directly in it. -/
def elements : Markup → List (String × List Part)
  | .nil => []
  | .text _ rest => rest.elements
  | .element name inside rest => (name, inside.parts) :: (inside.elements ++ rest.elements)

/-- The element of a child of a node, in one for its box if the node asks for that. -/
def child (parent : Kind) (name : String) (inside rest : Markup) : Markup :=
  match parent.itemName? with
  | some item => .element item (.element name inside .nil) rest
  | none => .element name inside rest

variable {parent : Kind} {name : String} {inside rest : Markup}

theorem written_child : (child parent name inside rest).written =
    parent.item (Html.element name inside.written) ++ rest.written := by
  unfold child Kind.item
  cases parent.itemName? with
  | none => rfl
  | some item => rw [written, written, written, List.append_nil]

theorem parts_child : (child parent name inside rest).parts =
    .element (parent.itemName?.getD name) :: rest.parts := by
  unfold child
  cases parent.itemName? <;> rfl

theorem elements_child : (child parent name inside rest).elements =
    parent.itemName?.toList.map (·, [.element name]) ++
      (name, inside.parts) :: (inside.elements ++ rest.elements) := by
  unfold child
  cases parent.itemName? with
  | none => rfl
  | some item => simp [elements, parts]

end Markup

end Html

/-- The element of a node: a leaf has its text in it, another node one element for each child,
which is that of the box if its children have one. -/
def Tree.element (t : Tree) : String × List Html.Part :=
  (t.label.kind.elementName,
    if t.label.kind.isLeaf then [.text (t.label.data.getD [])]
    else t.children.toList.map fun (_, child) =>
      .element (t.label.kind.itemName?.getD child.label.kind.elementName))

/-- The elements of a child: that of its box around its own. -/
def Child.elements (c : Child) : List (String × List Html.Part) :=
  c.parent.label.kind.itemName?.toList.map
      (·, [.element c.node.label.kind.elementName]) ++ [c.node.element]

namespace Forest

/-- The markup of the children of a container of a kind. -/
def markup (parent : Kind) : Forest → Html.Markup
  | .nil => .nil
  | .cons _ label children rest =>
    .child parent label.kind.elementName
      (if label.kind.isLeaf then .text (label.data.getD []) .nil else children.markup label.kind)
      (rest.markup parent)

theorem written_markup (f : Forest) (parent : Kind) :
    (f.markup parent).written = f.html parent := by
  induction f generalizing parent with
  | nil => rfl
  | cons boxed label children rest ihchildren ih =>
    rw [markup, Html.Markup.written_child, ih, html]
    congr 3
    split
    · exact List.append_nil _
    · exact ihchildren _

theorem parts_markup (f : Forest) (parent : Kind) : (f.markup parent).parts =
    f.toList.map fun (_, child) =>
      .element (parent.itemName?.getD child.label.kind.elementName) := by
  induction f with
  | nil => rfl
  | cons boxed label children rest _ ih =>
    rw [markup, Html.Markup.parts_child, ih]
    rfl

/-- There is one element for each child that rendering comes to, and one for its box. -/
theorem elements_markup (f : Forest) (parent : Tree) :
    (f.markup parent.label.kind).elements = (f.reached parent).flatMap Child.elements := by
  induction f generalizing parent with
  | nil => rfl
  | cons boxed label children rest ihchildren ih =>
    rw [markup, Html.Markup.elements_child, ih, reached_cons, List.flatMap_cons,
      List.flatMap_append, Child.elements, List.append_assoc, List.singleton_append]
    congr 2
    · unfold Tree.element
      split
      · rfl
      · rw [parts_markup]
    · congr 1
      unfold Tree.reached
      split
      · rfl
      · exact ihchildren ⟨label, children⟩

end Forest

/-! ## Generating -/

theorem Html.render_of_root {t : Tree} (hroot : t.label.kind = .root)
    (h : ∀ c ∈ t.reached, c.boxed = true → c.parent.label.kind.boxes = true) :
    render t = (t.reached.find? Child.bare).elim
      (.ok (element "html" (t.children.html .root))) fun c => .error (.unboxed c.parent.label) := by
  have hreached : t.reached = t.children.reached t := by
    unfold Tree.reached
    rw [hroot]
    rfl
  rw [hreached] at h ⊢
  unfold render
  rw [if_pos hroot, forest_eq h, hroot]
  cases (t.children.reached t).find? Child.bare <;> rfl

/-- The markup of a document has its elements. -/
theorem Tree.exists_markup {t : Tree} (hroot : t.label.kind = .root) :
    ∃ m : Html.Markup, m.written = Html.element "html" (t.children.html .root) ∧
      m.elements = t.element :: t.reached.flatMap Child.elements := by
  refine ⟨.element "html" (t.children.markup .root) .nil, ?_, ?_⟩
  · rw [Html.Markup.written, Html.Markup.written, Forest.written_markup, List.append_nil]
  · have helements := t.children.elements_markup t
    rw [hroot] at helements
    rw [Html.Markup.elements, Html.Markup.elements, List.append_nil, helements,
      Forest.parts_markup, Tree.element, Tree.reached, hroot]
    rfl

theorem Compile.generate_of_fault {tree : Tree} {f : Html.RenderFault}
    (h : Html.render tree = .error f) (ctx : Context) (s : RunState) :
    generate ctx tree s = .error (f.failure ctx.path) s := by
  unfold generate
  rw [h]
  rfl

/-- The tree under a node of an arena is rendered as it is generated in a run. -/
theorem Arena.html_eq {a : Arena} {i : Nat} {tree : Tree} (h : a.tree? i = some tree)
    (ctx : Context) (s : RunState) : a.html ctx.path i =
      match Compile.generate ctx tree s with
      | .ok html _ => .ok html
      | .error e _ => .error e := by
  unfold Arena.html
  rw [h]
  cases hrender : Html.render tree with
  | ok html =>
    rw [Compile.generate_of_render hrender]
    simp only [hrender, Except.mapError]
  | error f =>
    rw [Compile.generate_of_fault hrender]
    simp only [hrender, Except.mapError]

/-- Where no root, contents or table that can be reached has a boxed child, a child is boxed just
where its parent asks for it. -/
theorem Tree.boxes_of_boxed {t : Tree}
    (h : ∀ node, t.Reaches node → node.label.kind ∈ [Kind.root, .contents, .table] →
      ∀ child ∈ node.children.toList, child.1 = false) :
    ∀ c ∈ t.reached, c.boxed = true → c.parent.label.kind.boxes = true := by
  intro c hc hboxed
  obtain ⟨hreaches, hleaf, hmem⟩ := Tree.mem_reached_iff.1 hc
  by_contra hboxes
  have hkind : c.parent.label.kind ∈ [Kind.root, .contents, .table] := by
    revert hleaf hboxes
    cases c.parent.label.kind <;> decide
  exact Bool.false_ne_true ((h _ hreaches hkind _ hmem).symm.trans hboxed)

/-- A bare child is among those that rendering comes to just if a list or a row that can be
reached has a child without a box. -/
theorem Tree.exists_bare_iff {t : Tree} : (∃ c ∈ t.reached, c.bare = true) ↔
    ∃ node, t.Reaches node ∧ node.label.kind ∈ [Kind.bulletList, .numberedList, .row] ∧
      ∃ child ∈ node.children.toList, child.1 = false := by
  have hkinds : ∀ kind : Kind,
      kind.boxes = true ↔ kind ∈ [Kind.bulletList, .numberedList, .row] := by
    intro kind
    cases kind <;> decide
  simp only [Child.bare, Bool.and_eq_true, Bool.not_eq_true', hkinds]
  constructor
  · rintro ⟨c, hc, hkind, hboxed⟩
    obtain ⟨hreaches, -, hmem⟩ := Tree.mem_reached_iff.1 hc
    exact ⟨_, hreaches, hkind, _, hmem, hboxed⟩
  · rintro ⟨node, hreaches, hkind, ⟨boxed, child⟩, hmem, hboxed⟩
    have hleaf : node.label.kind.isLeaf = false := by
      revert hkind
      cases node.label.kind <;> decide
    exact ⟨⟨node, boxed, child⟩, Tree.mem_reached_iff.2 ⟨hreaches, hleaf, hmem⟩, hkind, hboxed⟩

/-- Generating for a tree that does not begin at a root is refused. For one that does, in which no
root, contents or table that can be reached has a boxed child, it is refused just if a list or a
row that can be reached has a child without a box, with the kind and the line of the parent of the
first one in document order. Otherwise the HTML has one element for the root and one for each
child that rendering comes to, in this order, with one for its box around that of a boxed child,
and nothing but a leaf has a text. -/
theorem generate_unboxed (ctx : Context) (tree : Tree) (s : RunState) :
    (tree.label.kind = .root →
      (∀ node, tree.Reaches node → node.label.kind ∈ [Kind.root, .contents, .table] →
        ∀ child ∈ node.children.toList, child.1 = false) →
      ((∃ d : Diagnostic, d.area = .generation ∧
          Compile.generate ctx tree s = .error (.diagnostic d) s) ↔
        ∃ node, tree.Reaches node ∧ node.label.kind ∈ [Kind.bulletList, .numberedList, .row] ∧
          ∃ child ∈ node.children.toList, child.1 = false) ∧
      (∀ c, tree.reached.find? Child.bare = some c →
        Compile.generate ctx tree s = .error (.diagnostic ⟨.generation, ctx.path,
          some c.parent.label.line, .unboxedChild c.parent.label.kind⟩) s) ∧
      (tree.reached.find? Child.bare = none →
        ∃ (m : Html.Markup) (s' : RunState), Compile.generate ctx tree s = .ok m.written s' ∧
          m.elements = tree.element :: tree.reached.flatMap Child.elements ∧
          ∀ c ∈ tree.reached, c.boxed = c.parent.label.kind.boxes)) ∧
    (tree.label.kind ≠ .root → Compile.generate ctx tree s =
      .error (.diagnostic ⟨.generation, ctx.path, none, .notRoot⟩) s) ∧
    ∀ (a : Arena) (i : Nat), a.tree? i = some tree → a.html ctx.path i =
      match Compile.generate ctx tree s with
      | .ok html _ => .ok html
      | .error e _ => .error e := by
  refine ⟨fun hroot hitems => ?_, fun hroot => ?_, fun a i h => Arena.html_eq h ctx s⟩
  · have hboxed := Tree.boxes_of_boxed hitems
    have hrender := Html.render_of_root hroot hboxed
    rw [← Tree.exists_bare_iff]
    cases hfirst : tree.reached.find? Child.bare with
    | some c =>
      rw [hfirst] at hrender
      have hgenerate := Compile.generate_of_fault hrender ctx s
      refine ⟨⟨fun _ => ?_, fun _ => ⟨_, rfl, hgenerate⟩⟩, fun c' hc' => ?_, nofun⟩
      · exact ⟨c, List.mem_of_find?_eq_some hfirst, List.find?_some hfirst⟩
      · cases hc'
        exact hgenerate
    | none =>
      rw [hfirst] at hrender
      have hgenerate := Compile.generate_of_render hrender ctx s
      have hnone := List.find?_eq_none.1 hfirst
      obtain ⟨m, hwritten, helements⟩ := Tree.exists_markup hroot
      refine ⟨⟨?_, ?_⟩, nofun, fun _ => ⟨m, _, hwritten ▸ hgenerate, helements, fun c hc => ?_⟩⟩
      · rintro ⟨d, -, hd⟩
        cases hgenerate.symm.trans hd
      · rintro ⟨c, hc, hbare⟩
        exact absurd hbare (hnone c hc)
      · rw [Bool.eq_iff_iff]
        refine ⟨hboxed c hc, fun hboxes => ?_⟩
        have hbare := hnone c hc
        simpa [Child.bare, hboxes] using hbare
  · have hrender : Html.render tree = .error .notRoot := if_neg hroot
    exact Compile.generate_of_fault hrender ctx s

/-- One node of each kind, in boxes of a list and a row. -/
example : (Html.render ⟨{ kind := .root }, .cons false { kind := .contents }
    (.cons false { kind := .chapter, data := some ['a'] } .nil
      (.cons false { kind := .sectionTitle, data := some ['b'] } .nil
        (.cons false { kind := .subsectionTitle, data := some ['c'] } .nil
          (.cons false { kind := .bulletList }
            (.cons true { kind := .numberedList } .nil
              (.cons true { kind := .table }
                (.cons false { kind := .row }
                  (.cons true { kind := .paragraph, data := some ['d'] } .nil .nil) .nil) .nil))
            (.cons false { kind := .numberedList }
              (.cons true { kind := .paragraph } .nil .nil) .nil))))) .nil⟩).toOption =
    some ("<html><body><h1>a</h1><h2>b</h2><h3>c</h3><ul><li><ol></ol></li>".toList ++
      "<li><table><tr><td><p>d</p></td></tr></table></li></ul>".toList ++
      "<ol><li><p></p></li></ol></body></html>".toList) := by
  decide +kernel

/-- A list in which a chapter stands that has children, and a row. The child of the row is boxed or
not, and behind the row stands a child without a box, or a boxed one. -/
def Tree.nested (inner outer : Bool) : Tree :=
  ⟨{ kind := .root }, .cons false { kind := .contents, line := 1 }
    (.cons false { kind := .bulletList, line := 2 }
      (.cons true { kind := .chapter, data := some "a".toList, line := 3 }
        (.cons false { kind := .row, line := 3 } (.cons false { kind := .table } .nil .nil) .nil)
        (.cons true { kind := .row, line := 4 }
          (.cons inner { kind := .paragraph, data := some "<li>".toList, line := 5 } .nil .nil)
          (.cons outer { kind := .table, line := 6 } .nil .nil))) .nil) .nil⟩

/-- The child of the row comes first, then the one behind the row; the row below the chapter does
not matter. -/
theorem generate_unboxed_nested :
    ((Tree.nested false false).label.kind = .root ∧
      ∀ node, (Tree.nested false false).Reaches node →
        node.label.kind ∈ [Kind.root, .contents, .table] →
        ∀ child ∈ node.children.toList, child.1 = false) ∧
    Compile.generate {} (.nested false false) {} = .error (.diagnostic
      ⟨.generation, "<input>".toList, some 4, .unboxedChild .row⟩) {} ∧
    Compile.generate {} (.nested true false) {} = .error (.diagnostic
      ⟨.generation, "<input>".toList, some 2, .unboxedChild .bulletList⟩) {} ∧
    ∃ (m : Html.Markup) (s : RunState), Compile.generate {} (.nested true true) {} =
        .ok m.written s ∧
      m.elements = [("html", [.element "body"]), ("body", [.element "ul"]),
        ("ul", [.element "li", .element "li", .element "li"]),
        ("li", [.element "h1"]), ("h1", [.text ['a']]),
        ("li", [.element "tr"]), ("tr", [.element "td"]),
        ("td", [.element "p"]), ("p", [.text "<li>".toList]),
        ("li", [.element "table"]), ("table", [])] := by
  have hitems (inner outer : Bool) : ∀ node, (Tree.nested inner outer).Reaches node →
      node.label.kind ∈ [Kind.root, .contents, .table] →
      ∀ child ∈ node.children.toList, child.1 = false := by
    have hall : ((Tree.nested inner outer).reached.all fun c =>
        !(c.parent.label.kind ∈ [Kind.root, .contents, .table]) || !c.boxed) = true := by
      cases inner <;> cases outer <;> decide
    intro node hreaches hkind child hchild
    have hleaf : node.label.kind.isLeaf = false := by
      revert hkind
      cases node.label.kind <;> decide
    have hchecked := List.all_eq_true.1 hall ⟨node, child.1, child.2⟩
      (Tree.mem_reached_iff.2 ⟨hreaches, hleaf, hchild⟩)
    simpa [hkind] using hchecked
  have hnone := (generate_unboxed {} (.nested false false) {}).1 rfl (hitems false false)
  have hinner := (generate_unboxed {} (.nested true false) {}).1 rfl (hitems true false)
  have hboth := (generate_unboxed {} (.nested true true) {}).1 rfl (hitems true true)
  obtain ⟨m, s, hgenerate, helements, -⟩ := hboth.2.2 (by decide)
  exact ⟨⟨rfl, hitems false false⟩, hnone.2.1 _ rfl, hinner.2.1 _ rfl, m, s, hgenerate,
    helements.trans (by decide)⟩

end Bracemark
