import Bracemark.Proofs.Failures
import Bracemark.Proofs.Outline

/-!
# Reading HTML back

A tree that has been parsed is of a narrow shape (`Forest.Shaped`): every child is boxed just if
its container boxes its children, a leaf has a text and no children, and no root stands below
another node. The HTML of such a tree is plain text by recursion (`Forest.html`), and rendering
gives it.

If no leaf has a `<` in its text, the HTML says what the tree was, line numbers aside
(`generate_faithful`). Behind the children of a node stands a closing tag or nothing
(`Html.Closing`), and no rendered node begins so; behind the text of a leaf stands the first
`<`. So two forests whose HTML is the same, with such a rest behind each, are the same and have
the same rest (`Forest.unlined_eq_of_html`), by recursion on the first.
-/

namespace Bracemark

/-- The label without its line. -/
def Label.unlined (label : Label) : Label := { label with line := 0 }

namespace Forest

/-- The forest without the lines of its labels. -/
def unlined : Forest → Forest
  | .nil => .nil
  | .cons boxed label children rest => .cons boxed label.unlined children.unlined rest.unlined

/-- The texts of the leaves, in order. -/
def texts : Forest → List Text
  | .nil => []
  | .cons _ label children rest => label.data.toList ++ children.texts ++ rest.texts

/-- What the children of a container of a kind are like once they have been parsed. -/
def Shaped (parent : Kind) : Forest → Prop
  | .nil => True
  | .cons boxed label children rest =>
    boxed = parent.boxes ∧ label.kind ≠ .root ∧
      (if label.kind.isLeaf then label.data.isSome ∧ children = .nil
      else label.data = none ∧ children.Shaped label.kind) ∧
      rest.Shaped parent

/-- The HTML of the children of a container of a kind. -/
def html (parent : Kind) : Forest → Text
  | .nil => []
  | .cons _ label children rest =>
    parent.item (Html.element label.kind.elementName
      (if label.kind.isLeaf then label.data.getD [] else children.html label.kind)) ++
      rest.html parent

end Forest

namespace Tree

/-- The tree without the lines of its labels. -/
def unlined (t : Tree) : Tree := ⟨t.label.unlined, t.children.unlined⟩

/-- The texts of the leaves, in order. -/
def texts (t : Tree) : List Text := t.label.data.toList ++ t.children.texts

end Tree

/-! ## Parsed trees -/

namespace Forest

variable {parent : Kind} {children : Forest}

/-- A kind that a container accepts never stands at the top. -/
theorem ne_root_of_accepts {kind : Kind} (h : parent.accepts kind = true) : kind ≠ .root := by
  intro hroot
  subst hroot
  cases parent <;> cases h

theorem shaped_of_derives {collapse : Bool} {text : Text} {ts : List Token}
    (h : Document.Derives collapse text parent ts children) : children.Shaped parent := by
  induction h with
  | nil => trivial
  | noise _ _ ih => exact ih
  | leaf accepts isLeaf _ _ _ ih =>
    refine ⟨rfl, ne_root_of_accepts accepts, ?_, ih⟩
    rw [if_pos (show (Document.leafLabel ..).kind.isLeaf = true from isLeaf)]
    exact ⟨rfl, rfl⟩
  | container accepts isLeaf _ _ _ ihinner ih =>
    refine ⟨rfl, ne_root_of_accepts accepts, ?_, ih⟩
    rw [if_neg (Bool.eq_false_iff.1 isLeaf)]
    exact ⟨rfl, ihinner⟩

/-- Rendering gives the HTML of what is of this shape. -/
theorem Shaped.render_eq {label : Label} (h : children.Shaped label.kind) :
    Html.forest label children = .ok (children.html label.kind) := by
  induction children generalizing label with
  | nil => rfl
  | cons boxed child inner rest ihinner ih =>
    obtain ⟨rfl, -, hchild, hrest⟩ := h
    unfold html
    by_cases hleaf : child.kind.isLeaf = true
    · rw [if_pos hleaf]
      exact Html.forest_leaf child hleaf (ih hrest)
    · rw [if_neg hleaf] at hchild ⊢
      exact Html.forest_container child (Bool.eq_false_iff.2 hleaf) (ihinner hchild.2) (ih hrest)

end Forest

/-! ## Reading a node back -/

namespace Html

/-- What stands behind the children of a node: a closing tag, or nothing. -/
def Closing (t : Text) : Prop := t = [] ∨ ∃ rest, t = '<' :: '/' :: rest

theorem element_append (name : String) (inner rest : Text) :
    element name inner ++ rest =
      '<' :: (name.toList ++ '>' :: (inner ++ '<' :: '/' :: (name.toList ++ '>' :: rest))) := by
  simp only [element_eq, List.cons_append, List.append_assoc, List.nil_append]

end Html

/-- Two texts up to the first of some character are the same, and so is what stands behind. -/
theorem Text.eq_of_append_cons {c : Char} {u v x y : Text} (hu : c ∉ u) (hv : c ∉ v)
    (h : u ++ c :: x = v ++ c :: y) : u = v ∧ x = y := by
  induction u generalizing v with
  | nil =>
    cases v with
    | nil => exact ⟨rfl, (List.cons.inj h).2⟩
    | cons b v => exact absurd (List.mem_cons.2 (.inl (List.cons.inj h).1)) hv
  | cons a u ih =>
    cases v with
    | nil => exact absurd (List.mem_cons.2 (.inl (List.cons.inj h).1.symm)) hu
    | cons b v =>
      obtain ⟨rfl, htail⟩ := List.cons.inj h
      obtain ⟨rfl, rfl⟩ :=
        ih (mt (List.mem_cons_of_mem a) hu) (mt (List.mem_cons_of_mem a) hv) htail
      exact ⟨rfl, rfl⟩

theorem Html.closing_inj {name r r' : Text}
    (h : '<' :: '/' :: (name ++ '>' :: r) = '<' :: '/' :: (name ++ '>' :: r')) : r = r' := by
  simpa using h

/-- Texts without a `<`, each in front of the closing tag of one element. -/
theorem Html.eq_of_closing {name x y r r' : Text} (hx : '<' ∉ x) (hy : '<' ∉ y)
    (h : x ++ '<' :: '/' :: (name ++ '>' :: r) = y ++ '<' :: '/' :: (name ++ '>' :: r')) :
    x = y ∧ r = r' := by
  obtain ⟨hxy, hbehind⟩ := Text.eq_of_append_cons hx hy h
  exact ⟨hxy, closing_inj (congrArg ('<' :: ·) hbehind)⟩

namespace Kind

variable {kind other parent : Kind} {x y r r' : Text}

theorem elementName_inj (h : kind.elementName = other.elementName) : kind = other := by
  revert h
  cases kind <;> cases other <;> decide

theorem notMem_elementName (kind : Kind) : '>' ∉ kind.elementName.toList := by
  cases kind <;> decide

/-- An element says its kind; what the element holds stands behind its name. -/
theorem eq_of_element (h : Html.element kind.elementName x ++ r =
      Html.element other.elementName y ++ r') :
    kind = other ∧ x ++ '<' :: '/' :: (kind.elementName.toList ++ '>' :: r) =
      y ++ '<' :: '/' :: (other.elementName.toList ++ '>' :: r') := by
  rw [Html.element_append, Html.element_append] at h
  obtain ⟨hname, hrest⟩ := Text.eq_of_append_cons kind.notMem_elementName
    other.notMem_elementName (List.cons.inj h).2
  exact ⟨elementName_inj (String.toList_injective hname), hrest⟩

/-- What a parent puts around a child does not depend on the child. -/
theorem exists_item_eq (parent : Kind) :
    ∃ opening closing, ∀ x, parent.item x = opening ++ (x ++ closing) := by
  unfold item
  cases parent.itemName? with
  | none => exact ⟨[], [], fun x => (List.append_nil x).symm⟩
  | some name =>
    refine ⟨("<" ++ name ++ ">").toList, ("</" ++ name ++ ">").toList, fun x => ?_⟩
    exact List.append_assoc ..

/-- A rendered child is not taken for the end of its parent. -/
theorem not_closing_item : ¬Html.Closing (parent.item (Html.element kind.elementName x) ++ r) := by
  have hname : ∃ c rest, c ≠ '/' ∧ kind.elementName.toList = c :: rest := by
    cases kind <;> exact ⟨_, _, by decide, rfl⟩
  have hitem : ∀ name, parent.itemName? = some name →
      ∃ c rest, c ≠ '/' ∧ name.toList = c :: rest := by
    intro name h
    cases parent <;> cases h <;> exact ⟨_, _, by decide, rfl⟩
  -- either way an element with such a name stands in front
  have hfront : ∀ (name : String) (inner rest : Text),
      (∃ c more, c ≠ '/' ∧ name.toList = c :: more) →
      ¬Html.Closing (Html.element name inner ++ rest) := by
    rintro name inner rest ⟨c, more, hc, hname⟩ hclosing
    rw [Html.element_append, hname] at hclosing
    rcases hclosing with hclosing | ⟨others, hclosing⟩
    · cases hclosing
    · exact hc (List.cons.inj (List.cons.inj hclosing).2).1
  unfold item
  cases hparent : parent.itemName? with
  | none => exact hfront _ _ _ hname
  | some name => exact hfront _ _ _ (hitem name hparent)

end Kind

/-! ## Reading a forest back -/

namespace Forest

variable {parent : Kind} {boxed : Bool} {label : Label} {children rest f g : Forest}
  {r r' : Text}

theorem untagged_of_cons (h : ∀ x ∈ (cons boxed label children rest).texts, '<' ∉ x) :
    (∀ x ∈ label.data, '<' ∉ x) ∧ (∀ x ∈ children.texts, '<' ∉ x) ∧ ∀ x ∈ rest.texts, '<' ∉ x := by
  simp only [texts, List.mem_append] at h
  refine ⟨fun x hx => h x (.inl (.inl (Option.mem_toList.2 hx))), fun x hx => h x (.inl (.inr hx)),
    fun x hx => h x (.inr hx)⟩

/-- Forests of the same HTML, each in front of what closes its container, are the same. -/
theorem unlined_eq_of_html (hf : f.Shaped parent) (hg : g.Shaped parent)
    (hftexts : ∀ x ∈ f.texts, '<' ∉ x) (hgtexts : ∀ x ∈ g.texts, '<' ∉ x)
    (hr : Html.Closing r) (hr' : Html.Closing r')
    (h : f.html parent ++ r = g.html parent ++ r') : f.unlined = g.unlined ∧ r = r' := by
  induction f generalizing g parent r r' with
  | nil =>
    cases g with
    | nil => exact ⟨rfl, h⟩
    | cons boxed label children rest =>
      -- what closes the container would begin like a child
      simp only [html, List.nil_append, List.append_assoc] at h
      exact absurd (h ▸ hr) Kind.not_closing_item
  | cons boxed label children rest ihchildren ih =>
    cases g with
    | nil =>
      simp only [html, List.nil_append, List.append_assoc] at h
      exact absurd (h ▸ hr') Kind.not_closing_item
    | cons boxed' label' children' rest' =>
      obtain ⟨rfl, hroot, hnode, hrest⟩ := hf
      obtain ⟨rfl, hroot', hnode', hrest'⟩ := hg
      obtain ⟨hdata, hchildren, hothers⟩ := untagged_of_cons hftexts
      obtain ⟨hdata', hchildren', hothers'⟩ := untagged_of_cons hgtexts
      obtain ⟨kind, data, line⟩ := label
      obtain ⟨kind', data', line'⟩ := label'
      obtain ⟨opening, closing, hitem⟩ := parent.exists_item_eq
      simp only [html, hitem, List.append_assoc] at h
      obtain ⟨rfl, hinner⟩ := Kind.eq_of_element (List.append_cancel_left h)
      simp only at hnode hnode' hinner
      by_cases hleaf : kind.isLeaf = true
      · rw [if_pos hleaf] at hnode hnode'
        rw [if_pos hleaf, if_pos hleaf] at hinner
        obtain ⟨hsome, rfl⟩ := hnode
        obtain ⟨hsome', rfl⟩ := hnode'
        obtain ⟨x, rfl⟩ := Option.isSome_iff_exists.1 hsome
        obtain ⟨y, rfl⟩ := Option.isSome_iff_exists.1 hsome'
        simp only [Option.getD_some] at hinner
        obtain ⟨rfl, hbehind⟩ := Html.eq_of_closing (hdata x rfl) (hdata' y rfl) hinner
        obtain ⟨heq, hrr⟩ := ih hrest hrest' hothers hothers' hr hr'
          (List.append_cancel_left hbehind)
        exact ⟨by simp only [unlined, Label.unlined, heq], hrr⟩
      · rw [if_neg hleaf] at hnode hnode'
        rw [if_neg hleaf, if_neg hleaf] at hinner
        obtain ⟨rfl, hinside⟩ := hnode
        obtain ⟨rfl, hinside'⟩ := hnode'
        obtain ⟨hsame, hbehind⟩ := ihchildren hinside hinside' hchildren hchildren'
          (.inr ⟨_, rfl⟩) (.inr ⟨_, rfl⟩) hinner
        obtain ⟨heq, hrr⟩ := ih hrest hrest' hothers hothers' hr hr'
          (List.append_cancel_left (Html.closing_inj hbehind))
        exact ⟨by simp only [unlined, Label.unlined, hsame, heq], hrr⟩

end Forest

/-! ## Reading a document back -/

/-- A tree that has been parsed is the root over children of the shape, and its HTML is that
of the children. -/
theorem Tree.shaped_of_parse {collapse : Bool} {markup : Text} {tree : Tree}
    (h : (Document.parse collapse markup).1 = .ok tree) :
    tree.label = { kind := .root } ∧ tree.children.Shaped .root ∧
      Html.render tree = .ok (Html.element "html" (tree.children.html .root)) := by
  obtain ⟨hroot, hchildren⟩ := Document.parse_eq_ok_iff.1 h
  have hshaped := Forest.shaped_of_derives hchildren
  have hkind : tree.label.kind = .root := by rw [hroot]
  refine ⟨hroot, hshaped, ?_⟩
  unfold Html.render
  rw [if_pos hkind, Forest.Shaped.render_eq (hkind ▸ hshaped), hkind]
  rfl

/-- Trees that have been parsed are rendered, and where no leaf has a `<` in its text, trees of
the same HTML are the same, line numbers aside. -/
theorem generate_faithful {collapse collapse' : Bool} {markup markup' : Text} {tree tree' : Tree}
    (h : (Document.parse collapse markup).1 = .ok tree)
    (h' : (Document.parse collapse' markup').1 = .ok tree') :
    ∃ html html', (∀ ctx s, ∃ s', Compile.generate ctx tree s = .ok html s') ∧
      (∀ ctx s, ∃ s', Compile.generate ctx tree' s = .ok html' s') ∧
      ((∀ x ∈ tree.texts, '<' ∉ x) → (∀ x ∈ tree'.texts, '<' ∉ x) → html = html' →
        tree.unlined = tree'.unlined) := by
  obtain ⟨hroot, hshaped, hrender⟩ := Tree.shaped_of_parse h
  obtain ⟨hroot', hshaped', hrender'⟩ := Tree.shaped_of_parse h'
  have hgenerate : ∀ {tree : Tree} {html : Text}, Html.render tree = .ok html →
      ∀ ctx s, ∃ s', Compile.generate ctx tree s = .ok html s' := by
    intro tree html hrender ctx s
    unfold Compile.generate
    rw [hrender]
    exact ⟨_, rfl⟩
  refine ⟨_, _, hgenerate hrender, hgenerate hrender', fun htexts htexts' heq => ?_⟩
  have hchildren : tree.children.html .root ++ [] = tree'.children.html .root ++ [] := by
    rw [List.append_nil, List.append_nil]
    exact List.append_cancel_left (List.append_cancel_right heq)
  -- the root itself has no text, so the texts of a tree are those below it
  simp only [Tree.texts, hroot, Option.toList_none, List.nil_append] at htexts
  simp only [Tree.texts, hroot', Option.toList_none, List.nil_append] at htexts'
  obtain ⟨hunlined, -⟩ := Forest.unlined_eq_of_html hshaped hshaped' htexts htexts' (.inl rfl)
    (.inl rfl) hchildren
  simp only [Tree.unlined, hroot, hroot', hunlined]

/-- The document of one paragraph, which begins on a line. -/
def Tree.paragraph (text : Text) (line : Nat) : Tree :=
  ⟨{ kind := .root }, .cons false { kind := .contents, line := 1 }
    (.cons false { kind := .paragraph, data := some text, line } .nil .nil) .nil⟩

/-- A paragraph on the first line, and one on the second with its blanks kept. -/
theorem generate_faithful_paragraphs :
    (Document.parse true "main\x7btext\x7ba  b\x7d\x7d".toList).1 =
        .ok (Tree.paragraph "a b".toList 1) ∧
      (Document.parse false "main\x7b\ntext \x7ba b\x7d-\x7d".toList).1 =
        .ok (Tree.paragraph "a b".toList 2) ∧
      ∃ html html',
        (∀ ctx s, ∃ s', Compile.generate ctx (.paragraph "a b".toList 1) s = .ok html s') ∧
        (∀ ctx s, ∃ s', Compile.generate ctx (.paragraph "a b".toList 2) s = .ok html' s') ∧
        (html = html' → (Tree.paragraph "a b".toList 1).unlined =
          (Tree.paragraph "a b".toList 2).unlined) := by
  have hone : (Document.parse true "main\x7btext\x7ba  b\x7d\x7d".toList).1 =
      .ok (Tree.paragraph "a b".toList 1) := by decide +kernel
  have htwo : (Document.parse false "main\x7b\ntext \x7ba b\x7d-\x7d".toList).1 =
      .ok (Tree.paragraph "a b".toList 2) := by decide +kernel
  obtain ⟨html, html', hhtml, hhtml', hsame⟩ := generate_faithful hone htwo
  exact ⟨hone, htwo, html, html', hhtml, hhtml', hsame (by decide) (by decide)⟩

end Bracemark
