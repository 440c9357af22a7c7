import Bracemark.Proofs.Codes
import Bracemark.Proofs.Rendering

/-!
# The texts of leaves in the HTML

The HTML of a tree is the texts of its leaves with tags between them. A code goes on across no tag,
since it holds no `<` behind its first character, and no tag begins one (`Html.Fence.ofText_eq`). So
the codes of the HTML are those of the texts, one text after the other (`Forest.codes_html`),
whatever the texts hold: codes, known or not, and parts of codes.

So it does not matter whether the protection is taken off the HTML or off the text of each leaf
(`generate_deprotect`). This holds for every tree that can be rendered, parsed or not.
-/

namespace Bracemark

/-! ## Trees and their leaves -/

/-- The label with its text replaced if it is of a leaf. -/
def Label.mapLeaf (g : Text → Text) (label : Label) : Label :=
  if label.kind.isLeaf then { label with data := label.data.map g } else label

@[simp] theorem Label.mapLeaf_kind (g : Text → Text) (label : Label) :
    (label.mapLeaf g).kind = label.kind := by
  unfold mapLeaf
  split <;> rfl

theorem Label.mapLeaf_data (g : Text → Text) {label : Label} (h : label.kind.isLeaf = true) :
    (label.mapLeaf g).data = label.data.map g := by
  unfold mapLeaf
  rw [if_pos h]

namespace Forest

/-- The forest with the text of each leaf replaced. -/
def mapLeaves (g : Text → Text) : Forest → Forest
  | .nil => .nil
  | .cons boxed label children rest =>
    .cons boxed (label.mapLeaf g) (children.mapLeaves g) (rest.mapLeaves g)

/-- The texts of the leaves, in order. Below a leaf nothing counts. -/
def leafTexts : Forest → List Text
  | .nil => []
  | .cons _ label children rest =>
    (if label.kind.isLeaf then label.data.toList else children.leafTexts) ++ rest.leafTexts

/-- Every child that is rendered is boxed just if its parent asks for it. -/
def Boxed (parent : Kind) : Forest → Prop
  | .nil => True
  | .cons boxed label children rest =>
    boxed = parent.boxes ∧ (label.kind.isLeaf = true ∨ children.Boxed label.kind) ∧
      rest.Boxed parent

end Forest

/-- The tree with the text of each leaf replaced. -/
def Tree.mapLeaves (g : Text → Text) (t : Tree) : Tree :=
  ⟨t.label.mapLeaf g, t.children.mapLeaves g⟩

/-! ## What can be rendered -/

/-- A computation that gives a value has given one at each step. -/
theorem exists_of_bind_eq_ok {ε α β : Type} {x : Except ε α} {f : α → Except ε β} {b : β}
    (h : x >>= f = .ok b) : ∃ a, x = .ok a ∧ f a = .ok b := by
  cases x with
  | error e => cases h
  | ok a => exact ⟨a, rfl, h⟩

namespace Html

theorem boxes_of_place {parent : Label} {boxed : Bool} {t u : Text}
    (h : place parent boxed t = .ok u) : boxed = parent.kind.boxes := by
  obtain ⟨kind, data, line⟩ := parent
  cases kind <;> cases boxed <;> first | rfl | cases h

/-- A leaf and a container differ only in what their elements hold. -/
theorem forest_cons (parent label : Label) (boxed : Bool) (children rest : Forest) :
    forest parent (.cons boxed label children rest) = place parent boxed [] >>= fun _ =>
      (if label.kind.isLeaf then .ok (label.data.getD []) else forest label children) >>=
        fun inner => place parent boxed (element label.kind.elementName inner) >>=
          fun child => forest parent rest >>= fun others => .ok (child ++ others) := by
  rw [forest]
  congr 1
  funext _
  cases hleaf : label.kind.isLeaf with
  | true =>
    rw [shape_of_isLeaf hleaf]
    rfl
  | false =>
    rcases shape_of_not_isLeaf hleaf with hshape | ⟨name, hshape⟩
    · rw [hshape]
      cases forest label children <;> rfl
    · rw [hshape]
      cases forest label children <;> rfl

/-- What is rendered is boxed as its parent asks for it, and its parts are rendered. -/
theorem parts_of_forest {parent label : Label} {boxed : Bool} {children rest : Forest}
    {html : Text} (h : forest parent (.cons boxed label children rest) = .ok html) :
    boxed = parent.kind.boxes ∧
      (label.kind.isLeaf = true ∨ ∃ inner, forest label children = .ok inner) ∧
      ∃ others, forest parent rest = .ok others := by
  rw [forest_cons] at h
  obtain ⟨_, hplace, h⟩ := exists_of_bind_eq_ok h
  obtain ⟨inner, hinner, h⟩ := exists_of_bind_eq_ok h
  obtain ⟨_, -, h⟩ := exists_of_bind_eq_ok h
  obtain ⟨others, hothers, -⟩ := exists_of_bind_eq_ok h
  refine ⟨boxes_of_place hplace, ?_, others, hothers⟩
  by_cases hleaf : label.kind.isLeaf = true
  · exact .inl hleaf
  · rw [if_neg hleaf] at hinner
    exact .inr ⟨inner, hinner⟩

/-- Children that are boxed where their parents ask for it are rendered. -/
theorem forest_of_boxed {parent : Label} {f : Forest} (h : f.Boxed parent.kind) :
    forest parent f = .ok (f.html parent.kind) := by
  induction f generalizing parent with
  | nil => rfl
  | cons boxed label children rest ihchildren ih =>
    obtain ⟨rfl, hchildren, hrest⟩ := h
    rw [Forest.html]
    by_cases hleaf : label.kind.isLeaf = true
    · rw [if_pos hleaf]
      exact forest_leaf label hleaf (ih hrest)
    · rw [if_neg hleaf]
      exact forest_container label (Bool.eq_false_iff.2 hleaf)
        (ihchildren (hchildren.resolve_left hleaf)) (ih hrest)

/-- Nothing else is rendered. -/
theorem boxed_of_forest {parent : Label} {f : Forest} {html : Text}
    (h : forest parent f = .ok html) : f.Boxed parent.kind := by
  induction f generalizing parent html with
  | nil => trivial
  | cons boxed label children rest ihchildren ih =>
    obtain ⟨hboxed, hchild, others, hothers⟩ := parts_of_forest h
    refine ⟨hboxed, hchild.imp_right ?_, ih hothers⟩
    rintro ⟨inner, hinner⟩
    exact ihchildren hinner

end Html

/-! ## Tags around a text -/

/-- Tags in front of a text and behind it: no code is in them, and none goes on into those
behind. -/
structure Html.Fence (o c : Text) : Prop where
  opening : '@' ∉ o
  closing : '@' ∉ c
  bracket : '<' ∈ c.head?

namespace Html.Fence

variable {o c o' c' : Text}

theorem element {name : String} (h : '@' ∉ name.toList) :
    Fence ("<" ++ name ++ ">").toList ("</" ++ name ++ ">").toList := by
  refine ⟨?_, ?_, ?_⟩ <;> simp [h]

theorem around (h : Fence o c) (h' : Fence o' c') : Fence (o ++ o') (c' ++ c) where
  opening := by simp [h.opening, h'.opening]
  closing := by simp [h.closing, h'.closing]
  bracket := by simp [Option.mem_def.1 h'.bracket]

/-- The chunks of a text between tags are its own, and so are those of what stands behind. -/
theorem ofText_eq (h : Fence o c) (t rest : Text) : Chunk.ofText (o ++ t ++ c ++ rest) =
    o.map .plain ++ (Chunk.ofText t ++ (c.map .plain ++ Chunk.ofText rest)) := by
  have hopening : Chunk.ofText (o ++ t) = o.map .plain ++ Chunk.ofText t :=
    Chunk.cuts_of_notMem h.opening t
  have hclosing : Chunk.ofText (c ++ rest) = c.map .plain ++ Chunk.ofText rest :=
    Chunk.cuts_of_notMem h.closing rest
  obtain ⟨c', rfl⟩ : ∃ c', c = '<' :: c' := by
    cases c with
    | nil => cases h.bracket
    | cons x c' => exact ⟨c', by rw [Option.some.inj h.bracket]⟩
  have hcut := Chunk.ofText_append_cons (b := '<') (by decide) (o ++ t) (c' ++ rest)
  rw [List.append_assoc _ _ rest, List.cons_append, hcut, ← List.cons_append, hclosing, hopening,
    List.append_assoc]

/-- No code is in tags or goes on across them. -/
theorem codes_eq (h : Fence o c) (t rest : Text) :
    (o ++ t ++ c ++ rest).codes = t.codes ++ rest.codes := by
  simp only [Text.codes, h.ofText_eq, List.filterMap_append, Chunk.filterMap_tag?_plain,
    List.nil_append]

/-- Taking the protection off leaves tags alone. -/
theorem deprotect_eq (h : Fence o c) (s : Scheme) (t rest : Text) :
    s.deprotect (o ++ t ++ c ++ rest) = o ++ s.deprotect t ++ c ++ s.deprotect rest := by
  have hplain (u : Text) : (u.map Chunk.plain).flatMap s.deprotectChunk = u := by
    rw [List.flatMap_map]
    exact List.flatMap_singleton' u
  unfold Scheme.deprotect
  rw [h.ofText_eq]
  simp only [List.flatMap_append, hplain, List.append_assoc]

end Html.Fence

/-- Whether a name can be written around a text: it has no blank and begins no code. -/
theorem tidy_of_all {name : String}
    (h : (name.toList.all fun c => !(c = '@' || isBlank c)) = true) :
    '@' ∉ name.toList ∧ ∀ c ∈ name.toList, isBlank c = false := by
  simp only [List.all_eq_true, Bool.not_eq_true', Bool.or_eq_false_iff,
    decide_eq_false_iff_not] at h
  exact ⟨fun hmem => (h '@' hmem).1 rfl, fun c hc => (h c hc).2⟩

namespace Kind

theorem tidy_elementName (kind : Kind) : '@' ∉ kind.elementName.toList ∧
    ∀ c ∈ kind.elementName.toList, isBlank c = false :=
  tidy_of_all (by cases kind <;> decide)

theorem tidy_itemName {parent : Kind} {name : String} (h : parent.itemName? = some name) :
    '@' ∉ name.toList ∧ ∀ c ∈ name.toList, isBlank c = false :=
  tidy_of_all (by cases parent <;> cases h <;> decide)

/-- The tags around a child of a node. -/
theorem exists_fence (parent kind : Kind) : ∃ opening closing, Html.Fence opening closing ∧
    ∀ t, parent.item (Html.element kind.elementName t) = opening ++ t ++ closing := by
  have helement := Html.Fence.element kind.tidy_elementName.1
  unfold item
  cases hitem : parent.itemName? with
  | none => exact ⟨_, _, helement, fun t => rfl⟩
  | some name =>
    refine ⟨_, _, (Html.Fence.element (tidy_itemName hitem).1).around helement, fun t => ?_⟩
    simp only [Html.element, List.append_assoc]

end Kind

/-! ## Codes in the HTML -/

namespace Forest

/-- The codes of the HTML are those of the texts of the leaves. -/
theorem codes_html (f : Forest) (parent : Kind) :
    (f.html parent).codes = f.leafTexts.flatMap Text.codes := by
  induction f generalizing parent with
  | nil => rfl
  | cons boxed label children rest ihchildren ih =>
    obtain ⟨opening, closing, hfence, hitem⟩ := parent.exists_fence label.kind
    rw [html, hitem, hfence.codes_eq, ih, leafTexts, List.flatMap_append]
    congr 1
    by_cases hleaf : label.kind.isLeaf = true
    · rw [if_pos hleaf, if_pos hleaf]
      cases label.data with
      | none => rfl
      | some t => simp
    · rw [if_neg hleaf, if_neg hleaf, ihchildren]

/-- Taking the protection off the HTML is taking it off the texts of the leaves. -/
theorem deprotect_html (s : Scheme) (f : Forest) (parent : Kind) :
    s.deprotect (f.html parent) = (f.mapLeaves s.deprotect).html parent := by
  induction f generalizing parent with
  | nil => rfl
  | cons boxed label children rest ihchildren ih =>
    obtain ⟨opening, closing, hfence, hitem⟩ := parent.exists_fence label.kind
    rw [mapLeaves, html, html, Label.mapLeaf_kind, hitem, hitem, hfence.deprotect_eq, ih]
    congr 3
    by_cases hleaf : label.kind.isLeaf = true
    · rw [if_pos hleaf, if_pos hleaf, Label.mapLeaf_data _ hleaf]
      cases label.data <;> rfl
    · rw [if_neg hleaf, if_neg hleaf, ihchildren]

/-- Other texts need no other boxes. -/
theorem Boxed.mapLeaves {f : Forest} {parent : Kind} (h : f.Boxed parent) (g : Text → Text) :
    (f.mapLeaves g).Boxed parent := by
  induction f generalizing parent with
  | nil => trivial
  | cons boxed label children rest ihchildren ih =>
    obtain ⟨hboxed, hchildren, hrest⟩ := h
    rw [Forest.mapLeaves, Boxed, Label.mapLeaf_kind]
    exact ⟨hboxed, hchildren.imp_right ihchildren, ih hrest⟩

end Forest

namespace Html

/-- What is rendered begins at a root, with children that are boxed where their parents ask for
it. -/
theorem render_eq_ok_iff {t : Tree} {html : Text} : render t = .ok html ↔
    t.label.kind = .root ∧ t.children.Boxed .root ∧
      html = element "html" (t.children.html .root) := by
  unfold render
  constructor
  · intro h
    by_cases hroot : t.label.kind = .root
    · rw [if_pos hroot] at h
      cases hforest : forest t.label t.children with
      | error fault =>
        rw [hforest] at h
        cases h
      | ok inner =>
        have hboxed := boxed_of_forest hforest
        rw [forest_of_boxed hboxed, hroot] at h
        exact ⟨hroot, hroot ▸ hboxed, (Except.ok.inj h).symm⟩
    · rw [if_neg hroot] at h
      cases h
  · rintro ⟨hroot, hboxed, rfl⟩
    rw [if_pos hroot, forest_of_boxed (hroot ▸ hboxed), hroot]
    rfl

/-- The tags around a whole document. -/
theorem fence_html : Fence ("<" ++ "html" ++ ">").toList ("</" ++ "html" ++ ">").toList :=
  .element (by decide)

/-- The codes of a document are those of the texts of its leaves. -/
theorem codes_of_render {t : Tree} {html : Text} (h : render t = .ok html) :
    html.codes = t.children.leafTexts.flatMap Text.codes := by
  obtain ⟨-, -, rfl⟩ := render_eq_ok_iff.1 h
  have hcodes := fence_html.codes_eq (t.children.html .root) []
  rw [List.append_nil, show Text.codes [] = [] from rfl, List.append_nil,
    Forest.codes_html] at hcodes
  exact hcodes

/-- A document whose leaves have other texts is rendered all the same, and taking the protection
off its HTML is taking it off the texts. -/
theorem render_mapLeaves {t : Tree} {html : Text} (s : Scheme) (h : render t = .ok html) :
    render (t.mapLeaves s.deprotect) = .ok (s.deprotect html) := by
  obtain ⟨hroot, hboxed, rfl⟩ := render_eq_ok_iff.1 h
  have hhtml := fence_html.deprotect_eq s (t.children.html .root) []
  rw [List.append_nil, show s.deprotect [] = [] from rfl, List.append_nil,
    Forest.deprotect_html] at hhtml
  exact render_eq_ok_iff.2 ⟨(Label.mapLeaf_kind ..).trans hroot, hboxed.mapLeaves _, hhtml⟩

end Html

/-! ## Generating -/

namespace Compile

theorem render_of_generate {ctx : Context} {tree : Tree} {html : Text} {s s' : RunState}
    (h : generate ctx tree s = .ok html s') :
    Html.render tree = .ok html ∧ s' = { s with progress := s.progress.push .generated } := by
  unfold generate at h
  cases hrender : Html.render tree with
  | error f =>
    rw [hrender] at h
    cases h
  | ok t =>
    rw [hrender] at h
    cases h
    exact ⟨rfl, rfl⟩

theorem generate_of_render {tree : Tree} {html : Text} (h : Html.render tree = .ok html)
    (ctx : Context) (s : RunState) : generate ctx tree s =
      .ok html { s with progress := s.progress.push .generated } := by
  unfold generate
  rw [h]
  rfl

end Compile

/-- If HTML is generated for a tree, taking the protection off each leaf gives the HTML with the
protection taken off, which is what postprocessing gives. The codes that are found there are those
of the leaves, one leaf after the other. -/
theorem generate_deprotect {ctx : Context} {tree : Tree} {s s₁ : RunState} {html : Text}
    (h : Compile.generate ctx tree s = .ok html s₁) :
    Compile.generate ctx (tree.mapLeaves Scheme.document.deprotect) s =
        .ok (Scheme.document.deprotect html) s₁ ∧
      html.codes = tree.children.leafTexts.flatMap Text.codes ∧
      ∃ s₂, Compile.render ctx tree s = .ok (Scheme.document.deprotect html) s₂ := by
  obtain ⟨hrender, rfl⟩ := Compile.render_of_generate h
  obtain ⟨s₂, hdeprotect, -⟩ := Run.deprotect_eq_ok .document html
    { s with progress := s.progress.push .generated }
  exact ⟨Compile.generate_of_render (Html.render_mapLeaves _ hrender) ctx s,
    Html.codes_of_render hrender, _, (bind_of_ok h).trans (bind_of_ok hdeprotect)⟩

/-- A code in two halves, in the texts of two leaves; and an unknown code in a leaf, below which
there is another that is not rendered. -/
def Tree.halves : Tree :=
  ⟨{ kind := .root }, .cons false { kind := .contents, data := some "@#\x27:[;:LB]".toList }
    (.cons false { kind := .chapter, data := some "@#\x27:[;:L".toList } .nil
      (.cons false { kind := .paragraph, data := some "B]@#\x27:[;:RB]".toList } .nil
        (.cons false { kind := .paragraph, data := some "@#\x27:[;:ZZ]a".toList }
          (.cons true { kind := .paragraph, data := some "@#\x27:[;:LB]".toList } .nil .nil)
          .nil))) .nil⟩

/-- The halves stay as they are, and of the codes only those in rendered leaves count. -/
theorem generate_deprotect_halves :
    ∃ html s₁ s₂, Compile.generate {} Tree.halves {} = .ok html s₁ ∧
      Compile.generate {} (Tree.halves.mapLeaves Scheme.document.deprotect) {} = .ok
        "<html><body><h1>@#\x27:[;:L</h1><p>B]\x7d</p><p>a</p></body></html>".toList s₁ ∧
      html.codes = [⟨'R', 'B'⟩, ⟨'Z', 'Z'⟩] ∧
      Compile.render {} Tree.halves {} = .ok
        "<html><body><h1>@#\x27:[;:L</h1><p>B]\x7d</p><p>a</p></body></html>".toList s₂ := by
  have h := Compile.generate_of_render (show Html.render Tree.halves = .ok
    ("<html><body><h1>@#\x27:[;:L</h1><p>B]@#\x27:[;:RB]</p>" ++
      "<p>@#\x27:[;:ZZ]a</p></body></html>").toList by decide +kernel) {} {}
  have hhtml : Scheme.document.deprotect
      ("<html><body><h1>@#\x27:[;:L</h1><p>B]@#\x27:[;:RB]</p>" ++
        "<p>@#\x27:[;:ZZ]a</p></body></html>").toList =
      "<html><body><h1>@#\x27:[;:L</h1><p>B]\x7d</p><p>a</p></body></html>".toList := by
    decide +kernel
  obtain ⟨hdeprotect, hcodes, s₂, hrender⟩ := generate_deprotect h
  rw [hhtml] at hdeprotect hrender
  exact ⟨_, _, s₂, h, hdeprotect, hcodes.trans (by decide +kernel), hrender⟩

end Bracemark
