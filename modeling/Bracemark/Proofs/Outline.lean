import Bracemark.Proofs.Grammar
import Bracemark.Proofs.Passes

/-!
# Outlines

An outline is a document before it is written: leaves with any texts whatever, in containers
that accept them. `Outline.source` writes it as markup, with a backslash before every
character of a leaf that means something in markup, and `Outline.html` is its HTML by recursion
on the outline.

Compiling the source of an outline gives that HTML (`compile_outline`): protection turns the
texts of the leaves into shielded ones, which no stage and no scanner takes for structure, the
markup derives as the tree of the outline (`Outline.derives`), and the texts are restored at
the end.
-/

namespace Bracemark

/-- The nodes in a container of a kind, each one accepted by its container. -/
inductive Outline : Kind → Type where
  | done {parent : Kind} : Outline parent
  | leaf {parent : Kind} (kind : Kind) (accepts : parent.accepts kind = true)
      (isLeaf : kind.isLeaf = true) (text : Text) (rest : Outline parent) : Outline parent
  | container {parent : Kind} (kind : Kind) (accepts : parent.accepts kind = true)
      (isLeaf : kind.isLeaf = false) (children : Outline kind) (rest : Outline parent) :
      Outline parent

/-! ## Sources and HTML -/

namespace Text

/-- The characters that mean something in markup. -/
def marked : Text := ['\x7b', '\x7d', '\\', '.', '@', ']']

/-- The text with a backslash before every character that means something in markup. -/
def escaped (t : Text) : Text := t.flatMap fun c => if c ∈ marked then ['\\', c] else [c]

end Text

namespace Kind

/-- A node of a kind in markup. -/
def block (kind : Kind) (inner : Text) : Text :=
  kind.word.toList ++ '\x7b' :: (inner ++ ['\x7d'])

/-- The element of a node of a kind. -/
def elementName : Kind → String
  | .root => "html"
  | .contents => "body"
  | .chapter => "h1"
  | .sectionTitle => "h2"
  | .subsectionTitle => "h3"
  | .paragraph => "p"
  | .bulletList => "ul"
  | .numberedList => "ol"
  | .table => "table"
  | .row => "tr"

/-- The element around each child of a node of a kind. -/
def itemName? : Kind → Option String
  | .bulletList | .numberedList => some "li"
  | .row => some "td"
  | _ => none

/-- A rendered child of a node of a kind. -/
def item (parent : Kind) (child : Text) : Text :=
  match parent.itemName? with
  | some name => Html.element name child
  | none => child

end Kind

namespace Outline

variable {parent : Kind}

/-- An outline as markup, with the texts of its leaves written by `f`. -/
def write (f : Text → Text) {parent : Kind} : Outline parent → Text
  | .done => []
  | .leaf kind _ _ text rest => kind.block (f text) ++ rest.write f
  | .container kind _ _ children rest => kind.block (children.write f) ++ rest.write f

/-- An outline as a document writes it. -/
def source (d : Outline parent) : Text := d.write Text.escaped

/-- The HTML of an outline, with the texts of its leaves given by `g`. -/
def html (g : Text → Text) {parent : Kind} : Outline parent → Text
  | .done => []
  | .leaf kind _ _ text rest =>
    parent.item (Html.element kind.elementName (g text)) ++ rest.html g
  | .container kind _ _ children rest =>
    parent.item (Html.element kind.elementName (children.html g)) ++ rest.html g

end Outline

/-! ## Protected sources -/

/-- A character can be escaped just if it means something in markup. -/
theorem Text.mem_marked_iff {c : Char} : c ∈ marked ↔ (Scheme.document.tag? c).isSome = true := by
  unfold Scheme.tag?
  rw [List.lookup_isSome_iff]
  simp [marked, Scheme.document]

theorem Text.escaped_eq (t : Text) : t.escaped = Scheme.document.escape t := by
  refine congrArg t.flatMap (funext fun c => ?_)
  simp only [mem_marked_iff]

namespace Kind

theorem mem_tagged_of_accepts {parent kind : Kind} (h : parent.accepts kind = true) :
    kind ∈ tagged := by
  revert h
  cases parent <;> cases kind <;> decide

theorem protects_block (kind : Kind) {u v : Text} (h : Scheme.Protects u v) :
    Scheme.Protects (kind.block u) (kind.block v) := by
  have hword : '\\' ∉ kind.word.toList := fun hm => Bool.false_ne_true (isWord_of_mem_word hm)
  have hopen : Scheme.Protects ['\x7b'] ['\x7b'] := .of_notMem (by decide)
  have hclose : Scheme.Protects ['\x7d'] ['\x7d'] := .of_notMem (by decide)
  exact (Scheme.Protects.of_notMem hword).append (hopen.append (h.append hclose))

theorem nested_block (kind : Kind) {u : Text} (h : u.Nested) : (kind.block u).Nested := by
  have hword : ∀ x ∈ kind.word.toList, isBrace x = false := fun x hx => by
    cases hb : isBrace x with
    | false => rfl
    | true => exact (isWord_of_mem_word hx).symm.trans (Lexer.isWord_of_isBrace hb)
  exact (Text.Nested.of_noBrace hword).append h.block

/-- A stage does to a node what it does to what stands in its braces. -/
theorem rewrites_block {ctx : Context} {f : Family} (kind : Kind) {u v : Text}
    (h : Rewrites ctx f (u ++ ['\x7d']) (v ++ ['\x7d'])) :
    Rewrites ctx f (kind.block u) (kind.block v) := by
  have hopen : '.' ∉ kind.word.toList ++ ['\x7b'] := by cases kind <;> decide
  have hblock := (Rewrites.kept hopen).append h
  simpa only [block, List.append_assoc, List.cons_append, List.nil_append] using hblock

theorem stop_notMem_block (kind : Kind) {u : Text} (h : '.' ∉ u) : '.' ∉ kind.block u := by
  intro hm
  simp only [block, List.mem_append, List.mem_cons, List.not_mem_nil, or_false] at hm
  rcases hm with hm | hm | hm | hm
  · cases isWord_of_mem_word hm
  · cases hm
  · exact h hm
  · cases hm

end Kind

namespace Outline

variable {parent : Kind}

/-- The markup that protection makes of a source. -/
def markup (d : Outline parent) : Text := d.write Scheme.document.shield

theorem protects_source (d : Outline parent) : Scheme.Protects d.source d.markup := by
  induction d with
  | done => exact .of_notMem List.not_mem_nil
  | leaf kind _ _ text rest ih =>
    have htext := Scheme.Protects.escape text
    rw [← Text.escaped_eq] at htext
    exact (kind.protects_block htext).append ih
  | container kind _ _ children rest ihchildren ih =>
    exact (kind.protects_block ihchildren).append ih

theorem nested_markup (d : Outline parent) : d.markup.Nested := by
  induction d with
  | done => rfl
  | leaf kind _ _ text rest ih =>
    exact (kind.nested_block (Scheme.inert_shield text).nested).append ih
  | container kind _ _ children rest ihchildren ih => exact (kind.nested_block ihchildren).append ih

/-- No directive is read into the markup of an outline. -/
theorem notMem_markup (d : Outline parent) : '.' ∉ d.markup := by
  induction d with
  | done => exact List.not_mem_nil
  | leaf kind _ _ text rest ih =>
    exact List.not_mem_append (kind.stop_notMem_block ((Scheme.inert_shield text).notMem rfl)) ih
  | container kind _ _ children rest ihchildren ih =>
    exact List.not_mem_append (kind.stop_notMem_block ihchildren) ih

end Outline

/-! ## The tree of an outline -/

namespace Kind

theorem lexemes_word {kind : Kind} (h : kind ∈ tagged) :
    Lexer.document.lexemes kind.word.toList = [(.tag kind, kind.word.toList)] := by
  revert h
  cases kind <;> decide

/-- The tokens of a node and of what stands behind it. -/
theorem tokensFrom_block {kind : Kind} (h : kind ∈ tagged) (start : Nat) (inner rest : Text) :
    Lexer.document.tokensFrom start (kind.block inner ++ rest) =
      ⟨.tag kind, start, kind.word.toList⟩ ::
      ⟨.blockStart, start + kind.word.toList.length, ['\x7b']⟩ ::
      (Lexer.document.tokensFrom (start + kind.word.toList.length + 1) inner ++
        ⟨.blockEnd, start + kind.word.toList.length + 1 + inner.length, ['\x7d']⟩ ::
        Lexer.document.tokensFrom (start + (kind.block inner).length) rest) := by
  have hlength : start + (kind.block inner).length =
      start + kind.word.toList.length + 1 + inner.length + 1 := by
    simp only [block, List.length_append, List.length_cons, List.length_nil]
    omega
  have hwritten : kind.block inner ++ rest =
      kind.word.toList ++ '\x7b' :: (inner ++ '\x7d' :: rest) := by
    simp only [block, List.append_assoc, List.cons_append, List.nil_append]
  have hl := Lexer.structural_document
  rw [hwritten, hlength, hl.tokensFrom_append rfl, hl.tokensFrom_opening,
    hl.tokensFrom_append rfl, hl.tokensFrom_closing, Lexer.tokensFrom, lexemes_word h]
  rfl

/-- The text between the braces of a block. -/
theorem slice_block (kind : Kind) (u inner v : Text) :
    Text.slice (u ++ (kind.block inner ++ v)) (u.length + kind.word.toList.length + 1)
      (u.length + kind.word.toList.length + 1 + inner.length) = inner := by
  have hstart : u.length + kind.word.toList.length + 1 =
      (u ++ kind.word.toList ++ ['\x7b']).length := by
    simp only [List.length_append, List.length_singleton]
  have hsplit : u ++ (kind.block inner ++ v) =
      u ++ kind.word.toList ++ ['\x7b'] ++ inner ++ '\x7d' :: v := by
    simp only [block, List.append_assoc, List.cons_append, List.nil_append]
  rw [hstart, hsplit]
  exact Text.slice_append _ _ _

end Kind

theorem Document.balanced_of_kinds {ts : List Token}
    (h : ∀ t ∈ ts, t.kind ≠ .blockStart ∧ t.kind ≠ .blockEnd) : Balanced ts := by
  induction ts with
  | nil => exact .nil
  | cons t ts ih =>
    obtain ⟨ht, hts⟩ := List.forall_mem_cons.1 h
    exact .token ht (ih hts)

theorem Document.balanced_of_noBrace {t : Text} (h : ∀ x ∈ t, isBrace x = false) (start : Nat) :
    Balanced (Lexer.document.tokensFrom start t) :=
  balanced_of_kinds fun _ => Lexer.kind_of_mem_tokensFrom
    (p := fun kind => kind ≠ .blockStart ∧ kind ≠ .blockEnd)
    fun _ => Lexer.structural_document.kind_ne_of_mem_lexemes h

namespace Outline

variable {parent : Kind}

/-- The children that the markup of an outline derives as if it begins at an offset of a text,
with the data of the leaves given by `g`. -/
def forest (g : Text → Text) (text : Text) {parent : Kind} : (start : Nat) → Outline parent → Forest
  | _, .done => .nil
  | start, .leaf kind _ _ t rest =>
    .cons parent.boxes { kind, data := some (g t), line := text.lineAt start } .nil
      (rest.forest g text (start + (kind.block (Scheme.document.shield t)).length))
  | start, .container kind _ _ children rest =>
    .cons parent.boxes { kind, line := text.lineAt start }
      (children.forest g text (start + kind.word.toList.length + 1))
      (rest.forest g text (start + (kind.block children.markup).length))

/-- The data of a leaf while it is still protected. -/
def data (collapse : Bool) (t : Text) : Text :=
  if collapse then (Scheme.document.shield t).collapse else Scheme.document.shield t

/-- The label of a leaf whose block stands in a text. -/
theorem leafLabel_block (collapse : Bool) (kind : Kind) (u t v : Text) :
    Document.leafLabel collapse (u ++ (kind.block (Scheme.document.shield t) ++ v)) kind
        ⟨.tag kind, u.length, kind.word.toList⟩
        ⟨.blockStart, u.length + kind.word.toList.length, ['\x7b']⟩
        ⟨.blockEnd, u.length + kind.word.toList.length + 1 + (Scheme.document.shield t).length,
          ['\x7d']⟩ =
      { kind
        data := some (data collapse t)
        line := Text.lineAt (u ++ (kind.block (Scheme.document.shield t) ++ v)) u.length } := by
  simp only [Document.leafLabel, Token.stop, List.length_singleton]
  rw [kind.slice_block]
  rfl

/-- The markup of an outline derives as its forest, wherever it stands. -/
theorem derives (collapse : Bool) (d : Outline parent) {text u v : Text}
    (htext : text = u ++ (d.markup ++ v)) :
    Document.Derives collapse text parent (Lexer.document.tokensFrom u.length d.markup)
      (d.forest (data collapse) text u.length) := by
  -- the part `u` grows by what has been read, so every node keeps its place in the text
  induction d generalizing u v with
  | done => exact .nil
  | leaf kind accepts isLeaf t rest ih =>
    have hwritten : text = u ++ (kind.block (Scheme.document.shield t) ++ (rest.markup ++ v)) := by
      rw [htext, markup, write, ← markup, List.append_assoc]
    have hbody := Document.balanced_of_noBrace (t := Scheme.document.shield t)
      (Scheme.inert_shield t).noBrace (u.length + kind.word.toList.length + 1)
    have hrest := ih (u := u ++ kind.block (Scheme.document.shield t)) (v := v) (by
      rw [hwritten, List.append_assoc])
    have hlabel := leafLabel_block collapse kind u t (rest.markup ++ v)
    rw [← hwritten] at hlabel
    rw [List.length_append] at hrest
    rw [markup, write, ← markup, Kind.tokensFrom_block (Kind.mem_tagged_of_accepts accepts),
      forest, ← hlabel]
    have hbrackets : Document.Brackets kind ⟨.tag kind, u.length, kind.word.toList⟩ []
        ⟨.blockStart, u.length + kind.word.toList.length, ['\x7b']⟩
        ⟨.blockEnd, u.length + kind.word.toList.length + 1 + (Scheme.document.shield t).length,
          ['\x7d']⟩ := ⟨rfl, nofun, rfl, rfl⟩
    exact .leaf accepts isLeaf hbrackets hbody hrest
  | container kind accepts isLeaf children rest ihchildren ih =>
    have hwritten : text = u ++ (kind.block children.markup ++ (rest.markup ++ v)) := by
      rw [htext, markup, write, ← markup, ← markup, List.append_assoc]
    have hrest := ih (u := u ++ kind.block children.markup) (v := v) (by
      rw [hwritten, List.append_assoc])
    have hchildren := ihchildren (u := u ++ kind.word.toList ++ ['\x7b'])
      (v := '\x7d' :: (rest.markup ++ v)) (by
        rw [hwritten, Kind.block]
        simp only [List.append_assoc, List.cons_append, List.nil_append])
    simp only [List.length_append, List.length_singleton] at hrest hchildren
    rw [markup, write, ← markup, ← markup,
      Kind.tokensFrom_block (Kind.mem_tagged_of_accepts accepts), forest]
    have hbrackets : Document.Brackets kind ⟨.tag kind, u.length, kind.word.toList⟩ []
        ⟨.blockStart, u.length + kind.word.toList.length, ['\x7b']⟩
        ⟨.blockEnd, u.length + kind.word.toList.length + 1 + children.markup.length,
          ['\x7d']⟩ := ⟨rfl, nofun, rfl, rfl⟩
    exact .container accepts isLeaf hbrackets hchildren hrest

end Outline

/-! ## Rendering -/

namespace Html

theorem shape_of_isLeaf {kind : Kind} (h : kind.isLeaf = true) :
    shape kind = .leaf kind.elementName := by
  revert h
  cases kind <;> decide

theorem shape_of_not_isLeaf {kind : Kind} (h : kind.isLeaf = false) :
    shape kind = .enclosing kind.elementName ∨
      ∃ inner, shape kind = .wrapping kind.elementName inner := by
  cases kind
  case contents | root | table => exact .inl rfl
  case bulletList | numberedList | row => exact .inr ⟨_, rfl⟩
  all_goals cases h

/-- A child that is boxed just if its container asks for it has its place there. -/
theorem place_boxes (parent : Label) (child : Text) :
    place parent parent.kind.boxes child = .ok (parent.kind.item child) := by
  obtain ⟨kind, data, line⟩ := parent
  cases kind <;> rfl

variable {parent : Label} {children rest : Forest} {others : Text}

/-- A leaf in front of what is rendered is its element with its data. -/
theorem forest_leaf (label : Label) (h : label.kind.isLeaf = true)
    (hrest : forest parent rest = .ok others) :
    forest parent (.cons parent.kind.boxes label children rest) =
      .ok (parent.kind.item (element label.kind.elementName (label.data.getD [])) ++ others) := by
  rw [forest]
  simp only [shape_of_isLeaf h, place_boxes, hrest, bind, Except.bind]
  rfl

/-- A container in front of what is rendered is its element with its children. -/
theorem forest_container (label : Label) {inner : Text} (h : label.kind.isLeaf = false)
    (hchildren : forest label children = .ok inner) (hrest : forest parent rest = .ok others) :
    forest parent (.cons parent.kind.boxes label children rest) =
      .ok (parent.kind.item (element label.kind.elementName inner) ++ others) := by
  rw [forest]
  rcases shape_of_not_isLeaf h with hshape | ⟨name, hshape⟩
  · simp only [hshape, place_boxes, hchildren, hrest, bind, Except.bind, Except.map]
    rfl
  · simp only [hshape, place_boxes, hchildren, hrest, bind, Except.bind, Except.map]
    rfl

end Html

namespace Outline

/-- The forest of an outline is rendered as its HTML. -/
theorem render_forest (g : Text → Text) (text : Text) (d : Outline parent) (start : Nat)
    {label : Label} (hlabel : label.kind = parent) :
    Html.forest label (d.forest g text start) = .ok (d.html g) := by
  induction d generalizing start label with
  | done => rfl
  | leaf kind accepts isLeaf t rest ih =>
    subst hlabel
    exact Html.forest_leaf { kind, data := some (g t), line := text.lineAt start } isLeaf (ih _ rfl)
  | container kind accepts isLeaf children rest ihchildren ih =>
    subst hlabel
    exact Html.forest_container { kind, line := text.lineAt start } isLeaf (ihchildren _ rfl)
      (ih _ rfl)

/-! ## Restoring the texts -/

theorem restores_element {name : String} (ho : '@' ∉ ("<" ++ name ++ ">").toList)
    (hc : '@' ∉ ("</" ++ name ++ ">").toList) {u v : Text} (h : Scheme.document.Restores u v) :
    Scheme.document.Restores (Html.element name u) (Html.element name v) :=
  ((Scheme.Restores.of_notMem ho).append h).append (.of_notMem hc)

theorem restores_node (kind : Kind) {u v : Text} (h : Scheme.document.Restores u v) :
    Scheme.document.Restores (Html.element kind.elementName u) (Html.element kind.elementName v) := by
  refine restores_element ?_ ?_ h
  · cases kind <;> decide
  · cases kind <;> decide

theorem restores_item (kind : Kind) {u v : Text} (h : Scheme.document.Restores u v) :
    Scheme.document.Restores (kind.item u) (kind.item v) := by
  cases kind
  case bulletList | numberedList | row => exact restores_element (by decide) (by decide) h
  all_goals exact h

/-- Taking the protection off the HTML of shielded texts gives that of the texts. -/
theorem restores_html (g : Text → Text) (d : Outline parent) :
    Scheme.document.Restores (d.html fun t => Scheme.document.shield (g t)) (d.html g) := by
  induction d with
  | done => exact .of_notMem List.not_mem_nil
  | leaf kind _ _ text rest ih =>
    exact (restores_item _ (restores_node kind (.shield (g text)))).append ih
  | container kind _ _ children rest ihchildren ih =>
    exact (restores_item _ (restores_node kind ihchildren)).append ih

theorem data_eq (collapse : Bool) :
    data collapse = fun t => Scheme.document.shield (if collapse then t.collapse else t) := by
  funext t
  unfold data
  cases collapse with
  | true => exact Scheme.collapse_shield t
  | false => rfl

/-! ## Compiling -/

/-- The tree of a document is that of its outline. -/
def tree (collapse : Bool) (d : Outline .root) : Tree :=
  ⟨{ kind := .root }, d.forest (data collapse) d.markup 0⟩

theorem parse_markup (collapse : Bool) (d : Outline .root) :
    (Document.parse collapse d.markup).1 = .ok (d.tree collapse) := by
  refine Document.parse_eq_ok_iff.2 ⟨rfl, ?_⟩
  exact d.derives collapse (u := []) (v := []) (by rw [List.append_nil]; rfl)

theorem render_tree (collapse : Bool) (d : Outline .root) :
    Html.render (d.tree collapse) = .ok (Html.element "html" (d.html (data collapse))) := by
  unfold Html.render
  rw [if_pos (show (d.tree collapse).label.kind = .root from rfl), tree,
    render_forest _ _ d 0 rfl]
  rfl

variable {ctx : Context} {s : RunState}

theorem source_yields (ctx : Context) (d : Outline parent) :
    (Preprocess.source ctx d.source).Yields d.markup := by
  intro s hs
  have hprotects := d.protects_source
  obtain ⟨s₁, hs₁, hsource⟩ := Preprocess.source_of_converge ctx hs hprotects.fault?_eq
    (by rw [hprotects.protect_eq]; exact d.nested_markup.braces_eq)
  rw [hprotects.protect_eq, Preprocess.converge_of_resolved
    (Text.hasDirective_of_notMem d.notMem_markup)] at hsource
  obtain ⟨s₂, hs₂, hresult⟩ := hsource _ s₁ rfl
  exact ⟨s₂, hresult, hs₁.trans hs₂⟩

theorem parse_yields (ctx : Context) (d : Outline .root) :
    (Compile.parse ctx d.markup).Yields (d.tree ctx.settings.collapse) := by
  intro s _
  obtain ⟨t, ht, hparse⟩ := Compile.parse_eq ctx d.markup s
  rw [parse_markup] at hparse
  exact ⟨_, hparse, ht.macros, ht.pending, ht.passes⟩

theorem render_yields (ctx : Context) (d : Outline .root) :
    (Compile.render ctx (d.tree ctx.settings.collapse)).Yields
      (Html.element "html" (d.html fun t => if ctx.settings.collapse then t.collapse else t)) := by
  have hgenerate : (Compile.generate ctx (d.tree ctx.settings.collapse)).Yields
      (Html.element "html" (d.html (data ctx.settings.collapse))) := by
    unfold Compile.generate
    rw [render_tree]
    exact (Run.Yields.note _).bind (.pure _)
  have hrestores := restores_node .root
    (d.restores_html fun t => if ctx.settings.collapse then t.collapse else t)
  have hdeprotect := Run.Yields.deprotect .document
    (Html.element "html" (d.html (data ctx.settings.collapse)))
  rw [data_eq] at hgenerate hdeprotect
  rw [show Kind.root.elementName = "html" from rfl] at hrestores
  rw [hrestores.deprotect_eq] at hdeprotect
  exact hgenerate.bind (hdeprotect.bind ((Run.Yields.note _).bind (.pure _)))

end Outline

/-- A source that is preprocessed to the markup of an outline is compiled to its HTML. -/
theorem Outline.compile_of_source {ctx : Context} {d : Outline .root} {t : Text} {s : RunState}
    (h : Preprocess.source ctx t { progress := #[.preprocessing] } = .ok d.markup s)
    (hs : s.pending = []) : (compile ctx t).result = .ok (Html.element "html"
      (d.html fun t => if ctx.settings.collapse then t.collapse else t)) := by
  have hsource : (do Run.note .preprocessing; Preprocess.source ctx t : Run Text) {} =
      .ok d.markup s := h
  obtain ⟨s₂, hparse, hs₂⟩ := (Run.Yields.note .parsing).bind
    (f := fun _ => Compile.parse ctx d.markup) (d.parse_yields ctx) s hs
  obtain ⟨s₃, hrender, -⟩ := (Run.Yields.note .generating).bind
    (f := fun _ => Compile.render ctx (d.tree ctx.settings.collapse)) (d.render_yields ctx) s₂
    (hs₂.pending.trans hs)
  unfold compile compileFrom EStateM.run
  simp only [hsource, hparse, hrender]

/-- Compiling the source of an outline gives its HTML. -/
theorem compile_outline (ctx : Context) (d : Outline .root) :
    (compile ctx d.source).result = .ok (Html.element "html"
      (d.html fun t => if ctx.settings.collapse then t.collapse else t)) := by
  obtain ⟨s, hsource, hs⟩ := d.source_yields ctx { progress := #[.preprocessing] } rfl
  exact Outline.compile_of_source hsource hs.pending

/-- One node of each kind; the text in the list looks like markup. -/
example :
    (compile {} ("main\x7bchapter\x7ba\x7dsection\x7bb\x7dsubsection\x7bc\x7d".toList ++
      "list\x7btext\x7brow\\\x7b\\.\x7d\x7dordered_list\x7btext\x7bd\x7d\x7d".toList ++
      "table\x7brow\x7btext\x7be\x7dtext\x7bf\x7d\x7d\x7d\x7d".toList)).result.toOption =
      some ("<html><body><h1>a</h1><h2>b</h2><h3>c</h3>".toList ++
        "<ul><li><p>row\x7b.</p></li></ul><ol><li><p>d</p></li></ol>".toList ++
        "<table><tr><td><p>e</p></td><td><p>f</p></td></tr></table></body></html>".toList) := by
  decide +kernel

end Bracemark
