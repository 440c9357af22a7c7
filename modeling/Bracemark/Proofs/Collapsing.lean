import Bracemark.Proofs.Contexts
import Bracemark.Proofs.LeafTexts

/-!
# Collapsing early and late

The parser collapses the blanks of each leaf while its text is still protected. Nothing else reads
that setting, so a compilation with it goes the way of one without it, step by step, with other
texts in the leaves (`ParseState.step_collapse`, `ParseState.run_collapse`).

The tags around the texts hold no blanks, and no code goes on across a tag. So the HTML is what
collapsing the HTML of the other compilation gives, before the protection is taken off and, if
every code is known, also afterwards (`compile_withCollapse`).
-/

namespace Bracemark

/-! ## The texts of a tree -/

/-- The label with its text, if it is of a leaf, replaced. -/
def Label.mapText (g : Text → Text) (label : Label) : Label :=
  { label with data := label.data.map g }

/-- The forest with the text of every leaf replaced. -/
def Forest.mapTexts (g : Text → Text) : Forest → Forest
  | .nil => .nil
  | .cons boxed label children rest =>
    .cons boxed (label.mapText g) (children.mapTexts g) (rest.mapTexts g)

/-- The tree with the text of every leaf replaced. -/
def Tree.mapTexts (g : Text → Text) (t : Tree) : Tree :=
  ⟨t.label.mapText g, t.children.mapTexts g⟩

variable (g : Text → Text)

@[simp] theorem Label.mapText_kind (label : Label) : (label.mapText g).kind = label.kind := rfl

@[simp] theorem Label.mapText_data (label : Label) :
    (label.mapText g).data = label.data.map g := rfl

namespace Forest

theorem ofList_map (children : List (Bool × Tree)) :
    ofList (children.map fun child => (child.1, child.2.mapTexts g)) =
      (ofList children).mapTexts g := by
  induction children with
  | nil => rfl
  | cons child children ih =>
    rw [List.map_cons, ofList, ih]
    rfl

theorem length_toList_mapTexts (f : Forest) :
    (f.mapTexts g).toList.length = f.toList.length := by
  induction f with
  | nil => rfl
  | cons boxed label children rest _ ih => simp [mapTexts, toList, ih]

end Forest

/-! ## Parsing -/

namespace Document

/-- The container with the texts below it replaced. -/
def Container.mapTexts (c : Container) : Container where
  label := c.label.mapText g
  children := c.children.map fun child => (child.1, child.2.mapTexts g)

theorem Container.tree_mapTexts (c : Container) : (c.mapTexts g).tree = c.tree.mapTexts g := by
  have hchildren := Forest.ofList_map g c.children.reverse
  rw [List.map_reverse] at hchildren
  simp only [tree, Tree.mapTexts, ← hchildren]
  rfl

theorem Container.add_mapTexts (c : Container) (child : Tree) :
    (c.mapTexts g).add (child.mapTexts g) = (c.add child).mapTexts g := rfl

namespace ParseState

/-- The state with the texts of all that has been read replaced. -/
def mapTexts (s : ParseState) : ParseState where
  current := s.current.mapTexts g
  outer := s.outer.map (Container.mapTexts g)
  mode := s.mode
  closed := s.closed

theorem close_mapTexts (s : ParseState) :
    (s.mapTexts g).close = s.close.map (mapTexts g) := by
  obtain ⟨current, outer, mode, closed⟩ := s
  cases outer with
  | nil => rfl
  | cons parent others =>
    simp only [close, mapTexts, List.map_cons, Option.map_some, Container.tree_mapTexts,
      Container.add_mapTexts]
    simp [Container.mapTexts]

theorem stepBetween_mapTexts (s : ParseState) (t : Token) :
    (s.mapTexts g).stepBetween t = (s.stepBetween t).map (mapTexts g) := by
  unfold stepBetween
  cases t.kind with
  | tag kind =>
    by_cases haccepts : s.current.label.kind.accepts kind = true
    · simp [mapTexts, Container.mapTexts, haccepts, Except.map]
    · simp [mapTexts, Container.mapTexts, haccepts, Except.map, unexpected]
  | blockEnd =>
    rw [close_mapTexts]
    cases s.close <;> rfl
  | blank | blockStart | directive d | other => rfl
  | _ => rfl

theorem stepEntering_mapTexts (s : ParseState) (text : Text) (tag : Token) (kind : Kind)
    (t : Token) : (s.mapTexts g).stepEntering text tag kind t =
      (s.stepEntering text tag kind t).map (mapTexts g) := by
  unfold stepEntering
  cases t.kind with
  | blockStart =>
    by_cases hleaf : kind.isLeaf = true
    · simp [hleaf, mapTexts, Except.map]
    · simp [hleaf, mapTexts, Container.mapTexts, Label.mapText, Except.map]
  | _ => rfl

theorem stepInside_collapse (s : ParseState) (text : Text) (tag : Token) (kind : Kind)
    (opening : Token) (depth : Nat) (t : Token) :
    (s.mapTexts Text.collapse).stepInside true text tag kind opening depth t =
      (s.stepInside false text tag kind opening depth t).mapTexts Text.collapse := by
  unfold stepInside
  cases t.kind with
  | blockEnd => cases depth <;> rfl
  | _ => rfl

/-- A step does the same whether blanks are collapsed or not. -/
theorem step_collapse (s : ParseState) (text : Text) (t : Token) :
    (s.mapTexts Text.collapse).step true text t =
      (s.step false text t).map (mapTexts Text.collapse) := by
  obtain ⟨current, outer, mode, closed⟩ := s
  cases mode with
  | between => exact stepBetween_mapTexts Text.collapse _ t
  | entering tag kind => exact stepEntering_mapTexts Text.collapse _ text tag kind t
  | inside tag kind opening depth =>
    exact congrArg Except.ok (stepInside_collapse _ text tag kind opening depth t)

theorem finish_mapTexts (s : ParseState) (text : Text) :
    (s.mapTexts g).finish text = (s.finish text).map (Tree.mapTexts g) := by
  obtain ⟨current, outer, mode, closed⟩ := s
  cases mode with
  | between =>
    cases outer with
    | nil => exact congrArg Except.ok (Container.tree_mapTexts g current)
    | cons parent others => rfl
  | entering tag kind => rfl
  | inside tag kind opening depth => rfl

/-- The tokens are taken the same way whether blanks are collapsed or not. -/
theorem run_collapse (s : ParseState) (text : Text) (ts : List Token) :
    run true text (s.mapTexts Text.collapse) ts =
      ((run false text s ts).1.map (Tree.mapTexts Text.collapse), (run false text s ts).2) := by
  induction ts generalizing s with
  | nil =>
    rw [run, run, finish_mapTexts]
    rfl
  | cons t ts ih =>
    rw [run, run, step_collapse]
    cases s.step false text t with
    | error f => rfl
    | ok next => exact ih next

end ParseState

/-- Parsing with blanks collapsed gives the same tree with other texts, or the same fault. -/
theorem parse_collapse (text : Text) : parse true text =
    ((parse false text).1.map (Tree.mapTexts Text.collapse), (parse false text).2) :=
  ParseState.run_collapse {} text _

end Document

/-! ## Rendering -/

namespace Html

variable {name : String}

/-- Collapsing leaves tags alone. -/
theorem collapse_element (hname : ∀ c ∈ name.toList, isBlank c = false) (t rest : Text) :
    Text.collapse (element name t ++ rest) = element name t.collapse ++ rest.collapse := by
  rw [element_append, element_append, Text.collapse_cons rfl, Text.collapse_append hname,
    Text.collapse_cons rfl, Text.collapse_append_cons rfl, Text.collapse_cons rfl,
    Text.collapse_append hname, Text.collapse_cons rfl]

end Html

namespace Kind

/-- Collapsing goes into a child of a node, and past what stands around it. -/
theorem collapse_child (parent kind : Kind) (t rest : Text) :
    Text.collapse (parent.item (Html.element kind.elementName t) ++ rest) =
      parent.item (Html.element kind.elementName t.collapse) ++ rest.collapse := by
  have helement := Html.collapse_element kind.tidy_elementName.2 t
  unfold item
  cases hitem : parent.itemName? with
  | none => exact helement rest
  | some name =>
    have hinner := helement []
    rw [List.append_nil, show Text.collapse [] = [] from rfl, List.append_nil] at hinner
    rw [Html.collapse_element (tidy_itemName hitem).2, hinner]

end Kind

namespace Forest

variable {parent : Kind} {f : Forest}

/-- The HTML with the texts collapsed is the collapsed HTML. -/
theorem html_collapse (f : Forest) (parent : Kind) :
    (f.mapTexts Text.collapse).html parent = Text.collapse (f.html parent) := by
  induction f generalizing parent with
  | nil => rfl
  | cons boxed label children rest ihchildren ih =>
    have hdata : (label.data.map Text.collapse).getD [] = Text.collapse (label.data.getD []) := by
      cases label.data <;> rfl
    rw [mapTexts, html, html, Kind.collapse_child, ih, Label.mapText_kind]
    by_cases hleaf : label.kind.isLeaf = true
    · simp only [if_pos hleaf, Label.mapText_data, hdata]
    · simp only [if_neg hleaf, ihchildren]

/-- In what has been parsed, every text is that of a leaf. -/
theorem Shaped.leafTexts_eq (h : f.Shaped parent) : f.leafTexts = f.texts := by
  induction f generalizing parent with
  | nil => rfl
  | cons boxed label children rest ihchildren ih =>
    obtain ⟨-, -, hnode, hrest⟩ := h
    rw [leafTexts, texts, ih hrest]
    by_cases hleaf : label.kind.isLeaf = true
    · rw [if_pos hleaf] at hnode ⊢
      rw [hnode.2, texts, List.append_nil]
    · rw [if_neg hleaf] at hnode ⊢
      rw [ihchildren hnode.2, hnode.1, Option.toList_none, List.nil_append]

end Forest

/-- The text of a leaf stands in the markup, if blanks are not collapsed. -/
theorem Forest.infix_of_derives {markup : Text} {parent : Kind} {ts : List Token} {f : Forest}
    (h : Document.Derives false markup parent ts f) : ∀ t ∈ f.texts, t <:+: markup := by
  induction h with
  | nil => simp [Forest.texts]
  | noise _ _ ih => exact ih
  | @leaf parent kind tag opening closing gap body ts rest _ _ _ _ _ ih =>
    have hslice : markup.slice opening.stop closing.start <:+: markup :=
      (List.drop_suffix _ _).isInfix.trans (List.take_prefix _ _).isInfix
    simp only [Forest.texts, List.append_nil, List.forall_mem_append]
    refine ⟨?_, ih⟩
    intro t ht
    have ht : t = markup.slice opening.stop closing.start := by
      simpa [Document.leafLabel, Block.interior] using ht
    rw [ht]
    exact hslice
  | container _ _ _ _ _ ihinner ih =>
    simp only [Forest.texts, List.forall_mem_append]
    exact ⟨⟨by simp, ihinner⟩, ih⟩

theorem Tree.infix_of_parse {markup : Text} {tree : Tree}
    (h : (Document.parse false markup).1 = .ok tree) : ∀ t ∈ tree.texts, t <:+: markup := by
  obtain ⟨hroot, hchildren⟩ := Document.parse_eq_ok_iff.1 h
  rw [texts, hroot]
  exact Forest.infix_of_derives hchildren

/-! ## Compiling -/

namespace Compile

variable {ctx : Context}

/-- A run that collapses blanks parses the same, with other texts. -/
theorem parse_withCollapse (ctx : Context) (markup : Text) :
    parse (ctx.withCollapse true) markup =
      Tree.mapTexts Text.collapse <$> parse (ctx.withCollapse false) markup := by
  funext s
  cases hparse : Document.parse false markup with
  | mk result closed =>
    obtain ⟨t, ht, -⟩ := Run.notes_eq_ok closed (fun e => .parsedNode e.1 e.2) s
    have hcollapse : Document.parse true markup =
        (result.map (Tree.mapTexts Text.collapse), closed) := by
      rw [Document.parse_collapse, hparse]
    show _ = EStateM.map _ _ s
    cases result with
    | error f =>
      have hoff : parse (ctx.withCollapse false) markup s =
          .error (.diagnostic (f.diagnostic ctx.path markup)) t := by
        simp only [parse, Context.withCollapse, hparse]
        exact bind_of_ok ht
      rw [EStateM.map, hoff]
      simp only [parse, Context.withCollapse, hcollapse]
      exact bind_of_ok ht
    | ok tree =>
      have hoff : parse (ctx.withCollapse false) markup s = .ok tree { t with
          progress := t.progress.push (.parsedContents tree.children.toList.length) } := by
        simp only [parse, Context.withCollapse, hparse]
        exact bind_of_ok ht
      rw [EStateM.map, hoff, ← Forest.length_toList_mapTexts Text.collapse]
      simp only [parse, Context.withCollapse, hcollapse]
      exact bind_of_ok ht

/-- Trees whose HTML holds the same codes are rendered in the same way: what a run notes on the way
are the codes that are dropped. -/
theorem render_eq_ok (tags : List Tag) (s : RunState) :
    ∃ s', ∀ (ctx : Context) (tree : Tree) (html : Text), Html.render tree = .ok html →
      Scheme.document.unknownTags html = tags →
      render ctx tree s = .ok (Scheme.document.deprotect html) s' := by
  obtain ⟨t, ht, -⟩ := Run.notes_eq_ok tags .droppedCode
    { s with progress := s.progress.push .generated }
  refine ⟨{ t with progress := t.progress.push .postprocessed }, ?_⟩
  intro ctx tree html hrender htags
  have hgenerate := generate_of_render hrender ctx s
  have hdeprotect : Run.deprotect .document html
      { s with progress := s.progress.push .generated } =
      .ok (Scheme.document.deprotect html) t := by
    unfold Run.deprotect
    rw [htags]
    exact bind_of_ok ht
  exact (bind_of_ok hgenerate).trans (bind_of_ok hdeprotect)

end Compile

/-- What a compilation that collapses blanks has in common with one that does not. -/
structure Report.Collapses (off on : Report) : Prop where
  succeeds : (∃ html, on.result = .ok html) ↔ ∃ html, off.result = .ok html
  failure : ∀ e, on.result = .error e ↔ off.result = .error e
  state : on.state = off.state
  markup : on.markup? = off.markup?
  /-- The trees differ in the texts of their leaves only. -/
  tree : on.tree? = off.tree?.map (Tree.mapTexts Text.collapse)
  /-- If the markup holds known codes only, collapsing early is collapsing late. -/
  html : ∀ markup ∈ off.markup?, markup.Familiar → on.result = off.result.map Text.collapse

namespace Report

variable {off on : Report}

theorem collapses_of_error {e : Failure} {s : RunState} {markup? : Option Text} :
    Collapses ⟨.error e, markup?, none, s⟩ ⟨.error e, markup?, none, s⟩ where
  succeeds := Iff.rfl
  failure _ := Iff.rfl
  state := rfl
  markup := rfl
  tree := rfl
  html _ _ _ := rfl

end Report

/-- The two HTMLs of a markup that has been parsed with and without collapsing hold the same codes,
and one is the other collapsed. -/
theorem Tree.render_collapse {markup : Text} {tree : Tree}
    (h : (Document.parse false markup).1 = .ok tree) :
    ∃ html, Html.render tree = .ok html ∧
      Html.render (tree.mapTexts Text.collapse) = .ok (Text.collapse html) ∧
      Scheme.document.unknownTags html = tree.texts.flatMap Scheme.document.unknownTags := by
  have hcollapse : (Document.parse true markup).1 = .ok (tree.mapTexts Text.collapse) := by
    rw [Document.parse_collapse, h]
    rfl
  obtain ⟨hroot, hshaped, hrender⟩ := Tree.shaped_of_parse h
  obtain ⟨-, -, hrender'⟩ := Tree.shaped_of_parse hcollapse
  have hname := tidy_of_all (show ("html".toList.all _) = true by decide)
  refine ⟨_, hrender, ?_, ?_⟩
  · have hhtml := Html.collapse_element hname.2 (tree.children.html .root) []
    rw [List.append_nil, show Text.collapse [] = [] from rfl, List.append_nil] at hhtml
    rw [hrender', hhtml, ← Forest.html_collapse]
    rfl
  · rw [Scheme.unknownTags_eq_filter, Html.codes_of_render hrender, hshaped.leafTexts_eq,
      List.filter_flatMap, texts, hroot]
    exact List.flatMap_congr fun t _ => (Scheme.unknownTags_eq_filter _ t).symm

/-- Collapsing blanks commutes with compiling. -/
theorem compile_withCollapse (ctx : Context) (t : Text) :
    (compile (ctx.withCollapse false) t).Collapses (compile (ctx.withCollapse true) t) := by
  simp only [compile, compileFrom, Preprocess.source_withCollapse]
  cases hsource : (do Run.note .preprocessing; Preprocess.source ctx t : Run Text).run {} with
  | error e s => exact Report.collapses_of_error
  | ok markup s =>
    have hparsing (collapse : Bool) :
        (do Run.note .parsing; Compile.parse (ctx.withCollapse collapse) markup : Run Tree).run s =
          Compile.parse (ctx.withCollapse collapse) markup
            { s with progress := s.progress.push .parsing } := bind_of_ok rfl
    have hon := congrFun (Compile.parse_withCollapse ctx markup)
      { s with progress := s.progress.push .parsing }
    change _ = EStateM.map _ _ _ at hon
    simp only [hparsing, hon]
    cases hoff : Compile.parse (ctx.withCollapse false) markup
        { s with progress := s.progress.push .parsing } with
    | error e s' =>
      simp only [EStateM.map, hoff]
      exact Report.collapses_of_error
    | ok tree s' =>
      have hparse := Compile.parse_of_ok hoff
      obtain ⟨html, hrender, hrender', htags⟩ := Tree.render_collapse hparse
      obtain ⟨s₂, hrun⟩ := Compile.render_eq_ok (Scheme.document.unknownTags html)
        { s' with progress := s'.progress.push .generating }
      have hgenerating (collapse : Bool) (tree : Tree) : (do
          Run.note .generating
          Compile.render (ctx.withCollapse collapse) tree : Run Text).run s' =
        Compile.render (ctx.withCollapse collapse) tree
          { s' with progress := s'.progress.push .generating } := bind_of_ok rfl
      simp only [EStateM.map, hoff, hgenerating, hrun _ _ _ hrender rfl,
        hrun _ _ _ hrender' (Scheme.unknownTags_collapse _ html)]
      refine ⟨⟨fun _ => ⟨_, rfl⟩, fun _ => ⟨_, rfl⟩⟩, by simp, rfl, rfl, rfl, ?_⟩
      intro _ hmarkup hfamiliar
      cases hmarkup
      have hknown : Scheme.document.unknownTags html = [] := by
        rw [htags, List.flatMap_eq_nil_iff]
        intro t ht
        exact Text.unknownTags_eq_nil_iff.2 (hfamiliar.of_infix (Tree.infix_of_parse hparse t ht))
      exact congrArg Except.ok (Scheme.deprotect_collapse hknown)

/-- A full stop between blanks, protected while they are collapsed. -/
theorem compile_withCollapse_protected :
    (compile (Context.withCollapse {} false)
        "main\x7btext\x7b a \\. \n b\x7d\x7d".toList).markup? =
        some "main\x7btext\x7b a @#\x27:[;:P_] \n b\x7d\x7d".toList ∧
      (compile (Context.withCollapse {} true)
        "main\x7btext\x7b a \\. \n b\x7d\x7d".toList).result =
        .ok (Text.collapse "<html><body><p> a . \n b</p></body></html>".toList) := by
  have hmarkup : (compile (Context.withCollapse {} false)
      "main\x7btext\x7b a \\. \n b\x7d\x7d".toList).markup? =
        some "main\x7btext\x7b a @#\x27:[;:P_] \n b\x7d\x7d".toList := by decide +kernel
  have hfamiliar : Text.Familiar "main\x7btext\x7b a @#\x27:[;:P_] \n b\x7d\x7d".toList := by
    decide +kernel
  have hoff : (compile (Context.withCollapse {} false)
      "main\x7btext\x7b a \\. \n b\x7d\x7d".toList).result =
        .ok "<html><body><p> a . \n b</p></body></html>".toList := by decide +kernel
  have hcollapses := compile_withCollapse {} "main\x7btext\x7b a \\. \n b\x7d\x7d".toList
  refine ⟨hmarkup, ?_⟩
  rw [hcollapses.html _ hmarkup hfamiliar, hoff]
  rfl

/-- The blanks around a code that is not known are apart when they are collapsed, and meet when it
is dropped. -/
example : (compile {} "main\x7btext\x7b @#\x27:[;:ZZ] \x7d\x7d".toList).result.toOption =
    some "<html><body><p>  </p></body></html>".toList := by decide +kernel

end Bracemark
