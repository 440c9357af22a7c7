import Bracemark.Compile
import Bracemark.Proofs.Runs

/-!
# The grammar of markup

`Derives` says which tokens derive as the children of a container, and `Derivation` which
tree a markup derives as. The parser accepts just the markup that derives as a tree, and it
returns that tree (`Document.parse_eq_ok_iff`); a run that parses any other markup ends with
a diagnostic of the parser (`parse_derivation`).

From a derivation follows what the machine does: it comes through the tokens of a container
with the derived children added (`Derives.run_eq`). The other way round, what a state of the
machine still asks of the tokens is written down as `ParseState.Accepts`, and every run that
gives a tree fulfils it (`ParseState.accepts_of_run`).
-/

namespace Bracemark

namespace Document

/-! ## The grammar -/

/-- Tokens whose braces match in order. -/
inductive Balanced : List Token → Prop where
  | nil : Balanced []
  | token {t : Token} {ts : List Token} (kind : t.kind ≠ .blockStart ∧ t.kind ≠ .blockEnd)
      (rest : Balanced ts) : Balanced (t :: ts)
  | block {opening closing : Token} {inner ts : List Token} (opens : opening.kind = .blockStart)
      (body : Balanced inner) (closes : closing.kind = .blockEnd) (rest : Balanced ts) :
      Balanced (opening :: (inner ++ closing :: ts))

/-- A tag and the braces of its block. Only blanks stand between the tag and its block. -/
structure Brackets (kind : Kind) (tag : Token) (gap : List Token) (opening closing : Token) :
    Prop where
  tag : tag.kind = .tag kind
  gap : ∀ t ∈ gap, t.kind = .blank
  opens : opening.kind = .blockStart
  closes : closing.kind = .blockEnd

/-- The label of a leaf: its data is the text between its braces. -/
def leafLabel (collapse : Bool) (text : Text) (kind : Kind) (tag opening closing : Token) : Label :=
  let data := text.slice opening.stop closing.start
  { kind, data := some (if collapse then data.collapse else data), line := text.lineAt tag.start }

/-- The tokens between the braces of a container of a kind, and the children they derive as.
Between the children there is noise, which is blank or has no meaning. -/
inductive Derives (collapse : Bool) (text : Text) : Kind → List Token → Forest → Prop where
  | nil {parent : Kind} : Derives collapse text parent [] .nil
  | noise {parent : Kind} {t : Token} {ts : List Token} {children : Forest}
      (kind : t.kind = .blank ∨ t.kind = .other)
      (rest : Derives collapse text parent ts children) :
      Derives collapse text parent (t :: ts) children
  | leaf {parent kind : Kind} {tag opening closing : Token} {gap body ts : List Token}
      {children : Forest} (accepts : parent.accepts kind = true) (isLeaf : kind.isLeaf = true)
      (brackets : Brackets kind tag gap opening closing) (balanced : Balanced body)
      (rest : Derives collapse text parent ts children) :
      Derives collapse text parent (tag :: (gap ++ opening :: (body ++ closing :: ts)))
        (.cons parent.boxes (leafLabel collapse text kind tag opening closing) .nil children)
  | container {parent kind : Kind} {tag opening closing : Token} {gap body ts : List Token}
      {inner children : Forest} (accepts : parent.accepts kind = true)
      (isLeaf : kind.isLeaf = false) (brackets : Brackets kind tag gap opening closing)
      (inside : Derives collapse text kind body inner)
      (rest : Derives collapse text parent ts children) :
      Derives collapse text parent (tag :: (gap ++ opening :: (body ++ closing :: ts)))
        (.cons parent.boxes { kind, line := text.lineAt tag.start } inner children)

/-- A markup derives as a tree: its tokens derive as the children of a root. -/
structure Derivation (collapse : Bool) (markup : Text) (tree : Tree) : Prop where
  root : tree.label = { kind := .root }
  children : Derives collapse markup .root (Lexer.document.tokens markup) tree.children

end Document

/-! ## From a derivation to a run -/

theorem Forest.ofList_toList (f : Forest) : ofList f.toList = f := by
  induction f with
  | nil => rfl
  | cons boxed label children rest _ ih => rw [toList, ofList, ih]

namespace Document

namespace ParseState

variable {collapse : Bool} {text : Text} {c : Container} {outer : List Container}
  {closed : List (Kind × Nat)} {kind : Kind} {tag opening : Token}

theorem run_of_step {s : ParseState} {t : Token} (next : ParseState)
    (h : s.step collapse text t = .ok next) (ts : List Token) :
    run collapse text s (t :: ts) = run collapse text next ts := by
  rw [run, h]

/-- Blanks between a tag and its block change nothing. -/
theorem run_gap {gap : List Token} (h : ∀ t ∈ gap, t.kind = .blank) (ts : List Token) :
    run collapse text ⟨c, outer, .entering tag kind, closed⟩ (gap ++ ts) =
      run collapse text ⟨c, outer, .entering tag kind, closed⟩ ts := by
  induction gap with
  | nil => rfl
  | cons t gap ih =>
    obtain ⟨ht, hgap⟩ := List.forall_mem_cons.1 h
    rw [List.cons_append, run_of_step, ih hgap]
    simp only [step, stepEntering, ht]

theorem stepInside_of_ne {s : ParseState} {t : Token}
    (h : t.kind ≠ .blockStart ∧ t.kind ≠ .blockEnd) (depth : Nat) :
    s.stepInside collapse text tag kind opening depth t = s := by
  unfold stepInside
  split
  · exact absurd ‹_› h.1
  · exact absurd ‹_› h.2
  · exact absurd ‹_› h.2
  · rfl

/-- Balanced tokens inside a leaf change nothing. -/
theorem run_balanced {body : List Token} (h : Balanced body) (depth : Nat) (ts : List Token) :
    run collapse text ⟨c, outer, .inside tag kind opening depth, closed⟩ (body ++ ts) =
      run collapse text ⟨c, outer, .inside tag kind opening depth, closed⟩ ts := by
  induction h generalizing depth ts with
  | nil => rfl
  | token hkind _ ih =>
    rw [List.cons_append, run_of_step, ih]
    simp only [step, stepInside_of_ne hkind]
  | block hopen _ hclose _ ihbody ihrest =>
    rw [List.cons_append, List.append_assoc, List.cons_append,
      run_of_step ⟨c, outer, .inside tag kind opening (depth + 1), closed⟩, ihbody,
      run_of_step ⟨c, outer, .inside tag kind opening depth, closed⟩, ihrest]
    · simp only [step, stepInside, hclose]
    · simp only [step, stepInside, hopen]

/-- A tag that the current container accepts is read up to the opening brace of its block. -/
theorem run_entering {closing : Token} {gap : List Token}
    (haccepts : c.label.kind.accepts kind = true) (h : Brackets kind tag gap opening closing)
    (ts : List Token) :
    run collapse text ⟨c, outer, .between, closed⟩ (tag :: (gap ++ ts)) =
      run collapse text ⟨c, outer, .entering tag kind, closed⟩ ts := by
  rw [run_of_step ⟨c, outer, .entering tag kind, closed⟩, run_gap h.gap]
  simp only [step, stepBetween, h.tag, haccepts, if_true]

/-- A leaf is added to the current container. -/
theorem run_leaf {closing : Token} {gap body : List Token}
    (haccepts : c.label.kind.accepts kind = true) (hleaf : kind.isLeaf = true)
    (h : Brackets kind tag gap opening closing) (hbody : Balanced body) (ts : List Token) :
    run collapse text ⟨c, outer, .between, closed⟩
        (tag :: (gap ++ opening :: (body ++ closing :: ts))) =
      run collapse text ⟨c.add ⟨leafLabel collapse text kind tag opening closing, .nil⟩, outer,
        .between, closed⟩ ts := by
  rw [run_entering haccepts h,
    run_of_step ⟨c, outer, .inside tag kind opening 0, closed⟩, run_balanced hbody,
    run_of_step]
  · simp only [step, stepInside, h.closes]
    rfl
  · simp only [step, stepEntering, h.opens, hleaf, if_true]

/-- The block of a container is entered, with no children so far. -/
theorem run_opening (hleaf : kind.isLeaf = false) (hopens : opening.kind = .blockStart)
    (ts : List Token) :
    run collapse text ⟨c, outer, .entering tag kind, closed⟩ (opening :: ts) =
      run collapse text ⟨⟨{ kind, line := text.lineAt tag.start }, []⟩, c :: outer, .between,
        closed⟩ ts := by
  rw [run_of_step]
  simp only [step, stepEntering, hopens, hleaf]
  rfl

/-- A container that ends is added to the one around it. -/
theorem run_closing {closing : Token} (hcloses : closing.kind = .blockEnd) (parent : Container)
    (ts : List Token) :
    run collapse text ⟨c, parent :: outer, .between, closed⟩ (closing :: ts) =
      run collapse text ⟨parent.add c.tree, outer, .between,
        (c.label.kind, c.children.length) :: closed⟩ ts := by
  rw [run_of_step]
  simp only [step, stepBetween, hcloses, close]

end ParseState

/-- The machine comes through the tokens of a container with the derived children added. -/
theorem Derives.run_eq {collapse : Bool} {text : Text} {parent : Kind} {ts : List Token}
    {children : Forest} (h : Derives collapse text parent ts children) :
    ∃ ended, ∀ (label : Label) (earlier : List (Bool × Tree)) (outer : List Container)
      (closed : List (Kind × Nat)) (more : List Token), label.kind = parent →
      ParseState.run collapse text ⟨⟨label, earlier⟩, outer, .between, closed⟩ (ts ++ more) =
        ParseState.run collapse text
          ⟨⟨label, children.toList.reverse ++ earlier⟩, outer, .between, ended ++ closed⟩ more := by
  -- by induction on the derivation: what ends on the way is the same for every state
  induction h with
  | nil => exact ⟨[], fun _ _ _ _ _ _ => rfl⟩
  | noise hkind _ ih =>
    obtain ⟨ended, ih⟩ := ih
    refine ⟨ended, fun label earlier outer closed more hlabel => ?_⟩
    rw [List.cons_append, ParseState.run_of_step, ih _ _ _ _ _ hlabel]
    rcases hkind with hkind | hkind
    · simp only [ParseState.step, ParseState.stepBetween, hkind]
    · simp only [ParseState.step, ParseState.stepBetween, hkind]
  | leaf haccepts hleaf hbrackets hbody _ ih =>
    obtain ⟨ended, ih⟩ := ih
    refine ⟨ended, fun label earlier outer closed more hlabel => ?_⟩
    subst hlabel
    simp only [List.cons_append, List.append_assoc]
    rw [ParseState.run_leaf haccepts hleaf hbrackets hbody, Container.add, ih _ _ _ _ _ rfl]
    simp only [Forest.toList, List.reverse_cons, List.append_assoc, List.singleton_append]
  | @container parent kind tag opening closing gap body ts inner children haccepts hleaf hbrackets
      _ _ ihbody ih =>
    obtain ⟨inside, ihbody⟩ := ihbody
    obtain ⟨ended, ih⟩ := ih
    refine ⟨ended ++ (kind, inner.toList.reverse.length) :: inside,
      fun label earlier outer closed more hlabel => ?_⟩
    subst hlabel
    simp only [List.cons_append, List.append_assoc]
    rw [ParseState.run_entering haccepts hbrackets, ParseState.run_opening hleaf hbrackets.opens,
      ihbody _ _ _ _ _ rfl, ParseState.run_closing hbrackets.closes, List.append_nil,
      Container.add, Container.tree, ih _ _ _ _ _ rfl]
    simp only [Forest.toList, List.reverse_cons, List.append_assoc, List.singleton_append,
      List.reverse_reverse, Forest.ofList_toList]

/-! ## From a run to a derivation -/

/-- Tokens at whose end `depth` blocks have ended that were open in front of them, and every
block that begins among them. -/
def Ends : Nat → List Token → Prop
  | 0, ts => Balanced ts
  | depth + 1, ts => ∃ body closing rest, ts = body ++ closing :: rest ∧ Balanced body ∧
      closing.kind = .blockEnd ∧ Ends depth rest

namespace Ends

theorem token {depth : Nat} {t : Token} {ts : List Token}
    (hkind : t.kind ≠ .blockStart ∧ t.kind ≠ .blockEnd) (h : Ends depth ts) :
    Ends depth (t :: ts) := by
  cases depth with
  | zero => exact Balanced.token hkind h
  | succ depth =>
    obtain ⟨body, closing, rest, rfl, hbody, hcloses, hrest⟩ := h
    exact ⟨t :: body, closing, rest, rfl, .token hkind hbody, hcloses, hrest⟩

theorem opening {depth : Nat} {t : Token} {ts : List Token} (hopens : t.kind = .blockStart)
    (h : Ends (depth + 1) ts) : Ends depth (t :: ts) := by
  obtain ⟨inner, closing, rest, rfl, hinner, hcloses, hrest⟩ := h
  cases depth with
  | zero => exact Balanced.block hopens hinner hcloses hrest
  | succ depth =>
    obtain ⟨body, last, rest, rfl, hbody, hlast, hrest⟩ := hrest
    refine ⟨t :: (inner ++ closing :: body), last, rest, ?_, .block hopens hinner hcloses hbody,
      hlast, hrest⟩
    simp only [List.cons_append, List.append_assoc]

theorem closing {depth : Nat} {t : Token} {ts : List Token} (hcloses : t.kind = .blockEnd)
    (h : Ends depth ts) : Ends (depth + 1) (t :: ts) :=
  ⟨[], t, ts, rfl, .nil, hcloses, h⟩

end Ends

/-- A container with more children, behind those that it has. -/
def Container.extend (c : Container) (children : Forest) : Container :=
  { c with children := children.toList.reverse ++ c.children }

section Completes

variable {collapse : Bool} {text : Text} {outer : List Container} {c : Container}
  {ts : List Token} {tree : Tree}

variable (collapse text) in
/-- The tokens derive as the further children of the open containers, each up to its closing
brace, and the tree is what the root becomes with them. -/
def Completes : List Container → Container → List Token → Tree → Prop
  | [], c, ts, tree => ∃ children, Derives collapse text c.label.kind ts children ∧
      tree = (c.extend children).tree
  | parent :: outer, c, ts, tree => ∃ inner children closing rest,
      ts = inner ++ closing :: rest ∧ Derives collapse text c.label.kind inner children ∧
      closing.kind = .blockEnd ∧ Completes outer (parent.add (c.extend children).tree) rest tree

namespace Completes

/-- Tokens in front, as far as they derive as children of the current container. -/
theorem of_derives {c' : Container} (pre : List Token)
    (hpre : ∀ ts children, Derives collapse text c'.label.kind ts children →
      ∃ more, Derives collapse text c.label.kind (pre ++ ts) more ∧
        c'.extend children = c.extend more)
    (h : Completes collapse text outer c' ts tree) :
    Completes collapse text outer c (pre ++ ts) tree := by
  cases outer with
  | nil =>
    obtain ⟨children, hchildren, rfl⟩ := h
    obtain ⟨more, hmore, hextend⟩ := hpre _ _ hchildren
    exact ⟨more, hmore, by rw [hextend]⟩
  | cons parent outer =>
    obtain ⟨inner, children, closing, rest, rfl, hchildren, hcloses, hrest⟩ := h
    obtain ⟨more, hmore, hextend⟩ := hpre _ _ hchildren
    rw [hextend] at hrest
    exact ⟨pre ++ inner, more, closing, rest, (List.append_assoc ..).symm, hmore, hcloses, hrest⟩

theorem noise {t : Token} (hkind : t.kind = .blank ∨ t.kind = .other)
    (h : Completes collapse text outer c ts tree) :
    Completes collapse text outer c (t :: ts) tree :=
  of_derives [t] (fun _ children hchildren => ⟨children, .noise hkind hchildren, rfl⟩) h

theorem extend_add (c : Container) (label : Label) (inner children : Forest) :
    (c.add ⟨label, inner⟩).extend children =
      c.extend (.cons c.label.kind.boxes label inner children) := by
  simp only [Container.add, Container.extend, Forest.toList, List.reverse_cons, List.append_assoc,
    List.singleton_append]

theorem leaf {kind : Kind} {tag opening closing : Token} {gap body : List Token}
    (haccepts : c.label.kind.accepts kind = true) (hleaf : kind.isLeaf = true)
    (hbrackets : Brackets kind tag gap opening closing) (hbody : Balanced body)
    (h : Completes collapse text outer
      (c.add ⟨leafLabel collapse text kind tag opening closing, .nil⟩) ts tree) :
    Completes collapse text outer c (tag :: (gap ++ opening :: (body ++ closing :: ts))) tree := by
  have := of_derives (c := c) (tag :: (gap ++ opening :: (body ++ [closing])))
    (fun ts children hchildren => ⟨.cons c.label.kind.boxes _ .nil children, by
      simpa only [List.cons_append, List.append_assoc, List.nil_append] using
        Derives.leaf haccepts hleaf hbrackets hbody hchildren, extend_add ..⟩) h
  simpa only [List.cons_append, List.append_assoc, List.nil_append] using this

theorem container {kind : Kind} {tag opening : Token} {gap : List Token}
    (haccepts : c.label.kind.accepts kind = true) (hleaf : kind.isLeaf = false)
    (htag : tag.kind = .tag kind) (hgap : ∀ t ∈ gap, t.kind = .blank)
    (hopens : opening.kind = .blockStart)
    (h : Completes collapse text (c :: outer) ⟨{ kind, line := text.lineAt tag.start }, []⟩ ts
      tree) :
    Completes collapse text outer c (tag :: (gap ++ opening :: ts)) tree := by
  obtain ⟨body, inner, closing, rest, rfl, hinner, hcloses, hrest⟩ := h
  -- a container begins without children, so its tree has the derived ones and no others
  have htree : (Container.extend ⟨{ kind, line := text.lineAt tag.start }, []⟩ inner).tree =
      ⟨{ kind, line := text.lineAt tag.start }, inner⟩ := by
    rw [Container.extend, Container.tree, List.append_nil, List.reverse_reverse,
      Forest.ofList_toList]
  rw [htree] at hrest
  have := of_derives (c := c) (tag :: (gap ++ opening :: (body ++ [closing])))
    (fun ts children hchildren => ⟨.cons c.label.kind.boxes _ inner children, by
      simpa only [List.cons_append, List.append_assoc, List.nil_append] using
        Derives.container haccepts hleaf ⟨htag, hgap, hopens, hcloses⟩ hinner hchildren,
      extend_add ..⟩) hrest
  simpa only [List.cons_append, List.append_assoc, List.nil_append] using this

end Completes

end Completes

namespace ParseState

variable {collapse : Bool} {text : Text} {s next : ParseState} {tree : Tree}

variable (collapse text) in
/-- What a state of the parser still asks of the tokens for a tree. -/
def Accepts (s : ParseState) (ts : List Token) (tree : Tree) : Prop :=
  match s.mode with
  | .between => Completes collapse text s.outer s.current ts tree
  | .entering tag kind => ∃ gap opening rest, ts = gap ++ opening :: rest ∧
      (∀ t ∈ gap, t.kind = .blank) ∧ opening.kind = .blockStart ∧
      if kind.isLeaf then ∃ body closing more, rest = body ++ closing :: more ∧ Balanced body ∧
        closing.kind = .blockEnd ∧ Completes collapse text s.outer
          (s.current.add ⟨leafLabel collapse text kind tag opening closing, .nil⟩) more tree
      else Completes collapse text (s.current :: s.outer)
        ⟨{ kind, line := text.lineAt tag.start }, []⟩ rest tree
  | .inside tag kind opening depth => ∃ body closing rest, ts = body ++ closing :: rest ∧
      Ends depth body ∧ closing.kind = .blockEnd ∧ Completes collapse text s.outer
        (s.current.add ⟨leafLabel collapse text kind tag opening closing, .nil⟩) rest tree

theorem accepts_of_stepBetween {c : Container} {outer : List Container}
    {closed : List (Kind × Nat)} {t : Token} {ts : List Token}
    (hstep : stepBetween ⟨c, outer, .between, closed⟩ t = .ok next)
    (h : next.Accepts collapse text ts tree) :
    Completes collapse text outer c (t :: ts) tree := by
  unfold stepBetween at hstep
  simp only at hstep
  split at hstep
  case h_1 hkind =>
    cases hstep
    exact Completes.noise (.inl hkind) h
  case h_2 hkind =>
    cases hstep
    exact Completes.noise (.inr hkind) h
  case h_3 kind hkind =>
    split at hstep
    case isFalse => cases hstep
    rename_i haccepts
    cases hstep
    -- the state behind the tag asks for all of the block, so the tag completes a child
    obtain ⟨gap, opening, rest, rfl, hgap, hopens, hrest⟩ := h
    split at hrest
    · rename_i hleaf
      obtain ⟨body, closing, more, rfl, hbody, hcloses, hmore⟩ := hrest
      exact Completes.leaf haccepts hleaf ⟨hkind, hgap, hopens, hcloses⟩ hbody hmore
    · rename_i hleaf
      exact Completes.container haccepts (Bool.eq_false_iff.2 hleaf) hkind hgap hopens hrest
  case h_4 hkind =>
    cases outer with
    | nil => cases hstep
    | cons parent outer =>
      cases hstep
      exact ⟨[], .nil, t, ts, rfl, .nil, hkind, h⟩
  case h_5 => cases hstep

theorem accepts_of_stepEntering {c : Container} {outer : List Container}
    {closed : List (Kind × Nat)} {tag t : Token} {kind : Kind} {ts : List Token}
    (hstep : stepEntering ⟨c, outer, .entering tag kind, closed⟩ text tag kind t = .ok next)
    (h : next.Accepts collapse text ts tree) :
    Accepts collapse text ⟨c, outer, .entering tag kind, closed⟩ (t :: ts) tree := by
  unfold stepEntering at hstep
  split at hstep
  case h_1 hkind =>
    cases hstep
    obtain ⟨gap, opening, rest, rfl, hgap, hopens, hrest⟩ := h
    exact ⟨t :: gap, opening, rest, rfl, List.forall_mem_cons.2 ⟨hkind, hgap⟩, hopens, hrest⟩
  case h_2 hkind =>
    refine ⟨[], t, ts, rfl, nofun, hkind, ?_⟩
    split at hstep
    · rename_i hleaf
      cases hstep
      rw [if_pos hleaf]
      exact h
    · rename_i hleaf
      cases hstep
      rw [if_neg hleaf]
      exact h
  case h_3 => cases hstep

theorem accepts_of_stepInside {c : Container} {outer : List Container}
    {closed : List (Kind × Nat)} {tag opening t : Token} {kind : Kind} {depth : Nat}
    {ts : List Token}
    (h : Accepts collapse text (stepInside ⟨c, outer, .inside tag kind opening depth, closed⟩
      collapse text tag kind opening depth t) ts tree) :
    Accepts collapse text ⟨c, outer, .inside tag kind opening depth, closed⟩ (t :: ts) tree := by
  unfold stepInside at h
  split at h
  case h_1 hkind =>
    obtain ⟨body, closing, rest, rfl, hbody, hcloses, hrest⟩ := h
    exact ⟨t :: body, closing, rest, rfl, hbody.opening hkind, hcloses, hrest⟩
  case h_2 hkind => exact ⟨[], t, ts, rfl, Balanced.nil, hkind, h⟩
  case h_3 inner hkind =>
    obtain ⟨body, closing, rest, rfl, hbody, hcloses, hrest⟩ := h
    exact ⟨t :: body, closing, rest, rfl, hbody.closing hkind, hcloses, hrest⟩
  case h_4 depth _ _ hstart hzero hsucc =>
    obtain ⟨body, closing, rest, rfl, hbody, hcloses, hrest⟩ := h
    refine ⟨t :: body, closing, rest, rfl, hbody.token ⟨hstart, fun hkind => ?_⟩, hcloses, hrest⟩
    cases depth with
    | zero => exact hzero hkind rfl
    | succ inner => exact hsucc inner hkind rfl

/-- A step that is not refused takes a token of what the state asks for. -/
theorem accepts_of_step {t : Token} {ts : List Token} (hstep : s.step collapse text t = .ok next)
    (h : next.Accepts collapse text ts tree) : s.Accepts collapse text (t :: ts) tree := by
  obtain ⟨c, outer, mode, closed⟩ := s
  cases mode with
  | between => exact accepts_of_stepBetween hstep h
  | entering tag kind => exact accepts_of_stepEntering hstep h
  | inside tag kind opening depth =>
    cases hstep
    exact accepts_of_stepInside h

theorem accepts_of_finish (h : s.finish text = .ok tree) : s.Accepts collapse text [] tree := by
  obtain ⟨c, outer, mode, closed⟩ := s
  cases mode with
  | between =>
    cases outer with
    | nil =>
      cases h
      exact ⟨.nil, .nil, rfl⟩
    | cons parent outer => cases h
  | entering tag kind => cases h
  | inside tag kind opening depth => cases h

/-- A run that gives a tree has taken the tokens that its first state asks for. -/
theorem accepts_of_run {ts : List Token} {ended : List (Kind × Nat)}
    (h : run collapse text s ts = (.ok tree, ended)) : s.Accepts collapse text ts tree := by
  induction ts generalizing s with
  | nil => exact accepts_of_finish (Prod.ext_iff.1 h).1
  | cons t ts ih =>
    rw [run] at h
    split at h
    · rename_i next hstep
      exact accepts_of_step hstep (ih h)
    · cases h

end ParseState

/-- The parser returns a tree just if the markup derives as it. -/
theorem parse_eq_ok_iff {collapse : Bool} {markup : Text} {tree : Tree} :
    (parse collapse markup).1 = .ok tree ↔ Derivation collapse markup tree := by
  constructor
  · intro h
    obtain ⟨children, hchildren, rfl⟩ := ParseState.accepts_of_run (Prod.ext h rfl)
    refine ⟨rfl, ?_⟩
    rw [Container.extend, Container.tree, List.append_nil, List.reverse_reverse,
      Forest.ofList_toList]
    exact hchildren
  · rintro ⟨hroot, hchildren⟩
    obtain ⟨ended, hrun⟩ := hchildren.run_eq
    have hparse := hrun { kind := .root } [] [] [] [] rfl
    rw [List.append_nil, List.append_nil, List.append_nil] at hparse
    rw [parse]
    refine (congrArg Prod.fst hparse).trans ?_
    rw [ParseState.run, ParseState.finish]
    simp only [List.isEmpty_nil, if_true, Container.tree, List.reverse_reverse,
      Forest.ofList_toList, ← hroot]

end Document

/-! ## Parsing in a run -/

namespace Compile

variable {ctx : Context} {markup : Text} {s : RunState}

/-- Parsing in a run gives what the parser gives, and notes the containers that have ended. -/
theorem parse_eq (ctx : Context) (markup : Text) (s : RunState) :
    ∃ t, s.Alike t ∧ parse ctx markup s =
      match (Document.parse ctx.settings.collapse markup).1 with
      | .ok tree => .ok tree { t with
          progress := t.progress.push (.parsedContents tree.children.toList.length) }
      | .error f => .error (.diagnostic (f.diagnostic ctx.path markup)) t := by
  cases hparse : Document.parse ctx.settings.collapse markup with
  | mk result closed =>
    obtain ⟨t, ht, hst⟩ := Run.notes_eq_ok closed (fun e => .parsedNode e.1 e.2) s
    refine ⟨t, hst, ?_⟩
    unfold parse
    rw [hparse]
    refine (bind_of_ok ht).trans ?_
    cases result with
    | ok tree => rfl
    | error f => rfl

/-- The tree that a run parses is what the parser gives. -/
theorem parse_of_ok {tree : Tree} {s' : RunState} (h : parse ctx markup s = .ok tree s') :
    (Document.parse ctx.settings.collapse markup).1 = .ok tree := by
  obtain ⟨t, -, hparse⟩ := parse_eq ctx markup s
  rw [h] at hparse
  cases hresult : (Document.parse ctx.settings.collapse markup).1 with
  | ok tree' =>
    rw [hresult] at hparse
    cases hparse
    rfl
  | error f =>
    rw [hresult] at hparse
    cases hparse

end Compile

/-- A run parses a markup into just the tree that it derives as. There is one such tree at
most, and without one the run ends with a diagnostic of the parser. -/
theorem parse_derivation (ctx : Context) (markup : Text) (s : RunState) :
    (∀ tree, (∃ s', Compile.parse ctx markup s = .ok tree s') ↔
      Document.Derivation ctx.settings.collapse markup tree) ∧
    (∀ tree tree', Document.Derivation ctx.settings.collapse markup tree →
      Document.Derivation ctx.settings.collapse markup tree' → tree = tree') ∧
    ((∃ tree, Document.Derivation ctx.settings.collapse markup tree) ∨
      ∃ d s', Compile.parse ctx markup s = .error (.diagnostic d) s' ∧ d.area = .parse) := by
  obtain ⟨t, -, hparse⟩ := Compile.parse_eq ctx markup s
  simp only [← Document.parse_eq_ok_iff, hparse]
  cases (Document.parse ctx.settings.collapse markup).1 with
  | ok tree =>
    refine ⟨fun tree' => ?_, fun tree₁ tree₂ h₁ h₂ => ?_, .inl ⟨tree, rfl⟩⟩
    · constructor
      · rintro ⟨s', h⟩
        cases h
        rfl
      · intro h
        cases h
        exact ⟨_, rfl⟩
    · exact Except.ok.inj (h₁.symm.trans h₂)
  | error f =>
    refine ⟨fun tree' => ?_, fun _ _ h => (nomatch h), .inr ⟨_, _, rfl, rfl⟩⟩
    constructor
    · rintro ⟨s', h⟩
      cases h
    · intro h
      cases h

/-- A list with one text derives as a tree with one boxed child, and as no other. A block that is
left open derives as no tree, and the run ends with a diagnostic of the parser. -/
theorem parse_derivation_list :
    Document.Derivation true "main\x7blist\x7btext \x7ba\x7b\x7d\x7d\x7d\x7d".toList
      ⟨{ kind := .root }, .cons false { kind := .contents, line := 1 }
        (.cons false { kind := .bulletList, line := 1 }
          (.cons true { kind := .paragraph, data := some "a\x7b\x7d".toList, line := 1 } .nil .nil)
          .nil) .nil⟩ ∧
    (∀ tree tree',
      Document.Derivation true "main\x7blist\x7btext \x7ba\x7b\x7d\x7d\x7d\x7d".toList tree →
      Document.Derivation true "main\x7blist\x7btext \x7ba\x7b\x7d\x7d\x7d\x7d".toList tree' →
      tree = tree') ∧
    (∀ tree, ¬Document.Derivation true "main\x7b".toList tree) ∧
    ∃ d s', Compile.parse {} "main\x7b".toList {} = .error (.diagnostic d) s' ∧ d.area = .parse := by
  obtain ⟨haccepts, hunique, -⟩ :=
    parse_derivation {} "main\x7blist\x7btext \x7ba\x7b\x7d\x7d\x7d\x7d".toList {}
  obtain ⟨hrefuses, -, hends⟩ := parse_derivation {} "main\x7b".toList {}
  have hnone (tree) : ¬Document.Derivation true "main\x7b".toList tree := by
    intro htree
    obtain ⟨s', h⟩ := (hrefuses tree).2 htree
    have hfails : Run.value? (Compile.parse {} "main\x7b".toList {}) = none := by decide +kernel
    rw [h] at hfails
    cases hfails
  refine ⟨?_, hunique, hnone, hends.resolve_left fun ⟨tree, h⟩ => hnone tree h⟩
  exact (haccepts _).1 (Run.exists_of_value? (by decide +kernel))

end Bracemark
