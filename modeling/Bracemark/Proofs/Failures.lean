import Bracemark.Proofs.History
import Bracemark.Proofs.Outline
import Bracemark.Proofs.Uncounted

/-!
# What a run can end with

A run that fails ends with a diagnostic, with three exceptions, and each of them is a site that the
run takes up (`Resolve.Breaks`): it names a file by a path with a null character, its pattern is
refused for more than its syntax, or its template refers to a group that the pattern lacks
(`preprocess_failure`). A run that compiles its source also ends with the diagnostics of the parser,
and never fails to render: a tree that is parsed has a box around every child that needs one
(`Compile.render_of_parse`).

The bound on passes is not zero here, and the encoding of sources is known. By default both are so.
-/

namespace Bracemark

/-! ## Templates -/

namespace Pattern

/-- What a template is refused for. -/
inductive Template.Refused : Error → Prop where
  | fault (f : Fault) : Refused (.fault f)
  | unknownGroup (name : Text) : Refused (.unknownGroup name)

variable {σ α β : Type}

/-- A part of a reading that is not refused for anything else. -/
def Bounded (x : ReadM σ α) : Prop := ∀ c e c', x c = .error e c' → Template.Refused e

namespace Bounded

theorem pure (a : α) : Bounded (Pure.pure a : ReadM σ α) := by
  intro c e c' h
  cases h

theorem get : Bounded (get : ReadM σ (Cursor × σ)) := by
  intro c e c' h
  cases h

theorem set (c : Cursor × σ) : Bounded (set c : ReadM σ PUnit) := by
  intro c e c' h
  cases h

theorem throw {e : Error} (he : Template.Refused e) : Bounded (throw e : ReadM σ α) := by
  intro c e' c' h
  cases h
  exact he

theorem bind {x : ReadM σ α} {f : α → ReadM σ β} (hx : Bounded x) (hf : ∀ a, Bounded (f a)) :
    Bounded (x >>= f) := by
  intro c e c' h
  rcases bind_eq_error.1 h with h | ⟨a, c₁, -, h⟩
  · exact hx c e c' h
  · exact hf a c₁ e c' h

theorem ite {p : Prop} [Decidable p] {x y : ReadM σ α} (hx : Bounded x) (hy : Bounded y) :
    Bounded (if p then x else y) := by
  by_cases h : p
  · rwa [if_pos h]
  · rwa [if_neg h]

theorem failAt (problem : Problem) (position : Nat) :
    Bounded (ReadM.failAt problem position : ReadM σ α) :=
  get.bind fun _ => throw (.fault _)

theorem failBack (problem : Problem) (back : Nat) :
    Bounded (ReadM.failBack problem back : ReadM σ α) :=
  get.bind fun _ => failAt _ _

theorem peek : Bounded (ReadM.peek : ReadM σ (Option Piece)) := get.bind fun _ => pure _

theorem checkNext : Bounded (ReadM.checkNext : ReadM σ Unit) :=
  get.bind fun _ => (failAt _ _).ite (pure _)

theorem advance : Bounded (ReadM.advance : ReadM σ (Option Piece)) := by
  refine get.bind fun c => ?_
  obtain ⟨⟨source, rest, position⟩, s⟩ := c
  cases rest with
  | nil => exact pure _
  | cons p rest => exact (set _).bind fun _ => checkNext.bind fun _ => pure _

theorem accept (c : Char) : Bounded (ReadM.accept c : ReadM σ Bool) :=
  peek.bind fun _ => (advance.bind fun _ => pure _).ite (pure _)

theorem takeWhile (p : Char → Bool) (n : Nat) : Bounded (ReadM.takeWhile p n : ReadM σ Text) := by
  induction n with
  | zero => exact pure _
  | succ n ih =>
    refine peek.bind fun next => ?_
    rcases next with _ | (c | c | _)
    · exact pure _
    · exact (advance.bind fun _ => ih.bind fun _ => pure _).ite (pure _)
    · exact pure _
    · exact pure _

theorem nameLoop (terminator : Char) (what : String) (name : Text) (n : Nat) :
    Bounded (ReadM.nameLoop terminator what name n : ReadM σ Text) := by
  induction n generalizing name with
  | zero => exact pure _
  | succ n ih =>
    refine advance.bind fun next => ?_
    cases next with
    | none => exact ((failBack _ _).bind fun _ => failBack _ _).ite (failBack _ _)
    | some p => exact (((failBack _ _).bind fun _ => pure _).ite (pure _)).ite (ih _)

theorem takeName (terminator : Char) (what : String) :
    Bounded (ReadM.takeName terminator what : ReadM σ Text) :=
  get.bind fun _ => nameLoop _ _ _ _

theorem reference (number back : Nat) : Bounded (Template.reference number back) :=
  get.bind fun _ => ((failBack _ _).bind fun _ => pure _).ite (pure _)

theorem bracketed : Bounded Template.bracketed := by
  unfold Template.bracketed
  refine (accept _).bind fun found => ?_
  extract_lets rest
  have hrest (u : PUnit) : Bounded (rest u) := by
    refine (takeName _ _).bind fun name => ite (get.bind fun c => ?_) ?_
    · cases c.2.names.lookup name with
      | some number => exact reference _ _
      | none => exact throw (.unknownGroup _)
    · rcases integer? name with _ | (number | number)
      · exact failBack _ _
      · exact ((failBack _ _).bind fun _ => reference _ _).ite (reference _ _)
      · exact failBack _ _
  exact (hrest ()).ite ((failBack _ _).bind fun _ => hrest ())

theorem digits (c : Char) : Bounded (Template.digits c) := by
  unfold Template.digits
  refine (takeWhile _ _).bind fun second => ?_
  extract_lets rest
  have hrest (third : Text) : Bounded (rest third) :=
    (reference _ _).ite (((failBack _ _).bind fun _ => pure _).ite (pure _))
  exact ((takeWhile _ _).bind hrest).ite ((pure _).bind hrest)

theorem escape (c : Char) : Bounded (Template.escape c) := by
  refine bracketed.ite (((takeWhile _ _).bind fun _ => pure _).ite ((digits c).ite ?_))
  cases controlEscape? c with
  | some n => exact pure _
  | none => exact ((failBack _ _).bind fun _ => pure _).ite (pure _)

theorem parts (n : Nat) : Bounded (Template.parts n) := by
  induction n with
  | zero => exact pure _
  | succ n ih =>
    refine advance.bind fun next => ?_
    rcases next with _ | (c | c | _)
    · exact pure _
    · exact ih.bind fun _ => pure _
    · exact (escape _).bind fun _ => ih.bind fun _ => pure _
    · exact pure _

end Bounded

/-- A template is refused for a fault, or for a reference to a group that there is not. -/
theorem Template.refused_of_ofText {pattern : Pattern} {source : Text} {e : Error}
    (h : ofText pattern source = .error e) : Refused e := by
  unfold ofText at h
  simp only at h
  split at h
  · cases h
  · rename_i e' c' hread
    cases h
    exact (Bounded.checkNext.bind fun _ => Bounded.parts _) _ _ _ hread

end Pattern

/-! ## Paths -/

namespace FileTree

variable {tree : FileTree}

theorem follow_ne_embeddedNul (spot : Spot) (parts : List Text) :
    tree.follow spot parts ≠ .error .embeddedNul := by
  induction parts generalizing spot with
  | nil => exact nofun
  | cons part rest ih =>
    rw [follow]
    by_cases hdirectory : tree.isDirectory spot = true
    · rw [if_pos hdirectory]
      exact ih _
    · rw [if_neg hdirectory]
      intro h
      split at h <;> cases h

/-- Only a path with a null character in it is refused for that. -/
theorem nul_of_read {p : Path} (h : tree.read p = .error .embeddedNul) :
    ∃ part ∈ p.parts, '\x00' ∈ part := by
  unfold read at h
  cases hlocate : tree.locate p with
  | ok spot =>
    rw [hlocate] at h
    simp only [bind, Except.bind] at h
    split at h
    · cases h
    · split at h <;> cases h
  | error e =>
    rw [hlocate] at h
    cases h
    unfold locate at hlocate
    split at hlocate
    · rename_i hnul
      obtain ⟨part, hpart, hmem⟩ := List.any_eq_true.1 hnul
      exact ⟨part, hpart, List.contains_iff_mem.1 hmem⟩
    · exact absurd hlocate (follow_ne_embeddedNul _ _)

end FileTree

/-! ## Sites -/

/-- A failure that is reported: a diagnostic of one of some areas. -/
def Failure.Reported (areas : List Area) (e : Failure) : Prop :=
  ∃ d, e = .diagnostic d ∧ d.area ∈ areas

theorem Failure.Reported.mono {areas areas' : List Area} {e : Failure} (h : e.Reported areas)
    (hsubset : areas ⊆ areas') : e.Reported areas' := by
  obtain ⟨d, hd, harea⟩ := h
  exact ⟨d, hd, hsubset harea⟩

theorem Failure.reported_directive (file : Text) (line? : Option Nat) (cause : Cause) :
    Reported [.directive] (.diagnostic ⟨.directive, file, line?, cause⟩) :=
  ⟨_, rfl, List.mem_singleton_self _⟩

/-- What ends a run without a diagnostic once a site is taken up. -/
inductive Resolve.Breaks (ctx : Context) (site : Site) : Failure → Prop where
  | nul (hd : site.directive = .includeFile ∨ site.directive = .importTable)
      (h : ∃ part ∈ (Include.path ctx site).parts, '\x00' ∈ part) :
      Breaks ctx site (.file .embeddedNul)
  | pattern {e : Pattern.Error} (hd : site.directive = .replaceAll)
      (h : Pattern.ofText (Scheme.document.deprotect site.first) = .error e)
      (he : ∀ f, e ≠ .fault f) : Breaks ctx site (.pattern e)
  | template {pattern : Pattern} {name : Text} (hd : site.directive = .replaceAll)
      (hpattern : Pattern.ofText (Scheme.document.deprotect site.first) = .ok pattern)
      (h : Pattern.Template.ofText pattern (Scheme.document.deprotect site.second) =
        .error (.unknownGroup name)) : Breaks ctx site (.pattern (.unknownGroup name))

section Stages

variable {ctx : Context} {f : Family} {fs : List Family} {t u : Text} {s s' : RunState}
  {e : Failure}

theorem Resolve.reported_of_refuses {site : Site} (h : Refuses ctx site e)
    (hencoding : (Encoding.ofName? ctx.settings.sourceEncoding).isSome) :
    e.Reported [.directive] ∨ Breaks ctx site e := by
  cases h with
  | unreadable hd he =>
    cases he with
    | refused => exact .inl (Failure.reported_directive ..)
    | nul hread => exact .inr (.nul (hd.imp And.left And.left) (FileTree.nul_of_read hread))
    | encoding hnone =>
      rw [hnone] at hencoding
      cases hencoding
  | unanchored hd hcontents he => cases he <;> exact .inl (Failure.reported_directive ..)
  | unformatted hd he => cases he <;> exact .inl (Failure.reported_directive ..)
  | patternError hd he hfault => exact .inr (.pattern hd he hfault)
  | _ => exact .inl (Failure.reported_directive ..)

namespace Preprocess

theorem reported_of_unsettled (h : Unsettled ctx t e) : e.Reported [.directive] := by
  cases h <;> exact Failure.reported_directive ..

/-! ## Stages -/

/-- An attempt is a replacement with the pattern and the template of a substitution. -/
structure Queues (a : Attempt) (sub : Substitution) : Prop where
  directive : a.site.directive = .replaceAll
  pattern : Pattern.ofText (Scheme.document.deprotect a.site.first) = .ok sub.pattern
  template : Scheme.document.deprotect a.site.second = sub.template

/-- A substitution that waits behind a family comes from a site of it. -/
theorem exists_queues (h : Resolve.family ctx f t s = .ok u s') (hs : s.pending = []) :
    ∀ sub ∈ s'.pending, ∃ a ∈ stageAttempts ctx f t s, Queues a sub := by
  have hsite (a) (ha : a ∈ stageAttempts ctx f t s) (s₁ v s₂)
      (hs₁ : ∀ sub ∈ s₁.pending, ∃ a ∈ stageAttempts ctx f t s, Queues a sub)
      (hgives : Resolve.Gives ctx a.site s₁ v s₂) :
      True ∧ ∀ sub ∈ s₂.pending, ∃ a ∈ stageAttempts ctx f t s, Queues a sub := by
    refine ⟨trivial, ?_⟩
    intro sub hsub
    by_cases hd : a.site.directive = .replaceAll
    · unfold Resolve.Gives at hgives
      simp only [hd] at hgives
      obtain ⟨-, -, -, pattern, hpattern, hpending⟩ := hgives
      rw [hpending] at hsub
      rcases List.mem_append.1 hsub with hsub | hsub
      · exact hs₁ sub hsub
      · rw [List.mem_singleton.1 hsub]
        exact ⟨a, ha, hd, hpattern, rfl⟩
    · rw [Resolve.pending_of_gives hgives hd] at hsub
      exact hs₁ sub hsub
  refine (becomes_of_family _ (fun _ _ _ => True) h ?_ ?_ hsite).1
  · intro s₁ s₂ halike hs₁
    rw [halike.pending]
    exact hs₁
  · rw [hs]
    exact nofun

theorem reported_of_fails (h : Fails ctx f t s e) (hs : s.pending = [])
    (hencoding : (Encoding.ofName? ctx.settings.sourceEncoding).isSome) :
    e.Reported [.directive] ∨ ∃ a ∈ stageAttempts ctx f t s, Resolve.Breaks ctx a.site e := by
  cases h with
  | fault => exact .inl (Failure.reported_directive ..)
  | @refused a _ ha _ hrefuses =>
    rcases Resolve.reported_of_refuses hrefuses hencoding with hreported | hbreaks
    · exact .inl hreported
    · exact .inr ⟨a, ha, hbreaks⟩
  | unsettled _ hunsettled => exact .inl (reported_of_unsettled hunsettled)
  | unsubstituted _ hfamily hsub hunsubstituted =>
    cases hunsubstituted with
    | fault => exact .inl (Failure.reported_directive ..)
    | error htemplate hfault =>
      obtain ⟨a, ha, hqueues⟩ := exists_queues hfamily hs _ hsub
      rw [← hqueues.template] at htemplate
      cases Pattern.Template.refused_of_ofText htemplate with
      | fault f => exact absurd rfl (hfault f)
      | unknownGroup name => exact .inr ⟨a, ha, .template hqueues.directive hqueues.pattern htemplate⟩

theorem reported_of_stages (h : fs.foldlM (stage ctx) t s = .error e s') (hs : s.pending = [])
    (hencoding : (Encoding.ofName? ctx.settings.sourceEncoding).isSome) :
    e.Reported [.directive] ∨ ∃ a ∈ stagesAttempts ctx fs t s, Resolve.Breaks ctx a.site e := by
  induction fs generalizing t s with
  | nil => cases h
  | cons f fs ih =>
    rw [List.foldlM_cons] at h
    rw [stagesAttempts]
    rcases bind_eq_error.1 h with h | ⟨v, s₁, hstage, h⟩
    · rcases reported_of_fails (fails_of_stage h) hs hencoding with hreported | ⟨a, ha, hbreaks⟩
      · exact .inl hreported
      · exact .inr ⟨a, List.mem_append_left _ ha, hbreaks⟩
    · rw [hstage]
      rcases ih h (pending_of_stage hstage hs) with hreported | ⟨a, ha, hbreaks⟩
      · exact .inl hreported
      · exact .inr ⟨a, List.mem_append_right _ ha, hbreaks⟩

/-! ## Passes -/

/-- With more fuel than passes are left, it is the bound on passes that ends a run. -/
theorem reported_of_converges {fuel : Nat} {as : List Attempt}
    {r : EStateM.Result Failure RunState Text} (h : Converges ctx fuel t s as r)
    (hr : r = .error e s') (hs : s.pending = []) (hpasses : s.passes ≤ ctx.settings.maxPasses)
    (hfuel : ctx.settings.maxPasses < s.passes + fuel) (hbound : 0 < ctx.settings.maxPasses)
    (hencoding : (Encoding.ofName? ctx.settings.sourceEncoding).isSome) :
    e.Reported [.directive] ∨ ∃ a ∈ as, Resolve.Breaks ctx a.site e := by
  induction h with
  | resolved => cases hr
  | exhausted => omega
  | refused =>
    cases hr
    exact .inl (Failure.reported_directive ..)
  | failed _ _ hpass =>
    cases hr
    exact reported_of_stages hpass hs hencoding
  | @pass _ t _ s s₁ _ _ _ hbegin hpass _ ih =>
    have hcount : s₁.passes = s.passes + 1 := (pass_uncounted ctx t).of_ok hpass
    rcases ih hr (pending_of_stages hpass hs) (by omega) (by omega) with
      hreported | ⟨a, ha, hbreaks⟩
    · exact .inl hreported
    · exact .inr ⟨a, List.mem_append_right _ ha, hbreaks⟩

theorem reported_of_source (h : source ctx t s = .error e s') (hs : s.pending = [])
    (hpasses : s.passes = 0) (hbound : 0 < ctx.settings.maxPasses)
    (hencoding : (Encoding.ofName? ctx.settings.sourceEncoding).isSome) :
    e.Reported [.directive] ∨ ∃ a ∈ historyFrom ctx t s, Resolve.Breaks ctx a.site e := by
  rw [source_eq] at h
  rw [historyFrom]
  rcases settle_cases ctx t s with ⟨s₁, hsettle, hs₁, -⟩ | ⟨e', s₁, hsettle, he⟩
  · rw [bind_of_ok hsettle] at h
    rw [hsettle]
    have hpasses₁ : s₁.passes = 0 := hs₁.passes.trans hpasses
    have hfuel : fuel ctx = ctx.settings.maxPasses + 1 := by
      unfold fuel
      rw [if_neg (Nat.ne_of_gt hbound)]
    rcases bind_eq_error.1 h with h | ⟨v, s₂, -, h⟩
    · exact reported_of_converges (converges ..) h (hs₁.pending.trans hs) (by omega) (by omega)
        hbound hencoding
    · cases h
  · rw [bind_of_error hsettle] at h
    cases h
    exact .inl (reported_of_unsettled he)

end Preprocess

end Stages

/-! ## Parsing and rendering -/

namespace Compile

variable {ctx : Context} {markup : Text} {tree : Tree} {s s' : RunState} {e : Failure}

/-- The children that tokens derive as are rendered. -/
theorem forest_of_derives {collapse : Bool} {text : Text} {parent : Kind} {ts : List Token}
    {children : Forest} (h : Document.Derives collapse text parent ts children) {label : Label}
    (hlabel : label.kind = parent) : ∃ html, Html.forest label children = .ok html := by
  induction h generalizing label with
  | nil => exact ⟨[], rfl⟩
  | noise _ _ ih => exact ih hlabel
  | leaf _ isLeaf _ _ _ ih =>
    subst hlabel
    obtain ⟨others, hothers⟩ := ih rfl
    exact ⟨_, Html.forest_leaf _ isLeaf hothers⟩
  | @container _ kind tag _ _ _ _ _ _ _ _ isLeaf _ _ _ ihinner ih =>
    subst hlabel
    have hinner : ∃ inner, Html.forest { kind, line := text.lineAt tag.start } _ = .ok inner :=
      ihinner rfl
    obtain ⟨inner, hinner⟩ := hinner
    obtain ⟨others, hothers⟩ := ih rfl
    exact ⟨_, Html.forest_container _ isLeaf hinner hothers⟩

/-- A tree that has been parsed is rendered. -/
theorem render_of_parse (h : parse ctx markup s = .ok tree s') (s₁ : RunState) :
    ∃ html s₂, render ctx tree s₁ = .ok html s₂ := by
  obtain ⟨hroot, hchildren⟩ := Document.parse_eq_ok_iff.1 (parse_of_ok h)
  have hkind : tree.label.kind = .root := by rw [hroot]
  obtain ⟨html, hforest⟩ := forest_of_derives hchildren hkind
  have hrender : Html.render tree = .ok (Html.element "html" html) := by
    unfold Html.render
    rw [if_pos hkind, hforest]
    rfl
  have hgenerate : ∃ s₂, generate ctx tree s₁ = .ok (Html.element "html" html) s₂ := by
    unfold generate
    rw [hrender]
    exact ⟨_, rfl⟩
  obtain ⟨s₂, hgenerate⟩ := hgenerate
  obtain ⟨s₃, hdeprotect, -⟩ := Run.deprotect_eq_ok .document (Html.element "html" html) s₂
  exact ⟨_, _, (bind_of_ok hgenerate).trans ((bind_of_ok hdeprotect).trans rfl)⟩

end Compile

section Compilation

variable {ctx : Context} {t markup : Text} {s : RunState} {e : Failure}

/-- A compilation ends where its source cannot be preprocessed. -/
theorem compile_of_error
    (h : Preprocess.source ctx t { progress := #[.preprocessing] } = .error e s) :
    (compile ctx t).result = .error e ∧ (compile ctx t).tree? = none := by
  have hsource : (do Run.note .preprocessing; Preprocess.source ctx t : Run Text).run {} =
      .error e s := (bind_of_ok rfl).trans h
  have hreport : compile ctx t = { result := .error e, state := s } := by
    rw [compile, compileFrom, hsource]
  rw [hreport]
  exact ⟨rfl, rfl⟩

/-- Once its source is preprocessed, a compilation fails just if the markup cannot be parsed. -/
theorem compile_of_ok
    (h : Preprocess.source ctx t { progress := #[.preprocessing] } = .ok markup s) :
    (∃ f, (Document.parse ctx.settings.collapse markup).1 = .error f ∧
      (compile ctx t).result = .error (.diagnostic (f.diagnostic ctx.path markup)) ∧
      (compile ctx t).tree? = none) ∨
    ∃ tree html, (Document.parse ctx.settings.collapse markup).1 = .ok tree ∧
      (compile ctx t).result = .ok html ∧ (compile ctx t).tree? = some tree := by
  have hsource : (do Run.note .preprocessing; Preprocess.source ctx t : Run Text).run {} =
      .ok markup s := (bind_of_ok rfl).trans h
  rw [compile, compileFrom, hsource]
  simp only
  obtain ⟨s₁, -, hparse⟩ :=
    Compile.parse_eq ctx markup { s with progress := s.progress.push .parsing }
  cases hresult : (Document.parse ctx.settings.collapse markup).1 with
  | error f =>
    rw [hresult] at hparse
    have hparsing : (do Run.note .parsing; Compile.parse ctx markup : Run Tree).run s = _ :=
      (bind_of_ok rfl).trans hparse
    rw [hparsing]
    exact .inl ⟨f, rfl, rfl, rfl⟩
  | ok tree =>
    rw [hresult] at hparse
    have hparsing : (do Run.note .parsing; Compile.parse ctx markup : Run Tree).run s = _ :=
      (bind_of_ok rfl).trans hparse
    obtain ⟨html, s₂, hrender⟩ := Compile.render_of_parse hparse
      { s₁ with progress :=
        (s₁.progress.push (.parsedContents tree.children.toList.length)).push .generating }
    have hgenerating : (do Run.note .generating; Compile.render ctx tree : Run Text).run
        { s₁ with progress := s₁.progress.push (.parsedContents tree.children.toList.length) } =
          .ok html s₂ := (bind_of_ok rfl).trans hrender
    rw [hparsing]
    simp only
    rw [hgenerating]
    exact .inr ⟨tree, html, rfl, rfl, rfl⟩

/-- A compilation fails where its source is preprocessed, or where the markup is parsed. -/
theorem failure_of_compile (h : (compile ctx t).result = .error e) :
    (∃ s', Preprocess.source ctx t { progress := #[.preprocessing] } = .error e s') ∨
      e.Reported [.parse] := by
  cases hsource : Preprocess.source ctx t { progress := #[.preprocessing] } with
  | error e' s =>
    rw [(compile_of_error hsource).1] at h
    cases h
    exact .inl ⟨s, rfl⟩
  | ok markup s =>
    rcases compile_of_ok hsource with ⟨f, -, hresult, -⟩ | ⟨tree, html, -, hresult, -⟩
    · rw [hresult] at h
      cases h
      exact .inr ⟨_, rfl, List.mem_singleton.2 rfl⟩
    · rw [hresult] at h
      cases h

end Compilation

/-! ## Whole runs -/

/-- A run that preprocesses a source, and one that compiles it, gives a text or ends with a
diagnostic, unless one of the sites that it takes up breaks it. -/
theorem preprocess_failure (ctx : Context) (hbound : 0 < ctx.settings.maxPasses)
    (hencoding : (Encoding.ofName? ctx.settings.sourceEncoding).isSome) (t : Text) :
    (∀ e s, preprocess ctx t = .error e s →
      e.Reported [.directive] ∨ ∃ a ∈ history ctx t, Resolve.Breaks ctx a.site e) ∧
    ∀ e, (compile ctx t).result = .error e →
      e.Reported [.directive, .parse] ∨
        ∃ a ∈ historyFrom ctx t { progress := #[.preprocessing] }, Resolve.Breaks ctx a.site e := by
  constructor
  · intro e s h
    exact Preprocess.reported_of_source h rfl rfl hbound hencoding
  · intro e h
    rcases failure_of_compile h with ⟨s, hsource⟩ | hreported
    · rcases Preprocess.reported_of_source hsource rfl rfl hbound hencoding with
        hreported | hbreaks
      · exact .inl (hreported.mono (by simp))
      · exact .inr hbreaks
    · exact .inl (hreported.mono (by simp))

theorem preprocess_failure_unknownGroup :
    (∃ e s, preprocess {} ".replace_all\x7ba\x7d\x7b\\\\g<x>\x7da".toList = .error e s ∧
      (e.Reported [.directive] ∨
        ∃ a ∈ history {} ".replace_all\x7ba\x7d\x7b\\\\g<x>\x7da".toList,
          Resolve.Breaks {} a.site e)) ∧
    ∃ e, (compile {} ".include\x7b\x00\x7d".toList).result = .error e ∧
      (e.Reported [.directive, .parse] ∨
        ∃ a ∈ historyFrom {} ".include\x7b\x00\x7d".toList { progress := #[.preprocessing] },
          Resolve.Breaks {} a.site e) := by
  obtain ⟨s, hrun⟩ := Run.exists_of_failure?
    (r := preprocess {} ".replace_all\x7ba\x7d\x7b\\\\g<x>\x7da".toList)
    (e := .pattern (.unknownGroup ['x'])) (by decide +kernel)
  have hcompile : (compile {} ".include\x7b\x00\x7d".toList).result =
      .error (.file .embeddedNul) := by decide +kernel
  exact ⟨⟨_, s, hrun, (preprocess_failure {} (by decide) (by decide +kernel) _).1 _ s hrun⟩,
    ⟨_, hcompile, (preprocess_failure {} (by decide) (by decide +kernel) _).2 _ hcompile⟩⟩

/-- An unknown group and a null character end runs without a diagnostic. -/
theorem preprocess_unreported :
    (∃ e s, preprocess {} ".replace_all\x7ba\x7d\x7b\\\\g<x>\x7da".toList = .error e s ∧
      ¬e.Reported [.directive]) ∧
    ∃ e s, preprocess {} ".include\x7b\x00\x7d".toList = .error e s ∧
      ¬e.Reported [.directive] := by
  obtain ⟨s, hgroup⟩ := Run.exists_of_failure?
    (r := preprocess {} ".replace_all\x7ba\x7d\x7b\\\\g<x>\x7da".toList)
    (e := .pattern (.unknownGroup ['x'])) (by decide +kernel)
  obtain ⟨s', hnul⟩ := Run.exists_of_failure?
    (r := preprocess {} ".include\x7b\x00\x7d".toList) (e := .file .embeddedNul)
    (by decide +kernel)
  refine ⟨⟨_, s, hgroup, ?_⟩, ⟨_, s', hnul, ?_⟩⟩
  · rintro ⟨d, hd, -⟩
    cases hd
  · rintro ⟨d, hd, -⟩
    cases hd

end Bracemark
