import Bracemark.Proofs.FileTexts
import Bracemark.Proofs.History
import Bracemark.Proofs.NormalForm

/-!
# Braces that match in order

A stage counts the braces of its buffer and does not ask for their order. Still the order is kept:
every stage but the last turns a tidy buffer into a tidy one and leaves tidy bodies in the table
of macros, if those were tidy before and so are the files that are read
(`Preprocess.tidy_of_stage`). And in a tidy buffer no block is left open and no brace too many is
counted (`Preprocess.misnested_of_stage`). So a run that resolves no replacement does not end in
one of these two errors (`preprocess_nested`).

Nesting alone is not kept, as a backslash in the body of a macro may take a brace away
(`stage_unbalanced`).
-/

namespace Bracemark

theorem Macros.mem_of_body? {m : Macros} {name body : Text} (h : m.body? name = some body) :
    (name, body) ∈ m := by
  obtain ⟨before, behind, hm, -⟩ := List.lookup_eq_some_iff.1 h
  rw [hm]
  exact List.mem_append_right _ List.mem_cons_self

/-- A table of macros with tidy bodies. -/
def Macros.Tidy (m : Macros) : Prop := ∀ entry ∈ m, entry.2.Tidy

namespace Macros.Tidy

variable {m : Macros}

theorem define (h : m.Tidy) (name : Text) {body : Text} (hbody : body.Tidy) :
    Macros.Tidy (m.define name body) :=
  List.forall_mem_cons.2 ⟨hbody, fun entry he => h entry (List.mem_of_mem_filter he)⟩

theorem body (h : m.Tidy) {name body : Text} (hbody : m.body? name = some body) : body.Tidy :=
  h (name, body) (mem_of_body? hbody)

end Macros.Tidy

/-- What a site needs of the file that it reads, if it reads one: an included file is nested once
it is protected, and a table has no braces and no backslashes. -/
def Site.ReadsTidy (ctx : Context) (site : Site) : Prop :=
  ∀ contents, Include.text? ctx site = some contents →
    (site.directive = .includeFile → (Scheme.document.protect contents).Nested) ∧
    (site.directive = .importTable → contents.Flat)

theorem Site.readsTidy_of_ne (ctx : Context) {site : Site}
    (h : site.directive ≠ .includeFile ∧ site.directive ≠ .importTable) : site.ReadsTidy ctx :=
  fun _ _ => ⟨fun hd => absurd hd h.1, fun hd => absurd hd h.2⟩

/-! ## Texts of sites -/

theorem Resolve.tidy_linkText {text url : Text} (htext : text.Tidy) (hurl : url.Tidy) :
    (linkText text url).Tidy := by
  obtain ⟨a, b, c, ha, hb, hc, hlink⟩ := linkText_eq
  have ha := Text.Tidy.of_inert ha
  have hb := Text.Tidy.of_inert hb
  have hc := Text.Tidy.of_inert hc
  rw [hlink]
  exact (((ha.append hurl).append hb).append htext).append hc

theorem Style.tidy_formatted (spec : Text) {t : Text} (h : t.Tidy) :
    (formatted spec t).Tidy := by
  refine formatted_induction (fun t c h => ?_) spec h
  rcases put_cases t c with hput | ⟨a, b, ha, hb, hput⟩
  · exact .of_inert hput
  · rw [hput]
    exact ((Text.Tidy.of_inert ha).append h).append (.of_inert hb)

namespace Site

variable {P : Text → Prop} {site : Site}

/-- What holds of the blocks of a site, and of no text at all, holds of its first block. -/
theorem forall_first (hnil : P []) (h : ∀ u ∈ site.arguments, P u) : P site.first := by
  unfold first
  cases harguments : site.arguments with
  | nil => exact hnil
  | cons u us =>
    rw [harguments] at h
    exact h u List.mem_cons_self

theorem forall_second (hnil : P []) (h : ∀ u ∈ site.arguments, P u) : P site.second := by
  unfold second
  cases harguments : site.arguments.tail with
  | nil => exact hnil
  | cons u us =>
    have hu : u ∈ site.arguments.tail := by
      rw [harguments]
      exact List.mem_cons_self
    exact h u (List.mem_of_mem_tail hu)

end Site

namespace Resolve

variable {ctx : Context} {site : Site} {s s' : RunState} {v : Text}

/-- A site with tidy arguments gives a tidy text, and keeps the bodies of macros tidy. -/
theorem tidy_of_gives (h : Gives ctx site s v s') (harguments : ∀ u ∈ site.arguments, u.Tidy)
    (hreads : site.ReadsTidy ctx) (hs : s.macros.Tidy) : v.Tidy ∧ s'.macros.Tidy := by
  have hfirst := Site.forall_first (P := Text.Tidy) ⟨List.not_mem_nil, rfl⟩ harguments
  have hsecond := Site.forall_second (P := Text.Tidy) ⟨List.not_mem_nil, rfl⟩ harguments
  unfold Gives at h
  cases hd : site.directive with
  | defineMacro =>
    simp only [hd] at h
    obtain ⟨rfl, hmacros, -⟩ := h
    rw [hmacros]
    exact ⟨⟨List.not_mem_nil, rfl⟩, hs.define _ hsecond⟩
  | useMacro =>
    simp only [hd] at h
    obtain ⟨hbody, halike⟩ := h
    rw [halike.macros]
    exact ⟨hs.body hbody, hs⟩
  | includeFile =>
    simp only [hd] at h
    obtain ⟨halike, contents, htext, hfault, rfl⟩ := h
    have hnested := (hreads contents htext).1 hd
    rw [halike.macros]
    exact ⟨Include.tidy_anchored _ _ ⟨Scheme.notMem_protect hfault, hnested⟩, hs⟩
  | importTable =>
    simp only [hd] at h
    obtain ⟨halike, contents, htext, rfl⟩ := h
    rw [halike.macros]
    exact ⟨Table.tidy_convert ((hreads contents htext).2 hd), hs⟩
  | link =>
    simp only [hd] at h
    obtain ⟨rfl, halike⟩ := h
    rw [halike.macros]
    exact ⟨tidy_linkText hfirst hsecond, hs⟩
  | format =>
    simp only [hd] at h
    obtain ⟨rfl, -, halike⟩ := h
    rw [halike.macros]
    exact ⟨Style.tidy_formatted _ hsecond, hs⟩
  | codePoint =>
    simp only [hd] at h
    obtain ⟨halike, c, -, rfl⟩ := h
    rw [halike.macros]
    exact ⟨.of_inert (Scheme.inert_shield _), hs⟩
  | replaceAll =>
    simp only [hd] at h
    obtain ⟨rfl, hmacros, -⟩ := h
    rw [hmacros]
    exact ⟨⟨List.not_mem_nil, rfl⟩, hs⟩

end Resolve

/-! ## The two errors -/

/-- Whether a run has ended with a block left open, or with a brace too many. -/
def Failure.misnested : Failure → Bool
  | .diagnostic d => match d.cause with
    | .unbalanced _ _ => true
    | .block (.unterminated _) => true
    | _ => false
  | _ => false

namespace Preprocess

variable {ctx : Context} {f : Family} {fs : List Family} {t u : Text} {s s' : RunState}
  {e : Failure}

theorem misnested_escapeDiagnostic (file t : Text) (f : EscapeFault) :
    (Failure.diagnostic (Run.escapeDiagnostic file t f)).misnested = false := by
  unfold Run.escapeDiagnostic Failure.misnested
  cases f.character? <;> rfl

theorem misnested_ofBlockFault {p : BlockProblem} (h : ∀ word, p ≠ .unterminated word)
    (area : Area) (file t : Text) (offset : Nat) :
    (Failure.diagnostic (.ofBlockFault area file t ⟨p, offset⟩)).misnested = false := by
  unfold Diagnostic.ofBlockFault Failure.misnested
  cases p with
  | expected => rfl
  | unterminated word => exact absurd rfl (h word)

theorem misnested_of_refuses {site : Site} (h : Resolve.Refuses ctx site e)
    (hreads : site.ReadsTidy ctx) : e.misnested = false := by
  cases h with
  | unreadable hd he =>
    cases he with
    | refused => rcases hd with ⟨-, rfl⟩ | ⟨-, rfl⟩ <;> rfl
    | nul | encoding => rfl
  | unanchored hd htext he =>
    cases he with
    | escape => exact misnested_escapeDiagnostic ..
    | block hfault hf =>
      exact misnested_ofBlockFault
        (Include.problem_of_fileBlocks ((hreads _ htext).1 hd) hf) ..
  | unformatted hd he => cases he <;> rfl
  | _ => rfl

theorem misnested_of_unsettled (h : Unsettled ctx t e) (ht : t.Tidy) : e.misnested = false := by
  cases h with
  | escape hf =>
    rw [Scheme.fault?_of_notMem ht.noEscape] at hf
    cases hf
  | unbalanced hfault hbraces =>
    rw [Scheme.protect_of_notMem ht.noEscape] at hbraces
    exact absurd ht.nested.braces_eq hbraces

/-! ## Stages -/

/-- Tidy texts in the place of nested sites keep a buffer tidy. -/
theorem tidy_of_becomes {ws : List Stretch} {vs : List Text}
    (h : List.Forall₂ (Stretch.Becomes fun _ _ v => v.Tidy) ws vs)
    (hnested : ∀ d us w, .site d us w ∈ ws → w.Nested)
    (ht : Text.Tidy (ws.flatMap Stretch.written)) : Text.Tidy vs.flatten := by
  have hkept : ('\\' ∈ vs.flatten → '\\' ∈ ws.flatMap Stretch.written) ∧
      ∀ depth, Text.level depth vs.flatten = Text.level depth (ws.flatMap Stretch.written) := by
    clear ht
    induction h with
    | nil => exact ⟨id, fun _ => rfl⟩
    | @cons w v ws vs hw _ ih =>
      obtain ⟨hmem, hlevel⟩ := ih fun d us w hm => hnested d us w (List.mem_cons_of_mem _ hm)
      rw [List.flatten_cons, List.flatMap_cons, List.mem_append, List.mem_append]
      simp only [Text.level_append, hlevel]
      cases w with
      | fault f => cases hw
      | kept c =>
        obtain rfl : v = [c] := hw
        exact ⟨Or.imp_right hmem, fun _ => rfl⟩
      | site d us w =>
        have hv : v.Tidy := hw
        have hw := hnested d us w List.mem_cons_self
        refine ⟨fun hm => .inr (hmem (hm.resolve_left hv.noEscape)), fun depth => ?_⟩
        rw [Stretch.written, hv.nested.level, hw.level]
  refine ⟨fun hm => ht.noEscape (hkept.1 hm), ?_⟩
  unfold Text.Nested
  rw [hkept.2]
  exact ht.nested

theorem tidy_of_family (h : Resolve.family ctx f t s = .ok u s') (ht : t.Tidy)
    (hs : s.macros.Tidy) (hreads : ∀ a ∈ stageAttempts ctx f t s, a.site.ReadsTidy ctx) :
    u.Tidy ∧ s'.macros.Tidy := by
  have hsite (a) (ha : a ∈ stageAttempts ctx f t s) (s v s') (hs : s.macros.Tidy)
      (hgives : Resolve.Gives ctx a.site s v s') : v.Tidy ∧ s'.macros.Tidy := by
    obtain ⟨-, before, w, behind, htext, -, -, hshaped⟩ := shaped_of_attempts ha
    refine Resolve.tidy_of_gives hgives (fun u hu => ⟨fun hm => ?_, ?_⟩) (hreads a ha) hs
    · have hw := hshaped.subset u hu hm
      rw [htext] at ht
      exact ht.noEscape (List.mem_append_left _ (List.mem_append_right _ hw))
    · exact hshaped.nested_of_mem u hu
  obtain ⟨hs', vs, hvs, rfl, -⟩ := becomes_of_family (fun s => s.macros.Tidy)
    (fun _ _ v => v.Tidy) h (fun s s' hss' hs => by rw [hss'.macros]; exact hs) hs hsite
  refine ⟨tidy_of_becomes hvs (fun d us w hmem => (Stretch.shaped_of_mem hmem).2.nested) ?_, hs'⟩
  rw [Stretch.flatMap_written_of_becomes hvs]
  exact ht

/-- What a family gives is what its stage settles, but for the last stage if a substitution
waits. -/
theorem tidy_of_bareStage (h : bareStage ctx f t s = .ok u s') (ht : t.Tidy)
    (hs : s.macros.Tidy) (hreads : ∀ a ∈ stageAttempts ctx f t s, a.site.ReadsTidy ctx)
    (hidle : f ≠ .replacements ∨ ∀ v s₁, Resolve.family ctx f t s = .ok v s₁ → s₁.pending = []) :
    u.Tidy ∧ s'.macros.Tidy := by
  rcases hidle with hf | hpending
  · rw [bareStage_of_ne hf] at h
    exact tidy_of_family h ht hs hreads
  · obtain ⟨v, s₁, hfamily, hrest⟩ := family_of_bareStage h
    obtain ⟨rfl, halike⟩ := hrest (hpending v s₁ hfamily)
    rw [halike.macros]
    exact tidy_of_family hfamily ht hs hreads

/-- A stage that succeeds leaves a tidy buffer and tidy bodies of macros. -/
theorem tidy_of_stage (h : stage ctx t f s = .ok u s') (ht : t.Tidy)
    (hs : s.macros.Tidy) (hreads : ∀ a ∈ stageAttempts ctx f t s, a.site.ReadsTidy ctx)
    (hidle : f ≠ .replacements ∨ ∀ v s₁, Resolve.family ctx f t s = .ok v s₁ → s₁.pending = []) :
    u.Tidy ∧ s'.macros.Tidy := by
  obtain ⟨v, s₁, hbare, halike, rfl, -, -⟩ := eq_of_stage h
  obtain ⟨hv, hs₁⟩ := tidy_of_bareStage hbare ht hs hreads hidle
  rw [Scheme.protect_of_notMem hv.noEscape, halike.macros]
  exact ⟨hv, hs₁⟩

/-- A stage that fails has not come to a block left open, nor to a brace too many. -/
theorem misnested_of_stage (h : stage ctx t f s = .error e s') (ht : t.Tidy)
    (hs : s.macros.Tidy) (hreads : ∀ a ∈ stageAttempts ctx f t s, a.site.ReadsTidy ctx)
    (hidle : f ≠ .replacements ∨ ∀ v s₁, Resolve.family ctx f t s = .ok v s₁ → s₁.pending = []) :
    e.misnested = false := by
  cases fails_of_stage h with
  | fault offset hf =>
    exact misnested_ofBlockFault (Stretch.problem_of_fault ht.nested hf) ..
  | refused ha _ h => exact misnested_of_refuses h (hreads _ ha)
  | unsubstituted _ _ _ h => cases h <;> rfl
  | unsettled hbare h =>
    exact misnested_of_unsettled h (tidy_of_bareStage hbare ht hs hreads hidle).1

/-! ## Runs -/

/-- Stages that resolve no replacement keep the buffer and the bodies of macros tidy, and do not
end in one of the two errors. -/
theorem stages_nested (ht : t.Tidy) (hs : s.macros.Tidy) (hpending : s.pending = [])
    (hattempts : ∀ a ∈ stagesAttempts ctx fs t s, a.site.ReadsTidy ctx ∧
      (a.text?.isSome → a.site.directive ≠ .replaceAll)) :
    (∀ u s', fs.foldlM (stage ctx) t s = .ok u s' → u.Tidy ∧ s'.macros.Tidy) ∧
    (∀ e s', fs.foldlM (stage ctx) t s = .error e s' → e.misnested = false) := by
  induction fs generalizing t s with
  | nil =>
    constructor
    · intro u s' h
      cases h
      exact ⟨ht, hs⟩
    · intro e s' h
      cases h
  | cons f fs ih =>
    rw [stagesAttempts] at hattempts
    obtain ⟨hfirst, hothers⟩ := List.forall_mem_append.1 hattempts
    have hreads (a) (ha : a ∈ stageAttempts ctx f t s) := (hfirst a ha).1
    have hidle (v s₁) (hfamily : Resolve.family ctx f t s = .ok v s₁) : s₁.pending = [] :=
      pending_of_family hfamily hpending fun a ha => (hfirst a ha).2
    rw [List.foldlM_cons]
    cases hstage : stage ctx t f s with
    | error e s₁ =>
      rw [bind_of_error hstage]
      constructor
      · intro u s' h
        cases h
      · intro e' s' h
        cases h
        exact misnested_of_stage hstage ht hs hreads (.inr hidle)
    | ok v s₁ =>
      rw [hstage] at hothers
      rw [bind_of_ok hstage]
      obtain ⟨hv, hs₁⟩ := tidy_of_stage hstage ht hs hreads (.inr hidle)
      exact ih hv hs₁ (pending_of_stage hstage hpending) hothers

theorem misnested_of_converges {fuel : Nat} {as : List Attempt}
    {r : EStateM.Result Failure RunState Text} (h : Converges ctx fuel t s as r)
    (hr : r = .error e s') (ht : t.Tidy) (hs : s.macros.Tidy) (hpending : s.pending = [])
    (hattempts : ∀ a ∈ as, a.site.ReadsTidy ctx ∧
      (a.text?.isSome → a.site.directive ≠ .replaceAll)) : e.misnested = false := by
  induction h with
  | resolved => cases hr
  | exhausted | refused =>
    cases hr
    rfl
  | @failed _ _ s _ _ _ _ hpass =>
    cases hr
    exact (stages_nested (s := s.nextPass) ht hs hpending hattempts).2 _ _ hpass
  | @pass _ _ _ s _ _ _ _ _ hpass _ ih =>
    obtain ⟨hfirst, hothers⟩ := List.forall_mem_append.1 hattempts
    obtain ⟨hu, hs₁⟩ := (stages_nested (s := s.nextPass) ht hs hpending hfirst).1 _ _ hpass
    exact ih hr hu hs₁ (pending_of_stages hpass hpending) hothers

end Preprocess

/-- Every stage but the last keeps a tidy buffer tidy, and the bodies of macros with it, and ends
neither with a block left open nor with a brace too many. And so does no run that begins with a
nested protected source and resolves no replacement, as long as the files are what they should
be. -/
theorem preprocess_nested (ctx : Context) :
    (∀ f t s, f ≠ .replacements → t.Tidy → Macros.Tidy s.macros →
      (∀ a ∈ Preprocess.stageAttempts ctx f t s, a.site.ReadsTidy ctx) →
      (∀ u s', Preprocess.stage ctx t f s = .ok u s' → u.Tidy ∧ Macros.Tidy s'.macros) ∧
      ∀ e s', Preprocess.stage ctx t f s = .error e s' → e.misnested = false) ∧
    ∀ t, (Scheme.document.protect t).Nested →
      (∀ a ∈ history ctx t, a.site.ReadsTidy ctx) → ¬Resolves ctx t .replaceAll →
      ∀ e s, preprocess ctx t = .error e s → e.misnested = false := by
  refine ⟨fun f t s hf ht hs hreads =>
    ⟨fun u s' h => Preprocess.tidy_of_stage h ht hs hreads (.inl hf),
      fun e s' h => Preprocess.misnested_of_stage h ht hs hreads (.inl hf)⟩, ?_⟩
  intro t hnested hreads hnone e s h
  unfold preprocess at h
  rw [EStateM.run, Preprocess.source_eq] at h
  rcases Preprocess.settle_cases ctx t {} with ⟨s₁, hsettle, hs₁, hfault, -⟩ | ⟨e', s₁, hsettle, he⟩
  · rw [bind_of_ok hsettle] at h
    have hattempts (a) (ha : a ∈ Preprocess.convergeAttempts ctx (Preprocess.fuel ctx)
        (Scheme.document.protect t) s₁) : a.site.ReadsTidy ctx ∧
        (a.text?.isSome → a.site.directive ≠ .replaceAll) := by
      have ha : a ∈ history ctx t := by
        rw [history, historyFrom, hsettle]
        exact ha
      exact ⟨hreads a ha, fun hsome hd => hnone ⟨a, ha, hd, hsome⟩⟩
    have hmacros : s₁.macros.Tidy := by
      rw [hs₁.macros]
      exact nofun
    rcases bind_eq_error.1 h with h | ⟨v, s₂, -, h⟩
    · exact Preprocess.misnested_of_converges (Preprocess.converges ..) h
        ⟨Scheme.notMem_protect hfault, hnested⟩ hmacros hs₁.pending hattempts
    · cases h
  · rw [bind_of_error hsettle] at h
    cases h
    cases he with
    | escape => exact Preprocess.misnested_escapeDiagnostic ..
    | unbalanced _ hbraces => exact absurd hnested.braces_eq hbraces

theorem preprocess_nested_macro :
    (∃ s, Preprocess.stage {} ".define_macro\x7ba\x7d\x7bx\x7by\x7d\x7d.macro\x7ba\x7d".toList
        .macros {} = .ok "x\x7by\x7d".toList s ∧ Text.Tidy "x\x7by\x7d".toList ∧
      Macros.Tidy s.macros) ∧
    (∃ e s, Preprocess.stage {} ".macro\x7ba\x7d".toList .macros {} = .error e s ∧
      e.misnested = false) ∧
    ∃ e s, preprocess {} ".macro\x7ba\x7d".toList = .error e s ∧ e.misnested = false := by
  have hreads {as : List Attempt} (h : (as.all fun a => decide (a.site.directive ≠ .includeFile ∧
      a.site.directive ≠ .importTable)) = true) : ∀ a ∈ as, a.site.ReadsTidy {} := fun a ha =>
    Site.readsTidy_of_ne {} (of_decide_eq_true (List.all_eq_true.1 h a ha))
  obtain ⟨s, hok⟩ := Run.exists_of_value? (r := Preprocess.stage {}
    ".define_macro\x7ba\x7d\x7bx\x7by\x7d\x7d.macro\x7ba\x7d".toList .macros {})
    (a := "x\x7by\x7d".toList) (by decide +kernel)
  obtain ⟨s₁, herror⟩ := Run.exists_of_failure? (r := Preprocess.stage {}
    ".macro\x7ba\x7d".toList .macros {}) (e := .diagnostic ⟨.directive, "<input>".toList, some 1,
      .undefinedMacro ['a']⟩) (by decide +kernel)
  obtain ⟨s₂, hrun⟩ := Run.exists_of_failure? (r := preprocess {} ".macro\x7ba\x7d".toList)
    (e := .diagnostic ⟨.directive, "<input>".toList, some 1, .undefinedMacro ['a']⟩)
    (by decide +kernel)
  have hnone : ¬Resolves {} ".macro\x7ba\x7d".toList .replaceAll := by
    rintro ⟨a, ha, hd, -⟩
    have hall : ((history {} ".macro\x7ba\x7d".toList).all fun a =>
      decide (a.site.directive ≠ .replaceAll)) = true := by decide +kernel
    exact of_decide_eq_true (List.all_eq_true.1 hall a ha) hd
  have hstage := ((preprocess_nested {}).1 .macros
    ".define_macro\x7ba\x7d\x7bx\x7by\x7d\x7d.macro\x7ba\x7d".toList {} nofun
    ⟨by decide, by decide +kernel⟩ nofun (hreads (by decide +kernel))).1 _ s hok
  have hfailed := ((preprocess_nested {}).1 .macros ".macro\x7ba\x7d".toList {} nofun
    ⟨by decide, by decide +kernel⟩ nofun (hreads (by decide +kernel))).2 _ s₁ herror
  have hended := (preprocess_nested {}).2 ".macro\x7ba\x7d".toList (by decide +kernel)
    (hreads (by decide +kernel)) hnone _ s₂ hrun
  exact ⟨⟨s, hok, hstage⟩, ⟨_, s₁, herror, hfailed⟩, ⟨_, s₂, hrun, hended⟩⟩

/-- A nested body with a backslash: once it stands in the buffer, protection takes its opening
brace away and leaves the closing one. -/
theorem stage_unbalanced :
    '\\' ∉ ".macro\x7ba\x7d".toList ∧ Text.Nested ".macro\x7ba\x7d".toList ∧
    Text.Nested "\\\x7b\x7d".toList ∧
    (∀ a ∈ Preprocess.stageAttempts {} .macros ".macro\x7ba\x7d".toList
      { macros := [(['a'], "\\\x7b\x7d".toList)] }, a.site.ReadsTidy {}) ∧
    ∃ s, Preprocess.stage {} ".macro\x7ba\x7d".toList .macros
        { macros := [(['a'], "\\\x7b\x7d".toList)] } =
      .error (.diagnostic ⟨.directive, "<input>".toList, none, .unbalanced 0 1⟩) s := by
  refine ⟨by decide, by decide +kernel, by decide +kernel, fun a ha => ?_,
    Run.exists_of_failure? (by decide +kernel)⟩
  have hall : ((Preprocess.stageAttempts {} .macros ".macro\x7ba\x7d".toList
      { macros := [(['a'], "\\\x7b\x7d".toList)] }).all fun a =>
      decide (a.site.directive ≠ .includeFile ∧ a.site.directive ≠ .importTable)) = true := by
    decide +kernel
  exact Site.readsTidy_of_ne {} (of_decide_eq_true (List.all_eq_true.1 hall a ha))

end Bracemark
