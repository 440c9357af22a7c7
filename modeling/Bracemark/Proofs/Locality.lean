import Bracemark.Proofs.Boundaries
import Bracemark.Proofs.Following
import Bracemark.Proofs.Termination

/-!
# Locality

Macros are shared by a whole document, and a replacement is carried out all over the buffer. Every
other directive concerns the place where it stands. So if two sources are preprocessed and neither
run resolves a directive of the shared kinds, then they are preprocessed alike one above the other
(`preprocess_append`).

The runs of the parts need not take the same number of passes. A part that has come to its end
holds no directive and is left alone by every further pass, so each pass over both is one over
each, and there are as many as the longer run has (`Preprocess.Passes.append`).
-/

namespace Bracemark

/-- The directives that reach beyond the place where they stand. -/
def Directive.shared : List Directive := [.defineMacro, .useMacro, .replaceAll]

/-- A state without macros in which no substitution waits. -/
structure RunState.Clear (s : RunState) : Prop where
  macros : s.macros = []
  pending : s.pending = []

namespace RunState.Clear

variable {s t : RunState}

theorem agrees (hs : s.Clear) (ht : t.Clear) : s.Agrees t :=
  ⟨ht.macros.trans hs.macros.symm, ht.pending.trans hs.pending.symm⟩

theorem of_agrees (hs : s.Clear) (h : s.Agrees t) : t.Clear :=
  ⟨h.macros.trans hs.macros, h.pending.trans hs.pending⟩

theorem of_alike (hs : s.Clear) (h : s.Alike t) : t.Clear := hs.of_agrees (.of_alike h)

end RunState.Clear

/-! ## One family -/

/-- Only the shared directives change more than warnings and progress. -/
theorem Resolve.alike_of_gives {ctx : Context} {site : Site} {s s' : RunState} {v : Text}
    (h : Gives ctx site s v s') (hd : site.directive ∉ Directive.shared) : s.Alike s' := by
  unfold Gives at h
  cases hdirective : site.directive with
  | defineMacro | replaceAll =>
    rw [hdirective] at hd
    exact absurd (by decide) hd
  | useMacro | link =>
    simp only [hdirective] at h
    exact h.2
  | format =>
    simp only [hdirective] at h
    exact h.2.2
  | includeFile | importTable | codePoint =>
    simp only [hdirective] at h
    exact h.1

namespace Stretch

theorem exists_becomes {P : Directive → List Text → Text → Prop} {ws : List Stretch}
    {vs : List Text} (h : List.Forall₂ (Becomes P) ws vs) {w : Stretch} (hw : w ∈ ws) :
    ∃ v, Becomes P w v := by
  induction h with
  | nil => cases hw
  | @cons x v ws vs hx _ ih =>
    rcases List.mem_cons.1 hw with rfl | hw
    · exact ⟨v, hx⟩
    · exact ih hw

end Stretch

namespace Preprocess

variable {ctx : Context} {f : Family} {fs : List Family} {u v u' v' : Text}
  {s t r s' t' : RunState}

/-- A family that takes up no shared directive finds all blocks, and changes nothing in a clear
state. -/
theorem clear_of_family (h : Resolve.family ctx f u s = .ok u' s') (hs : s.Clear)
    (hlocal : ∀ a ∈ stageAttempts ctx f u s, a.site.directive ∉ Directive.shared) :
    s'.Clear ∧ Stretch.Sound f u ∧
      ∀ d us w, .site d us w ∈ Stretch.ofText f u → d ∉ Directive.shared := by
  obtain ⟨hs', vs, hvs, -, -⟩ := becomes_of_family (fun s => s.Clear)
    (fun d _ _ => d ∉ Directive.shared) h (fun s s' hss' hs => hs.of_alike hss') hs
    fun a ha s v s' hs hgives =>
      ⟨hlocal a ha, hs.of_alike (Resolve.alike_of_gives hgives (hlocal a ha))⟩
  refine ⟨hs', fun f hf => ?_, fun d us w hw => ?_⟩
  · obtain ⟨v, hv⟩ := Stretch.exists_becomes hvs hf
    exact hv
  · obtain ⟨v, hv⟩ := Stretch.exists_becomes hvs hw
    exact hv

/-- What is taken up is a site among the stretches. -/
theorem notMem_shared_of_attempts
    (h : ∀ d us w, .site d us w ∈ Stretch.ofText f u → d ∉ Directive.shared) :
    ∀ a ∈ stageAttempts ctx f u s, a.site.directive ∉ Directive.shared := by
  intro a ha
  have hmem := Resolve.site_mem_of_attempts ha
  rw [Site.scan_eq_located] at hmem
  obtain ⟨before, w, behind, hws, -⟩ := Stretch.mem_of_mem_located hmem
  refine h _ a.site.arguments w ?_
  rw [hws]
  exact List.mem_append_right _ List.mem_cons_self

/-- What a family gives for two texts it gives for both, one above the other. -/
theorem family_append (hu : Resolve.family ctx f u s = .ok u' s')
    (hv : Resolve.family ctx f v t = .ok v' t') (hs : s.Clear) (ht : t.Clear) (hr : r.Clear)
    (hulocal : ∀ a ∈ stageAttempts ctx f u s, a.site.directive ∉ Directive.shared)
    (hvlocal : ∀ a ∈ stageAttempts ctx f v t, a.site.directive ∉ Directive.shared) :
    (∃ r', Resolve.family ctx f (u ++ '\n' :: v) r = .ok (u' ++ '\n' :: v') r' ∧ r'.Clear) ∧
      ∀ a ∈ stageAttempts ctx f (u ++ '\n' :: v) r, a.site.directive ∉ Directive.shared := by
  obtain ⟨hs', husound, husites⟩ := clear_of_family hu hs hulocal
  obtain ⟨ht', -, hvsites⟩ := clear_of_family hv ht hvlocal
  obtain ⟨s₁, hures, hs₁⟩ := Resolve.resolve_of_family hu
  obtain ⟨t₁, hvres, ht₁⟩ := Resolve.resolve_of_family hv
  have hshared : .replaceAll ∈ Directive.shared := by decide
  -- the stretches of both texts give what they gave, now in one buffer
  obtain ⟨r₁, hfirst, hr₁⟩ := (Stretch.resolve_follows ctx u (u ++ '\n' :: v) 0 0
    (.inl fun us w hw => husites _ us w hw hshared)).of_ok (hs.agrees hr) hures
  have hr₁ : r₁.Clear := (hs'.of_agrees (RunState.Agrees.of_alike hs₁).symm).of_agrees hr₁
  have hbehind (start : Nat) : ∃ r₂,
      Stretch.resolve ctx (u ++ '\n' :: v) start (Stretch.ofText f v) r₁ = .ok v' r₂ ∧
        r₂.Clear := by
    obtain ⟨r₂, hsecond, hr₂⟩ := (Stretch.resolve_follows ctx v (u ++ '\n' :: v) 0 start
      (.inl fun us w hw => hvsites _ us w hw hshared)).of_ok (ht.agrees hr₁) hvres
    exact ⟨r₂, hsecond, (ht'.of_agrees (RunState.Agrees.of_alike ht₁).symm).of_agrees hr₂⟩
  obtain ⟨r₂, hsecond, hr₂⟩ := hbehind _
  have hofText := Stretch.ofText_append_cons Text.isBoundary_newline husound v
  have hwhole : Stretch.resolve ctx (u ++ '\n' :: v) 0 (Stretch.ofText f (u ++ '\n' :: v)) r =
      .ok (u' ++ '\n' :: v') r₂ := by
    rw [hofText]
    exact Stretch.resolve_append_eq_ok.2 ⟨u', _, r₁, hfirst, bind_of_ok hsecond, rfl⟩
  obtain ⟨r₃, hfamily, hr₃⟩ := Resolve.family_of_resolve hwhole
  refine ⟨⟨r₃, hfamily, hr₂.of_alike hr₃⟩, notMem_shared_of_attempts fun d us w hmem => ?_⟩
  rw [hofText, List.mem_append, List.mem_cons] at hmem
  rcases hmem with hmem | hmem | hmem
  · exact husites d us w hmem
  · cases hmem
  · exact hvsites d us w hmem

/-! ## One stage, one pass -/

theorem clear_of_stage (h : stage ctx u f s = .ok u' s') (hs : s.Clear)
    (hlocal : ∀ a ∈ stageAttempts ctx f u s, a.site.directive ∉ Directive.shared) : s'.Clear := by
  obtain ⟨w, s₁, hbare, hs₁, -⟩ := eq_of_stage h
  obtain ⟨w', s₂, hfamily, hrest⟩ := family_of_bareStage hbare
  have hclear := (clear_of_family hfamily hs hlocal).1
  exact (hclear.of_alike (hrest hclear.pending).2).of_alike hs₁

theorem stage_append (hu : stage ctx u f s = .ok u' s') (hv : stage ctx v f t = .ok v' t')
    (hs : s.Clear) (ht : t.Clear) (hr : r.Clear)
    (hulocal : ∀ a ∈ stageAttempts ctx f u s, a.site.directive ∉ Directive.shared)
    (hvlocal : ∀ a ∈ stageAttempts ctx f v t, a.site.directive ∉ Directive.shared) :
    (∃ r', stage ctx (u ++ '\n' :: v) f r = .ok (u' ++ '\n' :: v') r' ∧ r'.Clear) ∧
      ∀ a ∈ stageAttempts ctx f (u ++ '\n' :: v) r, a.site.directive ∉ Directive.shared := by
  obtain ⟨w, s₁, hubare, -, rfl, hufault, hubraces⟩ := eq_of_stage hu
  obtain ⟨x, t₁, hvbare, -, rfl, hvfault, hvbraces⟩ := eq_of_stage hv
  obtain ⟨w', s₂, hufamily, hurest⟩ := family_of_bareStage hubare
  obtain ⟨x', t₂, hvfamily, hvrest⟩ := family_of_bareStage hvbare
  -- no substitution waits, so the last stage does no more than the others
  obtain ⟨rfl, -⟩ := hurest (clear_of_family hufamily hs hulocal).1.pending
  obtain ⟨rfl, -⟩ := hvrest (clear_of_family hvfamily ht hvlocal).1.pending
  obtain ⟨⟨r₁, hfamily, hr₁⟩, hlocal⟩ :=
    family_append hufamily hvfamily hs ht hr hulocal hvlocal
  have hprotect := Scheme.protect_append_cons hufault hvfault
  obtain ⟨r₂, hstage, hr₂⟩ := stage_of_family hfamily (fun _ => hr₁.pending)
    ((Scheme.fault?_append_cons_iff rfl).2 ⟨hufault, hvfault⟩) (by
      rw [hprotect, Text.braces_append_cons]
      simp only
      omega)
  rw [hprotect] at hstage
  exact ⟨⟨r₂, hstage, hr₁.of_alike hr₂⟩, hlocal⟩

theorem stages_append (hu : fs.foldlM (stage ctx) u s = .ok u' s')
    (hv : fs.foldlM (stage ctx) v t = .ok v' t') (hs : s.Clear) (ht : t.Clear) (hr : r.Clear)
    (hulocal : ∀ a ∈ stagesAttempts ctx fs u s, a.site.directive ∉ Directive.shared)
    (hvlocal : ∀ a ∈ stagesAttempts ctx fs v t, a.site.directive ∉ Directive.shared) :
    (∃ r', fs.foldlM (stage ctx) (u ++ '\n' :: v) r = .ok (u' ++ '\n' :: v') r') ∧
      ∀ a ∈ stagesAttempts ctx fs (u ++ '\n' :: v) r, a.site.directive ∉ Directive.shared := by
  induction fs generalizing u v s t r with
  | nil =>
    cases hu
    cases hv
    exact ⟨⟨r, rfl⟩, nofun⟩
  | cons f fs ih =>
    rw [List.foldlM_cons] at hu hv
    obtain ⟨u₁, s₁, hustage, hu⟩ := bind_eq_ok.1 hu
    obtain ⟨v₁, t₁, hvstage, hv⟩ := bind_eq_ok.1 hv
    rw [stagesAttempts, hustage] at hulocal
    rw [stagesAttempts, hvstage] at hvlocal
    obtain ⟨hufirst, huothers⟩ := List.forall_mem_append.1 hulocal
    obtain ⟨hvfirst, hvothers⟩ := List.forall_mem_append.1 hvlocal
    obtain ⟨⟨r₁, hstage, hr₁⟩, hfirst⟩ := stage_append hustage hvstage hs ht hr hufirst hvfirst
    obtain ⟨⟨r', hrest⟩, hothers⟩ := ih hu hv (clear_of_stage hustage hs hufirst)
      (clear_of_stage hvstage ht hvfirst) hr₁ huothers hvothers
    rw [List.foldlM_cons, bind_of_ok hstage, stagesAttempts, hstage]
    exact ⟨⟨r', hrest⟩, List.forall_mem_append.2 ⟨hfirst, hothers⟩⟩

/-! ## Texts that are resolved -/

/-- Stages find nothing to do in a settled text without directives. -/
theorem stages_of_resolved (hu : u.Settled) (hresolved : u.hasDirective = false)
    (hs : s.pending = []) :
    stagesAttempts ctx fs u s = [] ∧ ∃ s', fs.foldlM (stage ctx) u s = .ok u s' ∧ s.Alike s' := by
  induction fs generalizing s with
  | nil => exact ⟨rfl, s, rfl, .refl s⟩
  | cons f fs ih =>
    have hofText := Stretch.ofText_of_lacks (Text.lacks_of_hasDirective hresolved f)
    have hscan : Site.scan f u = [] := by
      rw [Site.scan_eq_located, hofText, ← List.append_nil (u.map Stretch.kept),
        Stretch.located_kept]
      rfl
    have hresolve : Stretch.resolve ctx u 0 (Stretch.ofText f u) s = .ok u s := by
      rw [hofText, Stretch.resolve_map_kept]
      rfl
    obtain ⟨s₁, hfamily, hs₁⟩ := Resolve.family_of_resolve hresolve
    have hprotect := Scheme.protect_of_notMem (s := .document) hu.noEscape
    obtain ⟨s₂, hstage, hs₂⟩ := stage_of_family hfamily (fun _ => hs₁.pending.trans hs)
      (Scheme.fault?_of_notMem hu.noEscape) (by rw [hprotect]; exact hu.balanced)
    rw [hprotect] at hstage
    have halike := hs₁.trans hs₂
    obtain ⟨hattempts, s', hrest, hs'⟩ := ih (halike.pending.trans hs)
    rw [stagesAttempts, stageAttempts, hscan, List.foldlM_cons, bind_of_ok hstage, hstage]
    exact ⟨hattempts, s', hrest, halike.trans hs'⟩

theorem pass_of_resolved (ctx : Context) (hu : u.Settled) (hresolved : u.hasDirective = false)
    (hs : s.pending = []) :
    passAttempts ctx u s = [] ∧ ∃ s', pass ctx u s = .ok u s' ∧ s.Alike s' :=
  stages_of_resolved hu hresolved hs

/-! ## Passes -/

/-- A text becomes another in a number of passes that take up no shared directive, each one from a
clear state. -/
inductive Passes (ctx : Context) : Nat → Text → Text → Prop where
  | done {u : Text} (resolved : u.hasDirective = false) : Passes ctx 0 u u
  | pass {k : Nat} {u v w : Text} {s s' : RunState} (unresolved : u.hasDirective = true)
      (clear : s.Clear) (run : Preprocess.pass ctx u s = .ok v s')
      (isLocal : ∀ a ∈ passAttempts ctx u s, a.site.directive ∉ Directive.shared)
      (rest : Passes ctx k v w) : Passes ctx (k + 1) u w

theorem clear_of_stages (h : fs.foldlM (stage ctx) u s = .ok u' s') (hs : s.Clear)
    (hlocal : ∀ a ∈ stagesAttempts ctx fs u s, a.site.directive ∉ Directive.shared) : s'.Clear := by
  induction fs generalizing u s with
  | nil =>
    cases h
    exact hs
  | cons f fs ih =>
    rw [List.foldlM_cons] at h
    obtain ⟨v, s₁, hstage, h⟩ := bind_eq_ok.1 h
    rw [stagesAttempts, hstage] at hlocal
    obtain ⟨hfirst, hothers⟩ := List.forall_mem_append.1 hlocal
    exact ih h (clear_of_stage hstage hs hfirst) hothers

/-- A pass over two texts, each of which has one of its own. -/
theorem pass_append (hu : pass ctx u s = .ok u' s') (hv : pass ctx v t = .ok v' t') (hs : s.Clear)
    (ht : t.Clear) (hulocal : ∀ a ∈ passAttempts ctx u s, a.site.directive ∉ Directive.shared)
    (hvlocal : ∀ a ∈ passAttempts ctx v t, a.site.directive ∉ Directive.shared)
    (hdirective : (u ++ '\n' :: v).hasDirective = true) {k : Nat} {w : Text}
    (hrest : Passes ctx k (u' ++ '\n' :: v') w) : Passes ctx (k + 1) (u ++ '\n' :: v) w := by
  obtain ⟨⟨r', hpass⟩, hlocal⟩ := stages_append hu hv hs ht hs hulocal hvlocal
  exact .pass hdirective hs hpass hlocal hrest

/-- One above the other, two texts need as many passes as the one that needs more. -/
theorem Passes.append {k l : Nat} (hu : Passes ctx k u u') (hv : Passes ctx l v v')
    (husettled : u.Settled) (hvsettled : v.Settled) :
    Passes ctx (max k l) (u ++ '\n' :: v) (u' ++ '\n' :: v') := by
  have hjoined (u v : Text) := Text.hasDirective_append_cons Text.isBoundary_newline u v
  have hclear : RunState.Clear {} := ⟨rfl, rfl⟩
  induction hu generalizing l v with
  | @done u hu =>
    induction hv with
    | @done v hv =>
      refine .done ?_
      rw [hjoined, hu, hv]
      rfl
    | @pass l v v₁ v' t t' hv ht hpass hlocal _ ih =>
      -- the text that is done has a pass of its own, in which nothing is taken up
      obtain ⟨hnone, s, hidle, -⟩ := pass_of_resolved ctx husettled hu hclear.pending
      rw [Nat.zero_max] at ih ⊢
      refine pass_append hidle hpass hclear ht (by rw [hnone]; exact nofun) hlocal ?_
        (ih (settled_of_stages hvsettled hpass))
      rw [hjoined, hv, Bool.or_true]
  | @pass k u u₁ u' s s' hu hs hpass hlocal _ ih =>
    have husettled₁ := settled_of_stages husettled hpass
    cases hv with
    | done hv =>
      obtain ⟨hnone, t, hidle, -⟩ := pass_of_resolved ctx hvsettled hv hclear.pending
      have hrest := ih (.done hv) husettled₁ hvsettled
      rw [Nat.max_zero] at hrest ⊢
      refine pass_append hpass hidle hs hclear hlocal (by rw [hnone]; exact nofun) ?_ hrest
      rw [hjoined, hu, Bool.true_or]
    | @pass l _ v₁ _ t t' hv ht hvpass hvlocal hvrest =>
      have hrest := ih hvrest husettled₁ (settled_of_stages hvsettled hvpass)
      rw [Nat.add_max_add_right]
      refine pass_append hpass hvpass hs ht hlocal hvlocal ?_ hrest
      rw [hjoined, hu, Bool.true_or]

/-- A run that takes up no shared directive has gone through passes, within its bounds. -/
theorem passes_of_converges {fuel : Nat} {as : List Attempt}
    {r : EStateM.Result Failure RunState Text} (h : Converges ctx fuel u s as r)
    (hr : r = .ok u' s') (hs : s.Clear)
    (hlocal : ∀ a ∈ as, a.site.directive ∉ Directive.shared) :
    ∃ k, Passes ctx k u u' ∧ k ≤ fuel ∧ s'.passes = s.passes + k ∧
      (0 < k → ctx.settings.maxPasses = 0 ∨ s.passes + k ≤ ctx.settings.maxPasses) := by
  induction h with
  | resolved hdirective =>
    cases hr
    exact ⟨0, .done hdirective, Nat.zero_le _, rfl, by omega⟩
  | exhausted | refused | failed => cases hr
  | @pass _ u _ s s₁ _ _ hdirective hbegin hpass _ ih =>
    obtain ⟨hfirst, hothers⟩ := List.forall_mem_append.1 hlocal
    have hclear : s.nextPass.Clear := ⟨hs.macros, hs.pending⟩
    have hcount : s₁.passes = s.passes + 1 := (pass_uncounted ctx u).of_ok hpass
    obtain ⟨k, hpasses, hk, hs', hbound⟩ := ih hr (clear_of_stages hpass hclear hfirst) hothers
    refine ⟨k + 1, .pass hdirective hclear hpass hfirst hpasses, by omega, by omega, ?_⟩
    intro _
    by_cases hk : 0 < k
    · have := hbound hk
      omega
    · omega

theorem converge_of_passes {k fuel : Nat} (h : Passes ctx k u u') (hk : k ≤ fuel) (hs : s.Clear)
    (hbound : 0 < k → ctx.settings.maxPasses = 0 ∨ s.passes + k ≤ ctx.settings.maxPasses) :
    ∃ s', converge ctx fuel u s = .ok u' s' ∧ s'.passes = s.passes + k := by
  induction h generalizing fuel s with
  | done hresolved =>
    rw [converge_of_resolved hresolved]
    exact ⟨s, rfl, rfl⟩
  | @pass k u v w t t' hdirective ht hpass hlocal _ ih =>
    cases fuel with
    | zero => omega
    | succ fuel =>
      have hbegin := hbound (Nat.succ_pos k)
      have hclear : s.nextPass.Clear := ⟨hs.macros, hs.pending⟩
      -- the pass gives the same from every clear state
      obtain ⟨s₁, hrun, hs₁⟩ := (stages_follow ctx Family.all u).of_ok (ht.agrees hclear) hpass
      have hcount : s₁.passes = s.passes + 1 := (pass_uncounted ctx u).of_ok hrun
      have hk : k ≤ fuel := by omega
      obtain ⟨s', hrest, hs'⟩ :=
        ih hk ((clear_of_stages hpass ht hlocal).of_agrees hs₁) (by omega)
      exact ⟨s', (converge_eq_ok_iff hdirective).2 ⟨by omega, v, s₁, hrun, hrest⟩, by omega⟩

/-! ## Sources -/

/-- A run that comes to its end has resolved all that it has taken up. -/
theorem isSome_of_converges {fuel : Nat} {as : List Attempt}
    {r : EStateM.Result Failure RunState Text} (h : Converges ctx fuel u s as r)
    (hr : r = .ok u' s') : ∀ a ∈ as, a.text?.isSome := by
  induction h with
  | resolved => exact nofun
  | exhausted | refused | failed => cases hr
  | pass _ _ hpass _ ih => exact List.forall_mem_append.2 ⟨isSome_of_stages hpass, ih hr⟩

/-- A source that is preprocessed without a shared directive. -/
theorem passes_of_preprocess {u u' : Text} {s : RunState} (h : preprocess ctx u = .ok u' s)
    (hlocal : ∀ d ∈ Directive.shared, ¬Resolves ctx u d) :
    Scheme.document.fault? u = none ∧ (Scheme.document.protect u).Settled ∧
      Passes ctx s.passes (Scheme.document.protect u) u' ∧ s.passes ≤ fuel ctx ∧
      (0 < s.passes → ctx.settings.maxPasses = 0 ∨ s.passes ≤ ctx.settings.maxPasses) := by
  obtain ⟨hfault, hbraces, s₁, s₂, hsettle, hs₁, hconverge, hs⟩ := converge_of_source h
  have hattempts (a) (ha : a ∈ convergeAttempts ctx (fuel ctx) (Scheme.document.protect u) s₁) :
      a.site.directive ∉ Directive.shared := by
    intro hd
    refine hlocal _ hd ⟨a, ?_, rfl, isSome_of_converges (converges ..) hconverge a ha⟩
    rw [history, historyFrom, hsettle]
    exact ha
  obtain ⟨k, hpasses, hk, hs₂, hbound⟩ :=
    passes_of_converges (converges ..) hconverge ⟨hs₁.macros, hs₁.pending⟩ hattempts
  have hzero : s₁.passes = 0 := hs₁.passes
  rw [hzero, Nat.zero_add] at hs₂ hbound
  rw [← hs₂, ← hs.passes] at hpasses hk hbound
  exact ⟨hfault, ⟨Scheme.notMem_protect hfault, hbraces⟩, hpasses, hk, hbound⟩

end Preprocess

/-- Two sources that are preprocessed, neither of them with a definition or a use of a macro or
with a replacement, are preprocessed alike one above the other, in as many passes as the longer of
the two runs has. -/
theorem preprocess_append {ctx : Context} {u v u' v' : Text} {s t : RunState}
    (hu : preprocess ctx u = .ok u' s) (hv : preprocess ctx v = .ok v' t)
    (hulocal : ∀ d ∈ Directive.shared, ¬Resolves ctx u d)
    (hvlocal : ∀ d ∈ Directive.shared, ¬Resolves ctx v d) :
    ∃ r, preprocess ctx (u ++ '\n' :: v) = .ok (u' ++ '\n' :: v') r ∧
      r.passes = max s.passes t.passes := by
  obtain ⟨hufault, husettled, hupasses, hs, hsbound⟩ := Preprocess.passes_of_preprocess hu hulocal
  obtain ⟨hvfault, hvsettled, hvpasses, ht, htbound⟩ := Preprocess.passes_of_preprocess hv hvlocal
  have hpasses := hupasses.append hvpasses husettled hvsettled
  have hprotect := Scheme.protect_append_cons hufault hvfault
  have hbraces : (Scheme.document.protect (u ++ '\n' :: v)).braces.1 =
      (Scheme.document.protect (u ++ '\n' :: v)).braces.2 := by
    rw [hprotect, Text.braces_append_cons, husettled.balanced, hvsettled.balanced]
  obtain ⟨r₁, hr₁, hsource⟩ := Preprocess.source_of_converge ctx (s := {}) rfl
    ((Scheme.fault?_append_cons_iff rfl).2 ⟨hufault, hvfault⟩) hbraces
  have hzero : r₁.passes = 0 := hr₁.passes
  obtain ⟨r₂, hconverge, hr₂⟩ := Preprocess.converge_of_passes (s := r₁) hpasses
    (Nat.max_le.2 ⟨hs, ht⟩) ⟨hr₁.macros, hr₁.pending⟩ (by
      rw [hzero]
      omega)
  rw [← hprotect] at hconverge
  obtain ⟨r₃, hr₃, hrun⟩ := hsource _ _ hconverge
  exact ⟨r₃, hrun, by rw [hr₃.passes, hr₂, hzero, Nat.zero_add]⟩

/-- A character in one pass, and two formats in two. -/
theorem preprocess_append_formats :
    ∃ s t r, preprocess {} ".unicode\x7b41\x7d".toList = .ok "A".toList s ∧
      preprocess {} ".format\x7bb\x7d\x7b.format\x7bi\x7d\x7bx\x7d\x7d".toList =
        .ok "<b><i>x</i></b>".toList t ∧
      preprocess {} ".unicode\x7b41\x7d\n.format\x7bb\x7d\x7b.format\x7bi\x7d\x7bx\x7d\x7d".toList =
        .ok "A\n<b><i>x</i></b>".toList r ∧ r.passes = max s.passes t.passes := by
  have hlocal {u : Text} (h : ((history {} u).all fun a =>
      decide (a.site.directive ∉ Directive.shared)) = true) :
      ∀ d ∈ Directive.shared, ¬Resolves {} u d := by
    rintro d hd ⟨a, ha, rfl, -⟩
    exact of_decide_eq_true (List.all_eq_true.1 h a ha) hd
  obtain ⟨s, hs⟩ := Run.exists_of_value? (r := preprocess {} ".unicode\x7b41\x7d".toList)
    (a := "A".toList) (by decide +kernel)
  obtain ⟨t, ht⟩ := Run.exists_of_value?
    (r := preprocess {} ".format\x7bb\x7d\x7b.format\x7bi\x7d\x7bx\x7d\x7d".toList)
    (a := "<b><i>x</i></b>".toList) (by decide +kernel)
  obtain ⟨r, hr, hpasses⟩ := preprocess_append hs ht (hlocal (by decide +kernel))
    (hlocal (by decide +kernel))
  exact ⟨s, t, r, hs, ht, hr, hpasses⟩

end Bracemark
