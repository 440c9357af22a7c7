import Bracemark.Proofs.Outcomes
import Bracemark.Proofs.Sites
import Mathlib.Data.List.Forall2

/-!
# The history of a run

The sites that a run takes up, in order, each with the text that takes its place
(`history`). A site that fails ends the run and is the last one.

The passes over a buffer are also a relation with one case for each way to go on or to end
(`Preprocess.Converges`), so that what holds of one pass is brought to all passes of a run by
induction along them.

What resolving one site preserves, and what it makes of a site, holds of a whole stage:
`Stretch.resolve_ok` says so of a stage that succeeds and `Stretch.resolve_error` of one that
fails.
-/

namespace Bracemark

/-- A site that a run takes up, and the text that takes its place unless it fails. -/
structure Attempt where
  site : Site
  text? : Option Text
  deriving DecidableEq, Repr

/-! ## What a run takes up -/

namespace Resolve

/-- The sites of a scan that are taken up. -/
def attempts (ctx : Context) : List (Except BlockFault Site) → RunState → List Attempt
  | [], _ => []
  | .error _ :: _, _ => []
  | .ok site :: rest, s =>
    match Resolve.site ctx site s with
    | .ok v s' => ⟨site, some v⟩ :: attempts ctx rest s'
    | .error _ _ => [⟨site, none⟩]

theorem site_mem_of_attempts {ctx : Context} {found : List (Except BlockFault Site)}
    {s : RunState} {a : Attempt} (h : a ∈ attempts ctx found s) : .ok a.site ∈ found := by
  induction found generalizing s with
  | nil => cases h
  | cons r rest ih =>
    cases r with
    | error f => cases h
    | ok site =>
      rw [attempts] at h
      split at h
      · rcases List.mem_cons.1 h with rfl | h
        · exact List.mem_cons_self
        · exact List.mem_cons_of_mem _ (ih h)
      · rw [List.mem_singleton.1 h]
        exact List.mem_cons_self

/-- The text of an attempt is one that its site gives. -/
theorem gives_of_attempts {ctx : Context} {found : List (Except BlockFault Site)}
    {s : RunState} {a : Attempt} (h : a ∈ attempts ctx found s) {v : Text}
    (hv : a.text? = some v) : ∃ s₁ s₂, Gives ctx a.site s₁ v s₂ := by
  induction found generalizing s with
  | nil => cases h
  | cons r rest ih =>
    cases r with
    | error f => cases h
    | ok site =>
      rw [attempts] at h
      split at h
      · rename_i v' s' hsite
        rcases List.mem_cons.1 h with rfl | h
        · cases hv
          exact ⟨s, s', gives_of_ok hsite⟩
        · exact ih h
      · rw [List.mem_singleton.1 h] at hv
        cases hv

/-- A scan that is resolved has no site that fails. -/
theorem isSome_of_attempts {ctx : Context} {buffer : Text}
    {found : List (Except BlockFault Site)} {s s' : RunState} {edits : List Edit}
    (h : sites ctx buffer found s = .ok edits s') :
    ∀ a ∈ attempts ctx found s, a.text?.isSome := by
  induction found generalizing s s' edits with
  | nil => exact nofun
  | cons r rest ih =>
    cases r with
    | error f => cases h
    | ok site =>
      obtain ⟨v, s₁, hsite, h⟩ := bind_eq_ok.1 h
      obtain ⟨others, s₂, hrest, -⟩ := bind_eq_ok.1 h
      rw [attempts, hsite]
      exact List.forall_mem_cons.2 ⟨rfl, ih hrest⟩

end Resolve

namespace Preprocess

/-- What is taken up behind a part of a run, if the run gets there. -/
def onward {α : Type} (next : α → RunState → List Attempt) :
    EStateM.Result Failure RunState α → List Attempt
  | .ok a s => next a s
  | .error _ _ => []

def stageAttempts (ctx : Context) (f : Family) (t : Text) (s : RunState) : List Attempt :=
  Resolve.attempts ctx (Site.scan f t) s

def stagesAttempts (ctx : Context) : List Family → Text → RunState → List Attempt
  | [], _, _ => []
  | f :: fs, t, s =>
    stageAttempts ctx f t s ++ onward (stagesAttempts ctx fs) (stage ctx t f s)

def passAttempts (ctx : Context) (t : Text) (s : RunState) : List Attempt :=
  stagesAttempts ctx Family.all t s

def convergeAttempts (ctx : Context) : (fuel : Nat) → Text → RunState → List Attempt
  | 0, _, _ => []
  | fuel + 1, t, s =>
    if t.hasDirective then
      onward (fun _ s => passAttempts ctx t s ++
        onward (convergeAttempts ctx fuel) (pass ctx t s)) (beginPass ctx s)
    else []

/-- The passes over a buffer, with what they take up. They end at a buffer without directives, for
want of fuel, at the bound on passes, or with a pass that fails. -/
inductive Converges (ctx : Context) :
    Nat → Text → RunState → List Attempt → EStateM.Result Failure RunState Text → Prop where
  | resolved {fuel : Nat} {t : Text} {s : RunState} (h : t.hasDirective = false) :
      Converges ctx fuel t s [] (.ok t s)
  | exhausted {t : Text} {s : RunState} (h : t.hasDirective = true) :
      Converges ctx 0 t s [] (.error .outOfPatience s)
  | refused {fuel : Nat} {t : Text} {s : RunState} (h : t.hasDirective = true)
      (hlimit : 0 < ctx.settings.maxPasses ∧ ctx.settings.maxPasses ≤ s.passes) :
      Converges ctx (fuel + 1) t s [] (.error (.diagnostic ⟨.directive, ctx.path, none,
        .notConverged ctx.settings.maxPasses⟩) { s with passes := s.passes + 1 })
  | failed {fuel : Nat} {t : Text} {s s₁ : RunState} {e : Failure} (h : t.hasDirective = true)
      (hbound : ctx.settings.maxPasses = 0 ∨ s.passes < ctx.settings.maxPasses)
      (hpass : pass ctx t s.nextPass = .error e s₁) :
      Converges ctx (fuel + 1) t s (passAttempts ctx t s.nextPass) (.error e s₁)
  | pass {fuel : Nat} {t u : Text} {s s₁ : RunState} {as : List Attempt}
      {r : EStateM.Result Failure RunState Text} (h : t.hasDirective = true)
      (hbound : ctx.settings.maxPasses = 0 ∨ s.passes < ctx.settings.maxPasses)
      (hpass : pass ctx t s.nextPass = .ok u s₁) (hrest : Converges ctx fuel u s₁ as r) :
      Converges ctx (fuel + 1) t s (passAttempts ctx t s.nextPass ++ as) r

theorem converges (ctx : Context) (fuel : Nat) (t : Text) (s : RunState) :
    Converges ctx fuel t s (convergeAttempts ctx fuel t s) (converge ctx fuel t s) := by
  induction fuel generalizing t s with
  | zero =>
    cases h : t.hasDirective with
    | false =>
      rw [converge_of_resolved h]
      exact .resolved h
    | true =>
      rw [converge_zero h]
      exact .exhausted h
  | succ fuel ih =>
    cases h : t.hasDirective with
    | false =>
      rw [convergeAttempts, if_neg (Bool.eq_false_iff.1 h), converge_of_resolved h]
      exact .resolved h
    | true =>
      rw [convergeAttempts, if_pos h, converge_of_hasDirective h]
      by_cases hlimit : 0 < ctx.settings.maxPasses ∧ ctx.settings.maxPasses ≤ s.passes
      · have hbegin := beginPass_eq_error ctx hlimit.1 hlimit.2
        rw [bind_of_error hbegin, hbegin]
        exact .refused h hlimit
      have hbound : ctx.settings.maxPasses = 0 ∨ s.passes < ctx.settings.maxPasses := by omega
      have hbegin := beginPass_eq ctx hbound
      rw [bind_of_ok hbegin, hbegin, onward]
      cases hpass : Preprocess.pass ctx t s.nextPass with
      | error e s₁ =>
        rw [bind_of_error hpass, onward, List.append_nil]
        exact .failed h hbound hpass
      | ok u s₁ =>
        rw [bind_of_ok hpass, onward]
        exact .pass h hbound hpass (ih u s₁)

end Preprocess

/-- What preprocessing a source takes up, going on from the state of a run. -/
def historyFrom (ctx : Context) (t : Text) (s : RunState) : List Attempt :=
  Preprocess.onward (Preprocess.convergeAttempts ctx (Preprocess.fuel ctx))
    (Preprocess.settle ctx t s)

/-- What preprocessing a source in a fresh run takes up. -/
def history (ctx : Context) (t : Text) : List Attempt := historyFrom ctx t {}

/-- Whether a directive of a kind is resolved when a source is preprocessed. -/
def Resolves (ctx : Context) (t : Text) (d : Directive) : Prop :=
  ∃ a ∈ history ctx t, a.site.directive = d ∧ a.text?.isSome

/-! ## What a stage makes of its buffer -/

namespace Stretch

/-- What becomes of a stretch: a character is kept, and for the text of a site `P` holds. -/
def Becomes (P : Directive → List Text → Text → Prop) : Stretch → Text → Prop
  | .kept c, v => v = [c]
  | .site d us _, v => P d us v
  | .fault _, _ => False

/-- Stretches of which something becomes spell the buffer: there is no fault among them. -/
theorem flatMap_written_of_becomes {P : Directive → List Text → Text → Prop} {family : Family}
    {t : Text} {vs : List Text} (h : List.Forall₂ (Becomes P) (ofText family t) vs) :
    (ofText family t).flatMap written = t := by
  refine flatMap_written fun f => ?_
  generalize ofText family t = ws at h
  induction h with
  | nil => exact List.not_mem_nil
  | @cons w v ws vs hw _ ih =>
    intro hf
    rcases List.mem_cons.1 hf with rfl | hf
    · exact hw
    · exact ih hf

theorem located_cons (buffer : Text) (start : Nat) (w : Stretch) (ws : List Stretch) :
    located buffer start (w :: ws) =
      located buffer start [w] ++ located buffer (start + w.written.length) ws := by
  cases w <;> rfl

/-- What is located is one of the stretches, and stands behind what is written in front of it. -/
theorem exists_of_mem_located {buffer : Text} {start : Nat} {ws : List Stretch}
    {r : Except BlockFault Site} (h : r ∈ located buffer start ws) :
    ∃ before w behind, ws = before ++ w :: behind ∧
      r ∈ located buffer (start + (before.flatMap written).length) [w] := by
  induction ws generalizing start with
  | nil => cases h
  | cons w ws ih =>
    rw [located_cons] at h
    rcases List.mem_append.1 h with h | h
    · exact ⟨[], w, ws, rfl, h⟩
    · obtain ⟨before, w', behind, rfl, h⟩ := ih h
      refine ⟨w :: before, w', behind, rfl, ?_⟩
      rwa [List.flatMap_cons, List.length_append, ← Nat.add_assoc]

theorem mem_of_mem_located {buffer : Text} {start : Nat} {ws : List Stretch} {site : Site}
    (h : .ok site ∈ located buffer start ws) :
    ∃ before w behind, ws = before ++ .site site.directive site.arguments w :: behind ∧
      site.start = start + (before.flatMap written).length ∧
      site.stop = site.start + w.length ∧ site.line = buffer.lineAt site.start := by
  obtain ⟨before, w, behind, rfl, hw⟩ := exists_of_mem_located h
  cases w with
  | kept c => cases hw
  | site d us w =>
    cases List.mem_singleton.1 hw
    exact ⟨before, w, behind, rfl, rfl, rfl, rfl⟩
  | fault f => cases List.mem_singleton.1 hw

variable {ctx : Context} {buffer : Text} {Inv : RunState → Prop}
  {P : Directive → List Text → Text → Prop} {start : Nat} {ws : List Stretch} {s s' : RunState}

/-- If every site that is taken up keeps `Inv` and gives a text with `P`, then so do the
stretches of a buffer, one after the other. -/
theorem resolve_ok {u : Text} (h : resolve ctx buffer start ws s = .ok u s') (hs : Inv s)
    (hsite : ∀ a ∈ Resolve.attempts ctx (located buffer start ws) s, ∀ s v s', Inv s →
      Resolve.Gives ctx a.site s v s' → P a.site.directive a.site.arguments v ∧ Inv s') :
    Inv s' ∧ ∃ vs, List.Forall₂ (Becomes P) ws vs ∧ u = vs.flatten ∧
      (Resolve.attempts ctx (located buffer start ws) s).length = siteCount ws := by
  induction ws generalizing start s u with
  | nil =>
    cases h
    exact ⟨hs, [], .nil, rfl, rfl⟩
  | cons w ws ih =>
    cases w with
    | fault f => cases h
    | kept c =>
      obtain ⟨others, s₁, hrest, h⟩ := bind_eq_ok.1 h
      cases h
      obtain ⟨hinv, vs, hvs, rfl, hcount⟩ := ih hrest hs hsite
      exact ⟨hinv, [c] :: vs, .cons rfl hvs, rfl, hcount⟩
    | site d us w =>
      obtain ⟨v, s₁, hv, h⟩ := bind_eq_ok.1 h
      obtain ⟨others, s₂, hrest, h⟩ := bind_eq_ok.1 h
      cases h
      rw [located, Resolve.attempts, hv] at hsite ⊢
      obtain ⟨hhead, htail⟩ := List.forall_mem_cons.1 hsite
      obtain ⟨hP, hinv⟩ := hhead s v s₁ hs (Resolve.gives_of_ok hv)
      obtain ⟨hinv, vs, hvs, rfl, hcount⟩ := ih hrest hinv htail
      exact ⟨hinv, v :: vs, .cons hP hvs, rfl, congrArg (· + 1) hcount⟩

/-- A stage that fails has come to a fault, or to a site that is refused. -/
theorem resolve_error {e : Failure} (h : resolve ctx buffer start ws s = .error e s') (hs : Inv s)
    (hsite : ∀ a ∈ Resolve.attempts ctx (located buffer start ws) s, ∀ s v s', Inv s →
      Resolve.Gives ctx a.site s v s' → Inv s') :
    (∃ f offset, .fault f ∈ ws ∧
      e = .diagnostic (.ofBlockFault .directive ctx.path buffer ⟨f.problem, offset⟩)) ∨
    (∃ a ∈ Resolve.attempts ctx (located buffer start ws) s, a.text? = none ∧
      Resolve.Refuses ctx a.site e) := by
  induction ws generalizing start s with
  | nil => cases h
  | cons w ws ih =>
    cases w with
    | fault f =>
      cases h
      exact .inl ⟨f, _, List.mem_cons_self, rfl⟩
    | kept c =>
      rcases bind_eq_error.1 h with hrest | ⟨others, s₁, -, h⟩
      · rcases ih hrest hs hsite with ⟨f, offset, hf, he⟩ | hrefused
        · exact .inl ⟨f, offset, List.mem_cons_of_mem _ hf, he⟩
        · exact .inr hrefused
      · cases h
    | site d us w =>
      rcases bind_eq_error.1 h with hv | ⟨v, s₁, hv, h⟩
      · rw [located, Resolve.attempts, hv]
        exact .inr ⟨_, List.mem_cons_self, rfl, Resolve.refuses_of_error hv⟩
      rcases bind_eq_error.1 h with hrest | ⟨others, s₂, -, h⟩
      · rw [located, Resolve.attempts, hv] at hsite ⊢
        obtain ⟨hhead, htail⟩ := List.forall_mem_cons.1 hsite
        rcases ih hrest (hhead s v s₁ hs (Resolve.gives_of_ok hv)) htail with
          ⟨f, offset, hf, he⟩ | ⟨a, ha, hnone, hrefused⟩
        · exact .inl ⟨f, offset, List.mem_cons_of_mem _ hf, he⟩
        · exact .inr ⟨a, List.mem_cons_of_mem _ ha, hnone, hrefused⟩
      · cases h

end Stretch

/-- What the scan finds is a site of the family, and stands in the buffer where it says. -/
theorem Site.shaped_of_scan {f : Family} {t : Text} {site : Site} (h : .ok site ∈ scan f t) :
    site.directive.family = f ∧ ∃ u w v, t = u ++ w ++ v ∧ site.start = u.length ∧
      site.stop = (u ++ w).length ∧ Stretch.Shaped site.directive site.arguments w := by
  rw [scan_eq_located] at h
  obtain ⟨before, w, behind, hws, hstart, hstop, -⟩ := Stretch.mem_of_mem_located h
  have hsite : .site site.directive site.arguments w ∈ Stretch.ofText f t := by
    rw [hws]
    exact List.mem_append_right _ List.mem_cons_self
  obtain ⟨hfamily, hshaped⟩ := Stretch.shaped_of_mem hsite
  obtain ⟨v, hv⟩ := Stretch.flatMap_written_prefix f t
  rw [hws, List.flatMap_append, List.flatMap_cons] at hv
  refine ⟨hfamily, before.flatMap Stretch.written, w, behind.flatMap Stretch.written ++ v, ?_,
    by rw [hstart, Nat.zero_add], by rw [hstop, hstart, Nat.zero_add, List.length_append], hshaped⟩
  rw [← hv]
  simp only [Stretch.written, List.append_assoc]

namespace Preprocess

variable {ctx : Context} {f : Family} {t : Text} {s s' : RunState} (Inv : RunState → Prop)
  (P : Directive → List Text → Text → Prop)

/-- What resolving a family makes of the stretches of its buffer, if every site that is taken
up keeps `Inv` and gives a text with `P`. Notes and warnings do not matter to `Inv`. -/
theorem becomes_of_family {u : Text} (h : Resolve.family ctx f t s = .ok u s')
    (halike : ∀ s s', s.Alike s' → Inv s → Inv s') (hs : Inv s)
    (hsite : ∀ a ∈ stageAttempts ctx f t s, ∀ s v s', Inv s →
      Resolve.Gives ctx a.site s v s' → P a.site.directive a.site.arguments v ∧ Inv s') :
    Inv s' ∧ ∃ vs, List.Forall₂ (Stretch.Becomes P) (Stretch.ofText f t) vs ∧ u = vs.flatten ∧
      (stageAttempts ctx f t s).length = Stretch.siteCount (Stretch.ofText f t) := by
  rw [Resolve.family_eq] at h
  obtain ⟨v, s₁, hresolve, h⟩ := bind_eq_ok.1 h
  have hs₁ : s₁.Alike s' ∧ v = u := by
    split at h <;> cases h <;> exact ⟨⟨rfl, rfl, rfl⟩, rfl⟩
  obtain ⟨hs₁, rfl⟩ := hs₁
  rw [stageAttempts, Site.scan_eq_located] at hsite ⊢
  obtain ⟨hinv, hvs⟩ := Stretch.resolve_ok hresolve hs hsite
  exact ⟨halike s₁ s' hs₁ hinv, hvs⟩

/-- A family fails at a fault in its buffer, or at a site that is refused. -/
theorem refused_of_family {e : Failure} (h : Resolve.family ctx f t s = .error e s') (hs : Inv s)
    (hsite : ∀ a ∈ stageAttempts ctx f t s, ∀ s v s', Inv s →
      Resolve.Gives ctx a.site s v s' → Inv s') :
    (∃ fault offset, .fault fault ∈ Stretch.ofText f t ∧
      e = .diagnostic (.ofBlockFault .directive ctx.path t ⟨fault.problem, offset⟩)) ∨
    (∃ a ∈ stageAttempts ctx f t s, a.text? = none ∧ Resolve.Refuses ctx a.site e) := by
  rw [Resolve.family_eq] at h
  rw [stageAttempts, Site.scan_eq_located] at hsite ⊢
  rcases bind_eq_error.1 h with hresolve | ⟨v, s₁, -, h⟩
  · exact Stretch.resolve_error hresolve hs hsite
  · split at h <;> cases h

/-- What a stage takes up is a site of its family, and stands in the buffer where it says. -/
theorem shaped_of_attempts {a : Attempt} (h : a ∈ stageAttempts ctx f t s) :
    a.site.directive.family = f ∧ ∃ u w v, t = u ++ w ++ v ∧ a.site.start = u.length ∧
      a.site.stop = (u ++ w).length ∧
      Stretch.Shaped a.site.directive a.site.arguments w :=
  Site.shaped_of_scan (Resolve.site_mem_of_attempts h)

/-! ## Substitutions that wait -/

/-- A substitution leaves the state of a run alone. -/
theorem state_of_substitute {sub : Substitution} {u : Text}
    (h : Resolve.substitute ctx t sub s = .ok u s') : s' = s := by
  unfold Resolve.substitute at h
  cases hreplaced : sub.pattern.replaceAll sub.template t with
  | ok v =>
    rw [hreplaced] at h
    cases h
    rfl
  | error e =>
    rw [hreplaced] at h
    cases e <;> cases h

theorem state_of_substitutes {subs : List Substitution} {u : Text}
    (h : subs.foldlM (Resolve.substitute ctx) t s = .ok u s') : s' = s := by
  induction subs generalizing t s with
  | nil =>
    cases h
    rfl
  | cons sub subs ih =>
    rw [List.foldlM_cons] at h
    obtain ⟨v, s₁, hsub, h⟩ := bind_eq_ok.1 h
    rw [ih h, state_of_substitute hsub]

/-- Once the substitutions are carried out none waits any more. -/
theorem pending_of_pending {u : Text} (h : Resolve.pending ctx t s = .ok u s') :
    s'.pending = [] := by
  unfold Resolve.pending at h
  obtain ⟨st, s₁, hget, h⟩ := bind_eq_ok.1 h
  obtain ⟨_, s₂, hclear, h⟩ := bind_eq_ok.1 h
  cases hget
  cases hclear
  split at h
  · cases h
    rfl
  · obtain ⟨v, s₃, hsubs, h⟩ := bind_eq_ok.1 h
    cases h
    rw [state_of_substitutes hsubs]

/-- A family that resolves no replacement leaves no substitution waiting. -/
theorem pending_of_family {u : Text} (h : Resolve.family ctx f t s = .ok u s')
    (hs : s.pending = [])
    (hnone : ∀ a ∈ stageAttempts ctx f t s, a.text?.isSome → a.site.directive ≠ .replaceAll) :
    s'.pending = [] := by
  have hsome : ∀ a ∈ stageAttempts ctx f t s, a.text?.isSome := by
    obtain ⟨edits, s₁, hsites, -⟩ := bind_eq_ok.1 h
    exact Resolve.isSome_of_attempts hsites
  refine (becomes_of_family (fun s => s.pending = []) (fun _ _ _ => True) h
    (fun s s' hss' hs => hss'.pending.trans hs) hs fun a ha s v s' hs hgives => ?_).1
  exact ⟨trivial, (Resolve.pending_of_gives hgives (hnone a ha (hsome a ha))).trans hs⟩

/-- No substitution waits for the next stage. -/
theorem pending_of_stage {u : Text} (h : stage ctx t f s = .ok u s') (hs : s.pending = []) :
    s'.pending = [] := by
  obtain ⟨v, s₁, hbare, hs₁, -⟩ := eq_of_stage h
  rw [hs₁.pending]
  by_cases hf : f = .replacements
  · subst hf
    obtain ⟨w, s₂, -, hpending⟩ := bind_eq_ok.1 hbare
    exact pending_of_pending hpending
  · rw [bareStage_of_ne hf] at hbare
    refine pending_of_family hbare hs fun a ha _ hd => hf ?_
    rw [← (shaped_of_attempts ha).1, hd]
    rfl

theorem pending_of_stages {fs : List Family} {u : Text}
    (h : fs.foldlM (stage ctx) t s = .ok u s') (hs : s.pending = []) : s'.pending = [] := by
  induction fs generalizing t s with
  | nil =>
    cases h
    exact hs
  | cons f fs ih =>
    rw [List.foldlM_cons] at h
    obtain ⟨v, s₁, hstage, h⟩ := bind_eq_ok.1 h
    exact ih h (pending_of_stage hstage hs)

/-! ## Why a stage fails -/

/-- Why a substitution is not carried out. -/
inductive Unsubstituted (ctx : Context) (sub : Substitution) : Failure → Prop where
  | fault (f : Pattern.Fault) : Unsubstituted ctx sub
      (.diagnostic ⟨.directive, ctx.path, some sub.line, .invalidReplacement sub.template f⟩)
  | error {e : Pattern.Error} (h : Pattern.Template.ofText sub.pattern sub.template = .error e)
      (hfault : ∀ f, e ≠ .fault f) : Unsubstituted ctx sub (.pattern e)

theorem unsubstituted_of_substitute {sub : Substitution} {e : Failure}
    (h : Resolve.substitute ctx t sub s = .error e s') : Unsubstituted ctx sub e := by
  unfold Resolve.substitute Pattern.replaceAll at h
  cases htemplate : Pattern.Template.ofText sub.pattern sub.template with
  | ok template =>
    rw [htemplate] at h
    cases h
  | error problem =>
    rw [htemplate] at h
    cases problem with
    | fault f =>
      cases h
      exact .fault f
    | _ =>
      cases h
      exact .error htemplate nofun

theorem unsubstituted_of_substitutes {subs : List Substitution} {e : Failure}
    (h : subs.foldlM (Resolve.substitute ctx) t s = .error e s') :
    ∃ sub ∈ subs, Unsubstituted ctx sub e := by
  induction subs generalizing t s with
  | nil => cases h
  | cons sub subs ih =>
    rw [List.foldlM_cons] at h
    rcases bind_eq_error.1 h with h | ⟨v, s₁, -, h⟩
    · exact ⟨sub, List.mem_cons_self, unsubstituted_of_substitute h⟩
    · obtain ⟨sub', hsub, he⟩ := ih h
      exact ⟨sub', List.mem_cons_of_mem _ hsub, he⟩

theorem unsubstituted_of_pending {e : Failure} (h : Resolve.pending ctx t s = .error e s') :
    ∃ sub ∈ s.pending, Unsubstituted ctx sub e := by
  unfold Resolve.pending at h
  obtain h | ⟨st, s₁, hget, h⟩ := bind_eq_error.1 h
  · cases h
  cases hget
  obtain h | ⟨_, s₂, -, h⟩ := bind_eq_error.1 h
  · cases h
  split at h
  · cases h
  obtain h | ⟨v, s₃, -, h⟩ := bind_eq_error.1 h
  · exact unsubstituted_of_substitutes h
  · cases h

/-- Why a stage fails: its scan comes to a fault, a site is refused, a substitution that waits is
not carried out, or the text that the family gives is not let through. -/
inductive Fails (ctx : Context) (f : Family) (t : Text) (s : RunState) : Failure → Prop where
  | fault {fault : BlockFault} (offset : Nat) (h : .fault fault ∈ Stretch.ofText f t) :
      Fails ctx f t s
        (.diagnostic (.ofBlockFault .directive ctx.path t ⟨fault.problem, offset⟩))
  | refused {a : Attempt} {e : Failure} (ha : a ∈ stageAttempts ctx f t s)
      (hnone : a.text? = none) (h : Resolve.Refuses ctx a.site e) : Fails ctx f t s e
  | unsubstituted {v : Text} {s' : RunState} {sub : Substitution} {e : Failure}
      (hf : f = .replacements) (hfamily : Resolve.family ctx f t s = .ok v s')
      (hsub : sub ∈ s'.pending) (h : Unsubstituted ctx sub e) : Fails ctx f t s e
  | unsettled {v : Text} {s' : RunState} {e : Failure} (hbare : bareStage ctx f t s = .ok v s')
      (h : Unsettled ctx v e) : Fails ctx f t s e

theorem fails_of_stage {e : Failure} (h : stage ctx t f s = .error e s') : Fails ctx f t s e := by
  rcases failure_of_stage h with hbare | ⟨v, s₁, hbare, he⟩
  · rcases bind_eq_error.1 hbare with hfamily | ⟨v, s₁, hfamily, hrest⟩
    · rcases refused_of_family (fun _ => True) hfamily trivial fun _ _ _ _ _ _ _ => trivial
        with ⟨fault, offset, hfault, rfl⟩ | ⟨a, ha, hnone, hrefused⟩
      · exact .fault offset hfault
      · exact .refused ha hnone hrefused
    · cases f with
      | replacements =>
        obtain ⟨sub, hsub, he⟩ := unsubstituted_of_pending hrest
        exact .unsubstituted rfl hfamily hsub he
      | _ => cases hrest
  · exact .unsettled hbare he

end Preprocess

end Bracemark
