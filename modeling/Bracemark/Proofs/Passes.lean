import Bracemark.Preprocess.Passes
import Bracemark.Proofs.Resolution

/-!
# Stages and passes

What preprocessing does around the families. A stage protects what the family gives and
counts its braces, which changes nothing in a text without backslashes whose braces match
(`Preprocess.stage_yields`). No pass is run on a buffer without directives
(`Preprocess.converge_of_resolved`), and a source that can be protected and has as many
opening as closing braces gets as far as the first pass (`Preprocess.source_of_converge`).
-/

namespace Bracemark

theorem Resolve.pending_yields (ctx : Context) (t : Text) : (Resolve.pending ctx t).Yields t := by
  intro s hs
  refine ⟨{ s with pending := [] }, ?_, rfl, hs.symm, rfl⟩
  obtain ⟨macros, pending, passes, warnings, progress⟩ := s
  subst hs
  rfl

/-- The state in which the next pass begins. -/
def RunState.nextPass (s : RunState) : RunState :=
  { s with
    passes := s.passes + 1
    progress := s.progress.push (.passStarted (s.passes + 1)) }

namespace Preprocess

variable {ctx : Context}

theorem verifyBraces_yields (ctx : Context) {t : Text} (h : t.braces.1 = t.braces.2) :
    (verifyBraces ctx t).Yields () := by
  unfold verifyBraces
  simp only
  rw [if_pos h]
  exact .pure ()

theorem bareStage_yields {f : Family} {u v : Text} (h : Rewrites ctx f u v) :
    (bareStage ctx f u).Yields v := by
  refine h.family_yields.bind ?_
  cases f
  case replacements => exact Resolve.pending_yields ctx v
  all_goals exact .pure v

/-! ## What a stage can do -/

/-- Counting braces leaves the run alone, and fails if there are more of one kind. -/
theorem verifyBraces_cases (ctx : Context) (t : Text) (s : RunState) :
    (t.braces.1 = t.braces.2 ∧ verifyBraces ctx t s = .ok () s) ∨
    (t.braces.1 ≠ t.braces.2 ∧ verifyBraces ctx t s =
      .error (.diagnostic ⟨.directive, ctx.path, none, .unbalanced t.braces.1 t.braces.2⟩) s) := by
  unfold verifyBraces
  by_cases h : t.braces.1 = t.braces.2
  · exact .inl ⟨h, by simp only [h, if_true]; rfl⟩
  · exact .inr ⟨h, by simp only [h, if_false]; rfl⟩

/-- Why the text that a family gives is not let through by its stage. -/
inductive Unsettled (ctx : Context) (t : Text) : Failure → Prop where
  | escape {f : EscapeFault} (h : Scheme.document.fault? t = some f) :
      Unsettled ctx t (.diagnostic (Run.escapeDiagnostic ctx.path t f))
  | unbalanced (hfault : Scheme.document.fault? t = none)
      (h : (Scheme.document.protect t).braces.1 ≠ (Scheme.document.protect t).braces.2) :
      Unsettled ctx t (.diagnostic ⟨.directive, ctx.path, none,
        .unbalanced (Scheme.document.protect t).braces.1 (Scheme.document.protect t).braces.2⟩)

/-- Protects a text and counts its braces, as every stage does and preprocessing at its start. -/
def settle (ctx : Context) (t : Text) : Run Text := do
  let u ← Run.protect .document ctx.path t
  verifyBraces ctx u
  return u

theorem settle_cases (ctx : Context) (t : Text) (s : RunState) :
    (∃ s', settle ctx t s = .ok (Scheme.document.protect t) s' ∧ s.Alike s' ∧
      Scheme.document.fault? t = none ∧
      (Scheme.document.protect t).braces.1 = (Scheme.document.protect t).braces.2) ∨
    (∃ e s', settle ctx t s = .error e s' ∧ Unsettled ctx t e) := by
  rcases Run.protect_cases .document ctx.path t s with
    ⟨f, hf, hprotect⟩ | ⟨hfault, s₁, hprotect, hs₁⟩
  · exact .inr ⟨_, _, bind_of_error hprotect, .escape hf⟩
  rcases verifyBraces_cases ctx (Scheme.document.protect t) s₁ with
    ⟨hbraces, hverify⟩ | ⟨hbraces, hverify⟩
  · exact .inl ⟨s₁, (bind_of_ok hprotect).trans (bind_of_ok hverify), hs₁, hfault, hbraces⟩
  · exact .inr ⟨_, _, (bind_of_ok hprotect).trans (bind_of_error hverify),
      .unbalanced hfault hbraces⟩

/-- A stage settles what its family gives, and notes that it is done. -/
theorem stage_eq (ctx : Context) (t : Text) (f : Family) :
    stage ctx t f = (do
      let u ← settle ctx (← bareStage ctx f t)
      Run.note (.stageDone f u.length)
      return u) := by
  unfold stage settle
  simp only [bind_assoc, pure_bind]

theorem source_eq (ctx : Context) (t : Text) :
    source ctx t = (do
      let v ← converge ctx (fuel ctx) (← settle ctx t)
      Run.note (.passesDone (← get).passes)
      return v) := by
  unfold source settle
  simp only [bind_assoc, pure_bind]

/-- A text that can be protected settles if the braces then match. -/
theorem settle_protects (ctx : Context) {t u : Text} (h : Scheme.Protects t u)
    (hnested : u.Nested) : (settle ctx t).Yields u := by
  have hprotect := Run.Yields.protect h.fault?_eq ctx.path
  rw [h.protect_eq] at hprotect
  exact hprotect.bind ((verifyBraces_yields ctx hnested.braces_eq).bind (.pure u))

/-- A text without backslashes whose braces match settles as it is. -/
theorem settle_yields (ctx : Context) {t : Text} (hplain : '\\' ∉ t) (hnested : t.Nested) :
    (settle ctx t).Yields t :=
  settle_protects ctx (.of_notMem hplain) hnested

/-- A stage does what its family does, and protects it. -/
theorem stage_protects {f : Family} {u v w : Text} (h : Rewrites ctx f u v)
    (hprotects : Scheme.Protects v w) (hnested : w.Nested) : (stage ctx u f).Yields w := by
  rw [stage_eq]
  exact (bareStage_yields h).bind
    ((settle_protects ctx hprotects hnested).bind ((Run.Yields.note _).bind (.pure w)))

/-- A stage that leaves no backslash and keeps the braces matching does what its family
does. -/
theorem stage_yields {f : Family} {u v : Text} (h : Rewrites ctx f u v) (hplain : '\\' ∉ v)
    (hnested : v.Nested) : (stage ctx u f).Yields v :=
  stage_protects h (.of_notMem hplain) hnested

variable {f : Family} {t u : Text} {s s' : RunState} {e : Failure}

/-- Behind a stage stands what its family gives, protected and with its braces counted. -/
theorem eq_of_stage (h : stage ctx t f s = .ok u s') :
    ∃ v s₁, bareStage ctx f t s = .ok v s₁ ∧ s₁.Alike s' ∧ u = Scheme.document.protect v ∧
      Scheme.document.fault? v = none ∧ u.braces.1 = u.braces.2 := by
  rw [stage_eq] at h
  obtain ⟨v, s₁, hbare, h⟩ := bind_eq_ok.1 h
  obtain ⟨w, s₂, hsettle, h⟩ := bind_eq_ok.1 h
  cases h
  rcases settle_cases ctx v s₁ with ⟨s₃, hv, hs₃, hfault, hbraces⟩ | ⟨e, s₃, hv, -⟩
  · rw [hv] at hsettle
    cases hsettle
    exact ⟨v, s₁, hbare, ⟨hs₃.macros, hs₃.pending, hs₃.passes⟩, rfl, hfault, hbraces⟩
  · rw [hv] at hsettle
    cases hsettle

/-- A stage gives what its family does, protected, if that is let through and no substitution
waits for it. -/
theorem stage_of_family (h : Resolve.family ctx f t s = .ok u s')
    (hpending : f = .replacements → s'.pending = []) (hfault : Scheme.document.fault? u = none)
    (hbraces : (Scheme.document.protect u).braces.1 = (Scheme.document.protect u).braces.2) :
    ∃ s₁, stage ctx t f s = .ok (Scheme.document.protect u) s₁ ∧ s'.Alike s₁ := by
  have hbare : ∃ s₁, bareStage ctx f t s = .ok u s₁ ∧ s'.Alike s₁ := by
    cases f
    case replacements =>
      obtain ⟨s₁, hs₁, halike⟩ := Resolve.pending_yields ctx u s' (hpending rfl)
      exact ⟨s₁, (bind_of_ok h).trans hs₁, halike⟩
    all_goals exact ⟨s', (bind_of_ok h).trans rfl, .refl s'⟩
  obtain ⟨s₁, hbare, hs₁⟩ := hbare
  rw [stage_eq, bind_of_ok hbare]
  rcases settle_cases ctx u s₁ with ⟨s₂, hsettle, hs₂, -⟩ | ⟨e, s₂, -, hunsettled⟩
  · rw [bind_of_ok hsettle]
    exact ⟨_, rfl, hs₁.trans ⟨hs₂.macros, hs₂.pending, hs₂.passes⟩⟩
  · cases hunsettled with
    | escape hf =>
      rw [hfault] at hf
      cases hf
    | unbalanced _ hne => exact absurd hbraces hne

/-- A stage fails if its family does, or if what the family gives is not let through. -/
theorem failure_of_stage (h : stage ctx t f s = .error e s') :
    bareStage ctx f t s = .error e s' ∨
      ∃ v s₁, bareStage ctx f t s = .ok v s₁ ∧ Unsettled ctx v e := by
  rw [stage_eq] at h
  rcases bind_eq_error.1 h with h | ⟨v, s₁, hbare, h⟩
  · exact .inl h
  refine .inr ⟨v, s₁, hbare, ?_⟩
  rcases settle_cases ctx v s₁ with ⟨s₃, hv, -⟩ | ⟨e', s₃, hv, he⟩
  · rw [bind_of_ok hv] at h
    cases h
  · rw [bind_of_error hv] at h
    cases h
    exact he

/-- The other families have nothing to do behind the scan. -/
theorem bareStage_of_ne (hf : f ≠ .replacements) (t : Text) :
    bareStage ctx f t = Resolve.family ctx f t := by
  unfold bareStage
  cases f
  case replacements => exact absurd rfl hf
  all_goals exact bind_pure _

/-- Behind a family nothing is left to do if no substitution waits. -/
theorem family_of_bareStage (h : bareStage ctx f t s = .ok u s') :
    ∃ v s₁, Resolve.family ctx f t s = .ok v s₁ ∧
      (s₁.pending = [] → u = v ∧ s₁.Alike s') := by
  obtain ⟨v, s₁, hfamily, hrest⟩ := bind_eq_ok.1 h
  refine ⟨v, s₁, hfamily, fun hpending => ?_⟩
  cases f with
  | replacements =>
    have hrest : Resolve.pending ctx v s₁ = .ok u s' := hrest
    obtain ⟨s₂, hs₂, halike⟩ := Resolve.pending_yields ctx v s₁ hpending
    rw [hs₂] at hrest
    cases hrest
    exact ⟨rfl, halike⟩
  | _ =>
    cases hrest
    exact ⟨rfl, .refl _⟩

/-! ## Runs of passes -/

theorem converge_of_resolved {t : Text} (h : t.hasDirective = false) (fuel : Nat) :
    converge ctx fuel t = pure t := by
  rw [converge.eq_def]
  exact if_neg (Bool.eq_false_iff.1 h)

theorem converge_zero {t : Text} (h : t.hasDirective = true) (s : RunState) :
    converge ctx 0 t s = .error .outOfPatience s := by
  rw [converge.eq_def]
  simp only [h, if_true]
  rfl

/-- A pass within the bound begins, and is counted. -/
theorem beginPass_eq (ctx : Context) {s : RunState}
    (h : ctx.settings.maxPasses = 0 ∨ s.passes < ctx.settings.maxPasses) :
    beginPass ctx s = .ok () s.nextPass := by
  have hlimit : ctx.settings.limitReached (s.passes + 1) = false := by
    unfold Settings.limitReached
    rw [Bool.and_eq_false_iff, decide_eq_false_iff_not, decide_eq_false_iff_not]
    omega
  unfold beginPass
  refine (bind_of_ok rfl).trans ((bind_of_ok rfl).trans ?_)
  simp only [hlimit]
  rfl

/-- A pass past the bound is counted, and refused. -/
theorem beginPass_eq_error (ctx : Context) {s : RunState} (h : 0 < ctx.settings.maxPasses)
    (hs : ctx.settings.maxPasses ≤ s.passes) :
    beginPass ctx s = .error (.diagnostic ⟨.directive, ctx.path, none,
      .notConverged ctx.settings.maxPasses⟩) { s with passes := s.passes + 1 } := by
  have hlimit : ctx.settings.limitReached (s.passes + 1) = true := by
    unfold Settings.limitReached
    rw [decide_eq_true h, decide_eq_true (by omega)]
    rfl
  unfold beginPass
  refine (bind_of_ok rfl).trans ((bind_of_ok rfl).trans ?_)
  simp only [hlimit, if_true]
  rfl

/-- A buffer with directives goes through a pass if there is one left. -/
theorem converge_of_hasDirective {t : Text} (h : t.hasDirective = true) (fuel : Nat) :
    converge ctx (fuel + 1) t = (do
      beginPass ctx
      converge ctx fuel (← pass ctx t)) := by
  rw [converge.eq_def]
  exact if_pos h

theorem converge_eq_ok_iff {t v : Text} (h : t.hasDirective = true) {fuel : Nat}
    {s s' : RunState} :
    converge ctx (fuel + 1) t s = .ok v s' ↔
      (ctx.settings.maxPasses = 0 ∨ s.passes < ctx.settings.maxPasses) ∧
      ∃ u s₁, pass ctx t s.nextPass = .ok u s₁ ∧ converge ctx fuel u s₁ = .ok v s' := by
  rw [converge_of_hasDirective h]
  constructor
  · intro hrun
    by_cases hlimit : 0 < ctx.settings.maxPasses ∧ ctx.settings.maxPasses ≤ s.passes
    · rw [bind_of_error (beginPass_eq_error ctx hlimit.1 hlimit.2)] at hrun
      cases hrun
    have hbound : ctx.settings.maxPasses = 0 ∨ s.passes < ctx.settings.maxPasses := by omega
    rw [bind_of_ok (beginPass_eq ctx hbound)] at hrun
    exact ⟨hbound, bind_eq_ok.1 hrun⟩
  · rintro ⟨hbound, u, s₁, hpass, hrest⟩
    rw [bind_of_ok (beginPass_eq ctx hbound)]
    exact (bind_of_ok hpass).trans hrest

/-- A source that has a result is settled, and the passes have it too. -/
theorem converge_of_source {t v : Text} {s s' : RunState} (h : source ctx t s = .ok v s') :
    Scheme.document.fault? t = none ∧
      (Scheme.document.protect t).braces.1 = (Scheme.document.protect t).braces.2 ∧
      ∃ s₁ s₂, settle ctx t s = .ok (Scheme.document.protect t) s₁ ∧ s.Alike s₁ ∧
        converge ctx (fuel ctx) (Scheme.document.protect t) s₁ = .ok v s₂ ∧ s₂.Alike s' := by
  rw [source_eq] at h
  rcases settle_cases ctx t s with ⟨s₁, hsettle, hs₁, hfault, hbraces⟩ | ⟨e, s₁, hsettle, -⟩
  · rw [bind_of_ok hsettle] at h
    obtain ⟨w, s₂, hconverge, h⟩ := bind_eq_ok.1 h
    cases h
    exact ⟨hfault, hbraces, s₁, s₂, hsettle, hs₁, hconverge, ⟨rfl, rfl, rfl⟩⟩
  · rw [bind_of_error hsettle] at h
    cases h

/-- What the passes make of a protected source with matching numbers of braces is the result,
and only progress is noted before and behind them. -/
theorem source_of_converge (ctx : Context) {s : RunState} (hs : s.pending = []) {t : Text}
    (hfault : Scheme.document.fault? t = none)
    (hbraces : (Scheme.document.protect t).braces.1 = (Scheme.document.protect t).braces.2) :
    ∃ s₁, s.Alike s₁ ∧ ∀ v s₂,
      converge ctx (fuel ctx) (Scheme.document.protect t) s₁ = .ok v s₂ →
      ∃ s₃, s₂.Alike s₃ ∧ source ctx t s = .ok v s₃ := by
  obtain ⟨s₀, hprotect, hs₀⟩ := Run.Yields.protect hfault ctx.path s hs
  obtain ⟨s₁, hverify, hs₁⟩ := verifyBraces_yields ctx hbraces s₀ (hs₀.pending.trans hs)
  refine ⟨s₁, hs₀.trans hs₁, fun v s₂ hconverge => ?_⟩
  refine ⟨{ s₂ with progress := s₂.progress.push (.passesDone s₂.passes) }, ⟨rfl, rfl, rfl⟩, ?_⟩
  unfold source
  rw [bind_of_ok hprotect, bind_of_ok hverify, bind_of_ok hconverge]
  rfl

/-- A pass does what the stage of one family does, if the other stages leave the buffer alone. -/
theorem pass_yields {f : Family} {u v : Text} (hu : '\\' ∉ u) (hunested : u.Nested)
    (hv : '\\' ∉ v) (hvnested : v.Nested) (hbefore : ∀ g, g ≠ f → Rewrites ctx g u u)
    (h : Rewrites ctx f u v) (hbehind : ∀ g, g ≠ f → Rewrites ctx g v v) :
    (pass ctx u).Yields v := by
  have hidle {w : Text} {fs : List Family} (hfs : f ∉ fs)
      (hstages : ∀ g, g ≠ f → (stage ctx w g).Yields w) :
      (fs.foldlM (stage ctx) w).Yields w := by
    induction fs with
    | nil => exact .pure w
    | cons g fs ih =>
      rw [List.mem_cons, not_or] at hfs
      rw [List.foldlM_cons]
      exact (hstages g (Ne.symm hfs.1)).bind (ih hfs.2)
  have hmem : f ∈ Family.all := by cases f <;> decide
  have hnodup : Family.all.Nodup := by decide
  obtain ⟨before, behind, hall⟩ := List.append_of_mem hmem
  rw [hall] at hnodup
  obtain ⟨-, hrest, hdisjoint⟩ := List.nodup_append.1 hnodup
  have hnotBefore : f ∉ before := fun hm => hdisjoint f hm f List.mem_cons_self rfl
  have hnotBehind : f ∉ behind := (List.nodup_cons.1 hrest).1
  unfold pass
  rw [hall, List.foldlM_append]
  refine (hidle hnotBefore fun g hg => stage_yields (hbefore g hg) hu hunested).bind ?_
  rw [List.foldlM_cons]
  refine (stage_yields h hv hvnested).bind ?_
  exact hidle hnotBehind fun g hg => stage_yields (hbehind g hg) hv hvnested

/-- One pass is enough for a source if it leaves no directive; without a directive in the source,
none is run. -/
theorem source_of_pass {t u v : Text} {s : RunState} (hprotects : Scheme.Protects t u)
    (hnested : u.Nested) (hpass : (pass ctx u).Yields v) (hresolved : v.hasDirective = false)
    (hidle : u.hasDirective = false → u = v)
    (hpatience : ctx.settings.maxPasses = 0 → 0 < ctx.patience) (hs : s.pending = [])
    (hpasses : s.passes = 0) : ∃ s', source ctx t s = .ok v s' ∧ s'.pending = [] := by
  obtain ⟨s₁, hs₁, hsource⟩ := source_of_converge ctx hs hprotects.fault?_eq
    (by rw [hprotects.protect_eq]; exact hnested.braces_eq)
  rw [hprotects.protect_eq] at hsource
  have hconverge : ∃ s₂, converge ctx (fuel ctx) u s₁ = .ok v s₂ ∧ s₂.pending = [] := by
    cases hdirective : u.hasDirective with
    | false =>
      rw [hidle hdirective, converge_of_resolved hresolved]
      exact ⟨s₁, rfl, hs₁.pending.trans hs⟩
    | true =>
      obtain ⟨more, hfuel⟩ : ∃ more, fuel ctx = more + 1 := by
        unfold fuel
        split
        · rename_i hbound
          exact ⟨ctx.patience - 1, (Nat.sub_add_cancel (hpatience hbound)).symm⟩
        · exact ⟨ctx.settings.maxPasses, rfl⟩
      obtain ⟨s₂, hrun, hs₂⟩ := hpass s₁.nextPass (hs₁.pending.trans hs)
      refine ⟨s₂, ?_, hs₂.pending.trans (hs₁.pending.trans hs)⟩
      rw [hfuel, converge_eq_ok_iff hdirective]
      refine ⟨?_, v, s₂, hrun, by rw [converge_of_resolved hresolved]; rfl⟩
      rw [hs₁.passes, hpasses]
      exact Nat.eq_zero_or_pos _
  obtain ⟨s₂, hrun, hs₂⟩ := hconverge
  obtain ⟨s₃, hs₃, hresult⟩ := hsource v s₂ hrun
  exact ⟨s₃, hresult, hs₃.pending.trans hs₂⟩

end Preprocess

end Bracemark
