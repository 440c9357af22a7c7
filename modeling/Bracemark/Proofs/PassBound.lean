import Bracemark.Proofs.Contexts
import Bracemark.Proofs.Termination

/-!
# The bound on passes

Rounds of passes are the same under every bound, as a pass does not read it
(`Preprocess.Rounds`). After `n` rounds a run has come as far as `n` passes take it under any
bound that is not below `n` (`Preprocess.converge_of_rounds`). So either the passes are done
within `n` rounds, with a result or a failure of their own, and every such bound gives the same
(`Preprocess.settled_or_rounds`), or a directive is left behind `n` rounds, and there the bound
`n` refuses the run (`preprocess_withBound`).
-/

namespace Bracemark

namespace Preprocess

variable {ctx : Context} {k n : Nat} {t u : Text} {s s' : RunState}

/-- A number of passes one after the other, each of which succeeds, and each on a buffer that
has a directive left. -/
inductive Rounds (ctx : Context) (t : Text) (s : RunState) : Nat → Text → RunState → Prop where
  | none : Rounds ctx t s 0 t s
  | more {k : Nat} {u v : Text} {s₁ s₂ : RunState} (h : Rounds ctx t s k u s₁)
      (hdirective : u.hasDirective = true) (hpass : pass ctx u s₁.nextPass = .ok v s₂) :
      Rounds ctx t s (k + 1) v s₂

theorem Rounds.passes_eq (h : Rounds ctx t s k u s') : s'.passes = s.passes + k := by
  induction h with
  | none => rfl
  | more h hdirective hpass ih =>
    have hcount := (pass_uncounted ctx _).of_ok hpass
    simp only [RunState.nextPass] at hcount
    omega

/-- Rounds go on until there are enough of them, or until one is the last. -/
theorem rounds_cases (ctx : Context) (t : Text) (s : RunState) (n : Nat) :
    (∃ u s', Rounds ctx t s n u s') ∨
    ∃ k u s', k < n ∧ Rounds ctx t s k u s' ∧
      (u.hasDirective = false ∨
        u.hasDirective = true ∧ ∃ e s₁, pass ctx u s'.nextPass = .error e s₁) := by
  induction n with
  | zero => exact .inl ⟨t, s, .none⟩
  | succ n ih =>
    rcases ih with ⟨u, s', h⟩ | ⟨k, u, s', hk, h, hlast⟩
    · cases hdirective : u.hasDirective with
      | false => exact .inr ⟨n, u, s', Nat.lt_succ_self n, h, .inl hdirective⟩
      | true =>
        cases hpass : pass ctx u s'.nextPass with
        | ok v s₁ => exact .inl ⟨v, s₁, h.more hdirective hpass⟩
        | error e s₁ =>
          exact .inr ⟨n, u, s', Nat.lt_succ_self n, h, .inr ⟨hdirective, e, s₁, hpass⟩⟩
    · exact .inr ⟨k, u, s', Nat.lt_succ_of_lt hk, h, hlast⟩

/-- A pass within the bound is begun, and the passes go on with what it gives. -/
theorem converge_succ {M : Nat} (hdirective : t.hasDirective = true)
    (hM : M = 0 ∨ s.passes < M) (fuel : Nat) :
    converge (ctx.withBound M) (fuel + 1) t s =
      (pass ctx t >>= converge (ctx.withBound M) fuel) s.nextPass := by
  rw [converge_of_hasDirective hdirective, bind_of_ok (beginPass_eq (ctx.withBound M) hM),
    pass_eq_of_reads (ctx.readsAlike_withBound M) rfl]

/-- Under a bound that lets them all begin, the rounds lie on the way of a run. -/
theorem converge_of_rounds {M : Nat} (h : Rounds ctx t s k u s')
    (hM : M = 0 ∨ s.passes + k ≤ M) (fuel : Nat) :
    converge (ctx.withBound M) (fuel + k) t s = converge (ctx.withBound M) fuel u s' := by
  induction h generalizing fuel with
  | none => rfl
  | @more k u v s₁ s₂ h hdirective hpass ih =>
    have hcount := h.passes_eq
    have hbegin : M = 0 ∨ s₁.passes < M := by omega
    -- the fuel of the last pass is part of what the passes before it leave over
    rw [show fuel + (k + 1) = fuel + 1 + k by omega, ih (by omega) (fuel + 1),
      converge_succ hdirective hbegin, bind_of_ok hpass]

/-- The passes from a state have come to an end within `n` of them, whatever the bound, if it is
not below `n`. -/
def EndsWithin (ctx : Context) (n : Nat) (t : Text) (s : RunState)
    (r : EStateM.Result Failure RunState Text) : Prop :=
  ∀ M fuel, M = 0 ∨ s.passes + n ≤ M → n ≤ fuel → converge (ctx.withBound M) fuel t s = r

theorem endsWithin_ok (h : Rounds ctx t s k u s') (hk : k ≤ n) (hu : u.hasDirective = false) :
    EndsWithin ctx n t s (.ok u s') := by
  intro M fuel hM hfuel
  obtain ⟨fuel, rfl⟩ : ∃ f, fuel = f + k := ⟨fuel - k, by omega⟩
  rw [converge_of_rounds h (by omega), converge_of_resolved hu]
  rfl

theorem endsWithin_error {e : Failure} {s₁ : RunState} (h : Rounds ctx t s k u s') (hk : k < n)
    (hdirective : u.hasDirective = true) (hpass : pass ctx u s'.nextPass = .error e s₁) :
    EndsWithin ctx n t s (.error e s₁) := by
  intro M fuel hM hfuel
  have hcount := h.passes_eq
  obtain ⟨fuel, rfl⟩ : ∃ f, fuel = f + 1 + k := ⟨fuel - k - 1, by omega⟩
  rw [converge_of_rounds h (by omega), converge_succ hdirective (by omega), bind_of_error hpass]

/-- The passes come to an end within `n` of them, with a result or with a failure that has
nothing to do with the bound, or else they leave a directive behind the `n`-th. -/
theorem settled_or_rounds (ctx : Context) (t : Text) (s : RunState) (n : Nat) :
    (∃ u s', EndsWithin ctx n t s (.ok u s') ∧ s'.passes ≤ s.passes + n) ∨
    (∃ e s', EndsWithin ctx n t s (.error e s') ∧ e.exhausted = false) ∨
    ∃ u s', Rounds ctx t s n u s' ∧ u.hasDirective = true := by
  rcases rounds_cases ctx t s n with ⟨u, s', h⟩ | ⟨k, u, s', hk, h, hu | ⟨hu, e, s₁, hpass⟩⟩
  · cases hu : u.hasDirective with
    | false => exact .inl ⟨u, s', endsWithin_ok h (Nat.le_refl n) hu, Nat.le_of_eq h.passes_eq⟩
    | true => exact .inr (.inr ⟨u, s', h, hu⟩)
  · have hcount := h.passes_eq
    exact .inl ⟨u, s', endsWithin_ok h (Nat.le_of_lt hk) hu, by omega⟩
  · exact .inr (.inl ⟨e, s₁, endsWithin_error h hk hu hpass, exhausted_of_stages hpass⟩)

/-- A bound refuses the pass that would be one too many. -/
theorem converge_of_rounds_of_bound {N : Nat} (hN : 0 < N) (hs : s.passes = 0)
    (h : Rounds ctx t s N u s') (hdirective : u.hasDirective = true) :
    ∃ s₁, converge (ctx.withBound N) (N + 1) t s =
      .error (.diagnostic ⟨.directive, ctx.path, none, .notConverged N⟩) s₁ := by
  have hcount := h.passes_eq
  have hlimit := beginPass_eq_error (ctx.withBound N) (s := s') hN
    (show N ≤ s'.passes by omega)
  rw [Nat.add_comm, converge_of_rounds h (by omega), converge_of_hasDirective hdirective,
    bind_of_error hlimit]
  exact ⟨_, rfl⟩

/-- What is left to do behind the passes. -/
def finish : EStateM.Result Failure RunState Text → EStateM.Result Failure RunState Text
  | .ok v s => .ok v { s with progress := s.progress.push (.passesDone s.passes) }
  | .error e s => .error e s

theorem settle_withBound (ctx : Context) (M : Nat) (t : Text) :
    settle (ctx.withBound M) t = settle ctx t :=
  settle_eq_of_path rfl t

theorem preprocess_of_settle {b : Text} (h : settle ctx t {} = .ok b s) (M : Nat) :
    preprocess (ctx.withBound M) t =
      finish (converge (ctx.withBound M) (fuel (ctx.withBound M)) b s) := by
  unfold preprocess
  rw [EStateM.run, source_eq, settle_withBound, bind_of_ok h]
  cases hconverge : converge (ctx.withBound M) (fuel (ctx.withBound M)) b s with
  | ok v s₁ => exact bind_of_ok hconverge
  | error e s₁ => exact bind_of_error hconverge

theorem preprocess_of_settle_error {e : Failure} (h : settle ctx t {} = .error e s) (M : Nat) :
    preprocess (ctx.withBound M) t = .error e s := by
  unfold preprocess
  rw [EStateM.run, source_eq, settle_withBound, bind_of_error h]

/-- A run is abandoned by no bound on passes before it has begun `n` of them, if the bound is not
below `n`. -/
theorem preprocess_of_endsWithin {b : Text} {r : EStateM.Result Failure RunState Text}
    (hsettle : settle ctx t {} = .ok b s) (hs : s.passes = 0) (h : EndsWithin ctx n b s r)
    {M : Nat} (hM : n ≤ M ∧ M ≠ 0 ∨ M = 0 ∧ n ≤ ctx.patience) :
    preprocess (ctx.withBound M) t = finish r := by
  have hfuel : n ≤ fuel (ctx.withBound M) := by
    show n ≤ if M = 0 then ctx.patience else M + 1
    split <;> omega
  rw [preprocess_of_settle hsettle, h M _ (by omega) hfuel]

/-- The bound refuses a run just behind that many rounds. -/
theorem notConverged_iff (ctx : Context) (t : Text) {N : Nat} (hN : 1 ≤ N) :
    (∃ s, preprocess (ctx.withBound N) t =
        .error (.diagnostic ⟨.directive, ctx.path, none, .notConverged N⟩) s) ↔
      ∃ b s₁ u s₂, settle ctx t {} = .ok b s₁ ∧ Rounds ctx b s₁ N u s₂ ∧
        u.hasDirective = true := by
  rcases settle_cases ctx t {} with ⟨s₁, hsettle, hs₁, -⟩ | ⟨e, s₁, hsettle, he⟩
  · have hpasses : s₁.passes = 0 := hs₁.passes
    constructor
    · rintro ⟨s, hrun⟩
      refine ⟨Scheme.document.protect t, s₁, ?_⟩
      rcases settled_or_rounds ctx (Scheme.document.protect t) s₁ N with
        ⟨u, s', h, -⟩ | ⟨e, s', h, he⟩ | ⟨u, s₂, h, hu⟩
      · rw [preprocess_of_endsWithin hsettle hpasses h (by omega)] at hrun
        cases hrun
      · rw [preprocess_of_endsWithin hsettle hpasses h (by omega)] at hrun
        cases hrun
        cases he
      · exact ⟨u, s₂, hsettle, h, hu⟩
    · rintro ⟨b, s, u, s₂, hsettle', h, hu⟩
      rw [hsettle] at hsettle'
      cases hsettle'
      obtain ⟨s', hlimit⟩ := converge_of_rounds_of_bound hN hpasses h hu
      have hfuel : fuel (ctx.withBound N) = N + 1 := if_neg (show N ≠ 0 by omega)
      rw [preprocess_of_settle hsettle, hfuel, hlimit]
      exact ⟨s', rfl⟩
  · constructor
    · rintro ⟨s, hrun⟩
      rw [preprocess_of_settle_error hsettle] at hrun
      cases hrun
      have hexhausted := exhausted_of_unsettled he
      cases hexhausted
    · rintro ⟨b, s, u, s₂, hsettle', -⟩
      rw [hsettle] at hsettle'
      cases hsettle'

/-- A run that its bound does not refuse ends alike under every bound that is not lower, and
under none. -/
theorem refused_or_eq (ctx : Context) (t : Text) {N M : Nat} (hN : 1 ≤ N)
    (hM : N ≤ M ∨ M = 0 ∧ N ≤ ctx.patience) :
    (∃ s, preprocess (ctx.withBound N) t =
      .error (.diagnostic ⟨.directive, ctx.path, none, .notConverged N⟩) s) ∨
    preprocess (ctx.withBound M) t = preprocess (ctx.withBound N) t ∧
      ∀ u s, preprocess (ctx.withBound N) t = .ok u s → s.passes ≤ N := by
  rcases settle_cases ctx t {} with ⟨s₁, hsettle, hs₁, -⟩ | ⟨e, s₁, hsettle, -⟩
  · have hpasses : s₁.passes = 0 := hs₁.passes
    have hends {r} (h : EndsWithin ctx N (Scheme.document.protect t) s₁ r) :
        preprocess (ctx.withBound N) t = finish r ∧ preprocess (ctx.withBound M) t = finish r :=
      ⟨preprocess_of_endsWithin hsettle hpasses h (by omega),
        preprocess_of_endsWithin hsettle hpasses h (by omega)⟩
    rcases settled_or_rounds ctx (Scheme.document.protect t) s₁ N with
      ⟨u, s', h, hcount⟩ | ⟨e, s', h, -⟩ | ⟨u, s', h, hu⟩
    · obtain ⟨hrun, hother⟩ := hends h
      refine .inr ⟨hother.trans hrun.symm, ?_⟩
      intro v s hv
      rw [hrun] at hv
      cases hv
      simp only
      omega
    · obtain ⟨hrun, hother⟩ := hends h
      refine .inr ⟨hother.trans hrun.symm, ?_⟩
      intro v s hv
      rw [hrun] at hv
      cases hv
    · exact .inl ((notConverged_iff ctx t hN).2 ⟨_, s₁, u, s', hsettle, h, hu⟩)
  · have hrun (b) := preprocess_of_settle_error hsettle b
    refine .inr ⟨(hrun M).trans (hrun N).symm, ?_⟩
    intro u s hu
    rw [hrun] at hu
    cases hu

end Preprocess

open Preprocess (Rounds settle)

/-- The bound on passes changes no answer. What a run gives under a bound, or fails with for
another reason than the bound, it gives or fails with under every bound that is not lower, and
under none if it is patient enough; and it has begun no more passes than the bound says. A bound
refuses a run just if as many passes succeed as it allows, and leave a directive in the buffer. -/
theorem preprocess_withBound (ctx : Context) (t : Text) {N M : Nat} (hN : 1 ≤ N)
    (hM : N ≤ M ∨ M = 0 ∧ N ≤ ctx.patience) :
    (∀ u s, preprocess (ctx.withBound N) t = .ok u s →
      preprocess (ctx.withBound M) t = .ok u s ∧ s.passes ≤ N) ∧
    (∀ e s, preprocess (ctx.withBound N) t = .error e s →
      e ≠ .diagnostic ⟨.directive, ctx.path, none, .notConverged N⟩ →
      preprocess (ctx.withBound M) t = .error e s) ∧
    ((∃ s, preprocess (ctx.withBound N) t =
        .error (.diagnostic ⟨.directive, ctx.path, none, .notConverged N⟩) s) ↔
      ∃ b s₁ u s₂, settle ctx t {} = .ok b s₁ ∧ Rounds ctx b s₁ N u s₂ ∧
        u.hasDirective = true) := by
  refine ⟨?_, ?_, Preprocess.notConverged_iff ctx t hN⟩
  · intro u s hu
    rcases Preprocess.refused_or_eq ctx t hN hM with ⟨s', hrefused⟩ | ⟨heq, hcount⟩
    · rw [hu] at hrefused
      cases hrefused
    · exact ⟨heq.trans hu, hcount u s hu⟩
  · intro e s he hne
    rcases Preprocess.refused_or_eq ctx t hN hM with ⟨s', hrefused⟩ | ⟨heq, -⟩
    · rw [he] at hrefused
      cases hrefused
      exact absurd rfl hne
    · exact heq.trans he

/-- Two passes resolve a link in a link, and one does not. -/
theorem preprocess_withBound_nestedLink :
    (∃ s, preprocess (Context.withBound {} 0)
        ".link\x7ba\x7d\x7b.link\x7bb\x7d\x7bc\x7d\x7d".toList =
      .ok "<a href=\"<a href=\"c\">b</a>\">a</a>".toList s ∧ s.passes ≤ 2) ∧
    (∃ s, preprocess (Context.withBound {} 3) ".macro\x7ba\x7d".toList =
      .error (.diagnostic ⟨.directive, "<input>".toList, some 1, .undefinedMacro ['a']⟩) s) ∧
    ∃ b s₁ u s₂, settle {} ".link\x7ba\x7d\x7b.link\x7bb\x7d\x7bc\x7d\x7d".toList {} = .ok b s₁ ∧
      Rounds {} b s₁ 1 u s₂ ∧ u.hasDirective = true := by
  obtain ⟨s, hnested⟩ := Run.exists_of_value?
    (r := preprocess (Context.withBound {} 2)
      ".link\x7ba\x7d\x7b.link\x7bb\x7d\x7bc\x7d\x7d".toList)
    (a := "<a href=\"<a href=\"c\">b</a>\">a</a>".toList) (by decide +kernel)
  obtain ⟨s', hundefined⟩ := Run.exists_of_failure?
    (r := preprocess (Context.withBound {} 1) ".macro\x7ba\x7d".toList)
    (e := .diagnostic ⟨.directive, "<input>".toList, some 1, .undefinedMacro ['a']⟩)
    (by decide +kernel)
  have hrefused := Run.exists_of_failure?
    (r := preprocess (Context.withBound {} 1)
      ".link\x7ba\x7d\x7b.link\x7bb\x7d\x7bc\x7d\x7d".toList)
    (e := .diagnostic ⟨.directive, "<input>".toList, none, .notConverged 1⟩) (by decide +kernel)
  refine ⟨⟨s, ?_⟩, ⟨s', ?_⟩, ?_⟩
  · exact (preprocess_withBound {} _ (N := 2) (by decide) (.inr (by decide))).1 _ s hnested
  · exact (preprocess_withBound {} _ (N := 1) (by decide) (.inl (by decide))).2.1 _ s' hundefined
      nofun
  · exact (preprocess_withBound {} _ (N := 1) (M := 1) (by decide) (.inl (by decide))).2.2.1
      hrefused

end Bracemark
