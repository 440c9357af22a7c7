import Bracemark.Proofs.Passes

/-!
# Normal forms

A text that preprocessing has returned holds no directive and no backslash, and has as many
opening as closing braces. Such a text is a normal form: preprocessing returns it at once, in
whatever context (`preprocess_normal`).

Whatever a family makes of a buffer, from macros, files and patterns, its stage protects the
result and counts the braces. So the buffer is settled behind every stage that does not fail
(`Preprocess.settled_of_stage`), and behind every pass.
-/

namespace Bracemark

/-- A text without backslashes that has as many opening as closing braces. -/
structure Text.Settled (t : Text) : Prop where
  noEscape : '\\' ∉ t
  balanced : t.braces.1 = t.braces.2

namespace Preprocess

variable {ctx : Context} {s s' : RunState}

/-- What protection returns has no backslash, and so nothing is left to protect. -/
theorem notMem_of_protect {path t u : Text} (h : Run.protect .document path t s = .ok u s') :
    '\\' ∉ u := by
  unfold Run.protect at h
  cases hfault : Scheme.document.fault? t with
  | some f =>
    rw [hfault] at h
    cases h
  | none =>
    rw [hfault] at h
    simp only at h
    split at h
    · obtain ⟨_, _, -, h⟩ := bind_eq_ok.1 h
      cases h
      exact Scheme.notMem_protect hfault
    · cases h
      exact Scheme.notMem_protect hfault

theorem balanced_of_verifyBraces {t : Text} (h : verifyBraces ctx t s = .ok () s') :
    t.braces.1 = t.braces.2 := by
  unfold verifyBraces at h
  simp only at h
  split at h
  · assumption
  · cases h

/-- The buffer is settled behind every stage. -/
theorem settled_of_stage {f : Family} {t u : Text} (h : stage ctx t f s = .ok u s') :
    u.Settled := by
  obtain ⟨_, _, -, h⟩ := bind_eq_ok.1 h
  obtain ⟨v, _, hprotect, h⟩ := bind_eq_ok.1 h
  obtain ⟨_, _, hverify, h⟩ := bind_eq_ok.1 h
  obtain ⟨_, _, -, h⟩ := bind_eq_ok.1 h
  cases h
  exact ⟨notMem_of_protect hprotect, balanced_of_verifyBraces hverify⟩

theorem settled_of_stages {fs : List Family} {t u : Text} (ht : t.Settled)
    (h : fs.foldlM (stage ctx) t s = .ok u s') : u.Settled := by
  induction fs generalizing t s with
  | nil =>
    cases h
    exact ht
  | cons f fs ih =>
    rw [List.foldlM_cons] at h
    obtain ⟨v, _, hstage, h⟩ := bind_eq_ok.1 h
    exact ih (settled_of_stage hstage) h

/-- Passes on a settled buffer return a settled one without directives. -/
theorem settled_of_converge {fuel : Nat} {t u : Text} (ht : t.Settled)
    (h : converge ctx fuel t s = .ok u s') : u.Settled ∧ u.hasDirective = false := by
  induction fuel generalizing t s with
  | zero =>
    cases hdirective : t.hasDirective with
    | true =>
      rw [converge_zero hdirective] at h
      cases h
    | false =>
      rw [converge_of_resolved hdirective] at h
      cases h
      exact ⟨ht, hdirective⟩
  | succ fuel ih =>
    cases hdirective : t.hasDirective with
    | true =>
      rw [converge_of_hasDirective hdirective] at h
      obtain ⟨_, _, -, h⟩ := bind_eq_ok.1 h
      obtain ⟨v, _, hpass, h⟩ := bind_eq_ok.1 h
      exact ih (settled_of_stages ht hpass) h
    | false =>
      rw [converge_of_resolved hdirective] at h
      cases h
      exact ⟨ht, hdirective⟩

/-- The result of preprocessing is settled and holds no directive. -/
theorem settled_of_source {t u : Text} (h : source ctx t s = .ok u s') :
    u.Settled ∧ u.hasDirective = false := by
  obtain ⟨v, _, hprotect, h⟩ := bind_eq_ok.1 h
  obtain ⟨_, _, hverify, h⟩ := bind_eq_ok.1 h
  obtain ⟨w, _, hconverge, h⟩ := bind_eq_ok.1 h
  obtain ⟨_, _, -, h⟩ := bind_eq_ok.1 h
  obtain ⟨_, _, -, h⟩ := bind_eq_ok.1 h
  cases h
  exact settled_of_converge ⟨notMem_of_protect hprotect, balanced_of_verifyBraces hverify⟩ hconverge

/-- A settled text without directives is its own result, and no pass is run on it. -/
theorem source_of_settled (ctx : Context) {t : Text} (ht : t.Settled)
    (hdirective : t.hasDirective = false)
    (hs : s.pending = []) : ∃ s', s.Alike s' ∧ source ctx t s = .ok t s' := by
  have hprotect := Scheme.protect_of_notMem (s := .document) ht.noEscape
  obtain ⟨s₁, hs₁, hsource⟩ := source_of_converge ctx hs
    (Scheme.fault?_of_notMem ht.noEscape) (by rw [hprotect]; exact ht.balanced)
  rw [hprotect, converge_of_resolved hdirective] at hsource
  obtain ⟨s₂, hs₂, hresult⟩ := hsource t s₁ rfl
  exact ⟨s₂, hs₁.trans hs₂, hresult⟩

end Preprocess

/-- What preprocessing returns is a normal form, and preprocessing it in any context gives it
back without a pass and without a macro. -/
theorem preprocess_normal {ctx : Context} {t u : Text} {s : RunState}
    (h : preprocess ctx t = .ok u s) :
    u.hasDirective = false ∧ '\\' ∉ u ∧ u.braces.1 = u.braces.2 ∧
      ∀ ctx' : Context, ∃ s', preprocess ctx' u = .ok u s' ∧ s'.passes = 0 ∧ s'.macros = [] := by
  obtain ⟨hsettled, hdirective⟩ := Preprocess.settled_of_source h
  refine ⟨hdirective, hsettled.noEscape, hsettled.balanced, fun ctx' => ?_⟩
  obtain ⟨s', hs', hresult⟩ :=
    Preprocess.source_of_settled ctx' (s := {}) hsettled hdirective rfl
  exact ⟨s', hresult, hs'.passes, hs'.macros⟩

theorem preprocess_normal_link :
    ∃ s, preprocess {} ".link\x7ba\x7d\x7bu\\.v\x7d".toList =
        .ok "<a href=\"u@#\x27:[;:P_]v\">a</a>".toList s ∧
      ∀ ctx : Context, ∃ s', preprocess ctx "<a href=\"u@#\x27:[;:P_]v\">a</a>".toList =
        .ok "<a href=\"u@#\x27:[;:P_]v\">a</a>".toList s' ∧ s'.passes = 0 ∧ s'.macros = [] := by
  have htext : (match preprocess {} ".link\x7ba\x7d\x7bu\\.v\x7d".toList with
      | .ok t _ => some t
      | .error .. => none) = some "<a href=\"u@#\x27:[;:P_]v\">a</a>".toList := by decide +kernel
  cases hresult : preprocess {} ".link\x7ba\x7d\x7bu\\.v\x7d".toList with
  | error f s =>
    rw [hresult] at htext
    cases htext
  | ok t s =>
    rw [hresult] at htext
    obtain rfl := Option.some.inj htext
    exact ⟨s, rfl, (preprocess_normal hresult).2.2.2⟩

end Bracemark
