import Bracemark.Proofs.Contexts
import Bracemark.Proofs.Keeping

/-!
# Strict mode

Strict mode refuses what is otherwise warned of. A run and the same run in strict mode go on
alike up to the first warning, and there the strict one ends (`Run.Heeds`). Runs that are
related so can be put together to runs that are, since a run takes back no warning. Only a
style that a format names twice tells the two apart, and so the relation reaches from
`Style.repeated` up to the whole of preprocessing (`preprocess_strict`).
-/

namespace Bracemark

namespace Run

variable {α β : Type} {file : Text}

/-- The state in which a run ends, whether it has a result or not. -/
def final : EStateM.Result Failure RunState α → RunState
  | .ok _ s => s
  | .error _ s => s

/-- A warning of a style that a format of the file names twice. -/
def WarnsTwice (file : Text) (w : Diagnostic) : Prop :=
  ∃ line c, w = ⟨.directive, file, some line, .redundantSpecifier c⟩

/-- What strict mode makes of how a run goes on from a state: nothing else if the run does not
warn, and else a failure with the first of its warnings. -/
inductive Heeded (file : Text) (s : RunState) (lenient : EStateM.Result Failure RunState α) :
    EStateM.Result Failure RunState α → Prop where
  | silent (h : (final lenient).warnings = s.warnings) : Heeded file s lenient lenient
  | warned {w : Diagnostic} {more : List Diagnostic} (s' : RunState)
      (h : (final lenient).warnings = s.warnings ++ w :: more) (hw : WarnsTwice file w) :
      Heeded file s lenient (.error (.diagnostic w) s')

/-- The second run is what strict mode makes of the first one. -/
def Heeds (file : Text) (lenient strict : Run α) : Prop :=
  ∀ s, Heeded file s (lenient s) (strict s)

/-- A run takes back no warning. -/
theorem Heeded.exists_warnings {s : RunState} {r r' : EStateM.Result Failure RunState α}
    (h : Heeded file s r r') : ∃ more, (final r).warnings = s.warnings ++ more := by
  cases h with
  | silent h => exact ⟨[], by simpa using h⟩
  | warned s' h hw => exact ⟨_, h⟩

namespace Heeds

theorem of_keeps {x : Run α} (h : Keeps (·.warnings) x) : Heeds file x x := by
  intro s
  refine .silent ?_
  cases hx : x s with
  | ok a s' => exact h.of_ok hx
  | error e s' => exact h.of_error hx

theorem pure (a : α) : Heeds file (Pure.pure a) (Pure.pure a) := of_keeps (.pure a)

theorem throw (e : Failure) : Heeds file (throw e : Run α) (throw e) :=
  of_keeps (.throw e)

theorem note (e : Event) : Heeds file (Run.note e) (Run.note e) :=
  of_keeps (Quiet.note e).warnings

/-- Once a part of a run has warned, the rest of it cannot undo that. -/
theorem bind {x y : Run α} {f g : α → Run β} (hx : Heeds file x y)
    (hf : ∀ a, Heeds file (f a) (g a)) : Heeds file (x >>= f) (y >>= g) := by
  intro s
  have hfirst := hx s
  generalize hy : y s = r' at hfirst
  cases hres : x s with
  | error e s₁ =>
    rw [hres] at hfirst
    rw [bind_of_error hres]
    cases hfirst with
    | silent h =>
      rw [bind_of_error hy]
      exact .silent h
    | warned s' h hw =>
      rw [bind_of_error hy]
      exact .warned s' h hw
  | ok a s₁ =>
    rw [hres] at hfirst
    rw [bind_of_ok hres]
    have hsecond := hf a s₁
    cases hfirst with
    | silent h =>
      rw [bind_of_ok hy]
      have h : s₁.warnings = s.warnings := h
      generalize g a s₁ = r' at hsecond
      cases hsecond with
      | silent h' => exact .silent (h'.trans h)
      | warned s' h' hw => exact .warned s' (by rw [h', h]) hw
    | @warned w more s' h hw =>
      obtain ⟨rest, hrest⟩ := hsecond.exists_warnings
      have h : s₁.warnings = s.warnings ++ w :: more := h
      rw [bind_of_error hy]
      refine .warned s' (?_ : _ = s.warnings ++ w :: (more ++ rest)) hw
      rw [hrest, h, List.append_assoc, List.cons_append]

theorem foldlM {es : List α} {f g : β → α → Run β} (h : ∀ b e, Heeds file (f b e) (g b e))
    (b : β) : Heeds file (es.foldlM f b) (es.foldlM g b) := by
  induction es generalizing b with
  | nil => exact pure b
  | cons e es ih =>
    simp only [List.foldlM_cons]
    exact (h b e).bind ih

end Heeds

end Run

open Run (Keeps Quiet Heeds)

variable (ctx : Context)

namespace Style

/-- The warning that strict mode turns into a failure. -/
theorem repeated_heeds (line : Nat) (c : Char) :
    Heeds ctx.path (repeated (ctx.withStrict false) line c)
      (repeated (ctx.withStrict true) line c) := by
  intro s
  refine .warned s (?_ : _ = s.warnings ++ [_]) ⟨line, c, rfl⟩
  rfl

theorem applyAll_heeds (line : Nat) (seen spec t : Text) :
    Heeds ctx.path (applyAll (ctx.withStrict false) line seen spec t)
      (applyAll (ctx.withStrict true) line seen spec t) := by
  induction spec generalizing seen t with
  | nil => exact .pure t
  | cons c rest ih =>
    rw [applyAll, applyAll]
    by_cases hseen : seen.contains c
    · simp only [hseen, if_true]
      exact (repeated_heeds ctx line c).bind fun _ => ih seen t
    · simp only [hseen]
      cases ofSpecifier? c with
      | none => exact .throw _
      | some style =>
        have happly : Heeds ctx.path (apply t style) (apply t style) :=
          .of_keeps (apply_quiet t style).warnings
        exact happly.bind fun u => ih (c :: seen) u

end Style

namespace Resolve

theorem site_heeds (site : Site) :
    Heeds ctx.path (Resolve.site (ctx.withStrict false) site)
      (Resolve.site (ctx.withStrict true) site) := by
  by_cases h : site.directive = .format
  · unfold Resolve.site
    rw [h]
    exact Style.applyAll_heeds ctx _ _ _ _
  · rw [site_eq_of_reads (ctx.readsAlike_withStrict false true) (.inl h)]
    exact .of_keeps (site_quiet _ h).warnings

theorem sites_heeds (buffer : Text) (found : List (Except BlockFault Site)) :
    Heeds ctx.path (sites (ctx.withStrict false) buffer found)
      (sites (ctx.withStrict true) buffer found) := by
  induction found with
  | nil => exact .pure []
  | cons r rest ih =>
    cases r with
    | error f => exact .throw _
    | ok site => exact (site_heeds ctx site).bind fun _ => ih.bind fun _ => .pure _

theorem family_heeds (f : Family) (t : Text) :
    Heeds ctx.path (family (ctx.withStrict false) f t) (family (ctx.withStrict true) f t) := by
  refine (sites_heeds ctx t _).bind fun edits => ?_
  cases edits with
  | nil => exact .pure _
  | cons e es => exact (Heeds.note _).bind fun _ => .pure _

end Resolve

namespace Preprocess

theorem settle_heeds (t : Text) :
    Heeds ctx.path (settle (ctx.withStrict false) t) (settle (ctx.withStrict true) t) :=
  .of_keeps (settle_quiet (ctx.withStrict false) t).warnings

theorem stage_heeds (t : Text) (f : Family) :
    Heeds ctx.path (stage (ctx.withStrict false) t f) (stage (ctx.withStrict true) t f) := by
  have hbare : Heeds ctx.path (bareStage (ctx.withStrict false) f t)
      (bareStage (ctx.withStrict true) f t) := by
    refine (Resolve.family_heeds ctx f t).bind fun v => ?_
    cases f
    case replacements =>
      exact .of_keeps (Resolve.pending_quiet (ctx.withStrict false) v).warnings
    all_goals exact .pure v
  rw [stage_eq, stage_eq]
  exact hbare.bind fun v => (settle_heeds ctx v).bind fun _ =>
    (Heeds.note _).bind fun _ => .pure _

theorem pass_heeds (t : Text) :
    Heeds ctx.path (pass (ctx.withStrict false) t) (pass (ctx.withStrict true) t) :=
  Heeds.foldlM (stage_heeds ctx) t

theorem beginPass_heeds :
    Heeds ctx.path (beginPass (ctx.withStrict false)) (beginPass (ctx.withStrict true)) := by
  have hkeeps : Keeps (·.warnings) (beginPass (ctx.withStrict false)) := by
    unfold beginPass
    refine .bind (.modify fun _ => rfl) fun _ => Keeps.get.bind fun s => ?_
    simp only
    split
    · exact (Keeps.throw _).bind fun _ => (Quiet.note _).warnings
    · exact (Quiet.note _).warnings
  exact .of_keeps hkeeps

theorem converge_heeds (fuel : Nat) (t : Text) :
    Heeds ctx.path (converge (ctx.withStrict false) fuel t)
      (converge (ctx.withStrict true) fuel t) := by
  induction fuel generalizing t with
  | zero =>
    by_cases h : t.hasDirective = true
    · intro s
      rw [converge_zero h, converge_zero h]
      exact .silent rfl
    · rw [Bool.not_eq_true] at h
      rw [converge_of_resolved h, converge_of_resolved h]
      exact .pure t
  | succ fuel ih =>
    by_cases h : t.hasDirective = true
    · rw [converge_of_hasDirective h, converge_of_hasDirective h]
      exact (beginPass_heeds ctx).bind fun _ => (pass_heeds ctx t).bind ih
    · rw [Bool.not_eq_true] at h
      rw [converge_of_resolved h, converge_of_resolved h]
      exact .pure t

theorem source_heeds (t : Text) :
    Heeds ctx.path (source (ctx.withStrict false) t) (source (ctx.withStrict true) t) := by
  rw [source_eq, source_eq]
  refine (settle_heeds ctx t).bind fun u => (converge_heeds ctx _ u).bind fun v => ?_
  exact .of_keeps (Keeps.get.bind fun _ => (Quiet.note _).warnings.bind fun _ => .pure v)

end Preprocess

/-- Strict mode only turns warnings into failures: a strict run has a result just where the
other one has it without a warning, and ends alike then; the first warning of the other run is
what the strict one fails with; and a failure that comes before any warning is that of both. -/
theorem preprocess_strict (ctx : Context) (t : Text) :
    (∀ u s, preprocess (ctx.withStrict true) t = .ok u s ↔
      preprocess (ctx.withStrict false) t = .ok u s ∧ s.warnings = []) ∧
    (∀ w ws, (Run.final (preprocess (ctx.withStrict false) t)).warnings = w :: ws →
      (∃ line c, w = ⟨.directive, ctx.path, some line, .redundantSpecifier c⟩) ∧
        ∃ s, preprocess (ctx.withStrict true) t = .error (.diagnostic w) s) ∧
    ∀ e s, preprocess (ctx.withStrict false) t = .error e s → s.warnings = [] →
      preprocess (ctx.withStrict true) t = .error e s := by
  have hheeded : Run.Heeded ctx.path {} (preprocess (ctx.withStrict false) t)
      (preprocess (ctx.withStrict true) t) := Preprocess.source_heeds ctx t {}
  generalize preprocess (ctx.withStrict false) t = lenient at hheeded ⊢
  generalize preprocess (ctx.withStrict true) t = strict at hheeded ⊢
  cases hheeded with
  | silent h =>
    have h : (Run.final lenient).warnings = [] := h
    refine ⟨?_, ?_, ?_⟩
    · intro u s
      constructor
      · rintro rfl
        exact ⟨rfl, h⟩
      · rintro ⟨hlenient, -⟩
        exact hlenient
    · intro w ws hw
      rw [h] at hw
      cases hw
    · intro e s hlenient _
      exact hlenient
  | @warned w more s' h hw =>
    have h : (Run.final lenient).warnings = w :: more := h
    refine ⟨?_, ?_, ?_⟩
    · intro u s
      constructor
      · intro hstrict
        cases hstrict
      · rintro ⟨rfl, hnone⟩
        have hfinal : s.warnings = w :: more := h
        rw [hnone] at hfinal
        cases hfinal
    · intro w' ws hwarnings
      rw [h] at hwarnings
      cases hwarnings
      exact ⟨hw, s', rfl⟩
    · rintro e s rfl hnone
      have hfinal : s.warnings = w :: more := h
      rw [hnone] at hfinal
      cases hfinal

/-- A style named twice is warned of in a run that ends well, and refused in strict mode. A run
that does not warn ends alike in both. -/
theorem preprocess_strict_twice :
    (∃ s, preprocess (Context.withStrict {} true) ".format\x7bbb\x7d\x7bx\x7d".toList =
      .error (.diagnostic ⟨.directive, "<input>".toList, some 1, .redundantSpecifier 'b'⟩) s) ∧
    (∃ s, preprocess (Context.withStrict {} true) ".format\x7bb\x7d\x7bx\x7d".toList =
      .ok "<b>x</b>".toList s) ∧
    ∃ s, preprocess (Context.withStrict {} true) ".macro\x7ba\x7d".toList =
      .error (.diagnostic ⟨.directive, "<input>".toList, some 1, .undefinedMacro ['a']⟩) s := by
  have htwice : (Run.final (preprocess (Context.withStrict {} false)
      ".format\x7bbb\x7d\x7bx\x7d".toList)).warnings =
      [⟨.directive, "<input>".toList, some 1, .redundantSpecifier 'b'⟩] := by decide +kernel
  have honce : (Run.final (preprocess (Context.withStrict {} false)
      ".format\x7bb\x7d\x7bx\x7d".toList)).warnings = [] := by decide +kernel
  have hundefined : (Run.final (preprocess (Context.withStrict {} false)
      ".macro\x7ba\x7d".toList)).warnings = [] := by decide +kernel
  refine ⟨((preprocess_strict {} _).2.1 _ _ htwice).2, ?_, ?_⟩
  · obtain ⟨s, hs⟩ := Run.exists_of_value?
      (r := preprocess (Context.withStrict {} false) ".format\x7bb\x7d\x7bx\x7d".toList)
      (a := "<b>x</b>".toList) (by decide +kernel)
    rw [hs] at honce
    exact ⟨s, ((preprocess_strict {} _).1 _ s).2 ⟨hs, honce⟩⟩
  · obtain ⟨s, hs⟩ := Run.exists_of_failure?
      (r := preprocess (Context.withStrict {} false) ".macro\x7ba\x7d".toList)
      (e := .diagnostic ⟨.directive, "<input>".toList, some 1, .undefinedMacro ['a']⟩)
      (by decide +kernel)
    rw [hs] at hundefined
    exact ⟨s, (preprocess_strict {} _).2.2 _ s hs hundefined⟩

end Bracemark
