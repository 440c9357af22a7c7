import Bracemark.Preprocess.Run

/-!
# Reasoning about runs

A run succeeds if its parts do, one after the other (`bind_eq_ok`). Many steps of a run only
note progress or warn: `Run.Yields x v` says that `x` gives `v` wherever no substitution
waits, and that it leaves the macros, the waiting substitutions and the number of passes as
they are.
-/

namespace Bracemark

section Sequences

variable {ε σ α β : Type} {x : EStateM ε σ α} {f : α → EStateM ε σ β} {s s' : σ}

theorem bind_of_ok {a : α} (h : x s = .ok a s') : (x >>= f) s = f a s' := by
  show EStateM.bind x f s = _
  unfold EStateM.bind
  rw [h]

theorem bind_of_error {e : ε} (h : x s = .error e s') : (x >>= f) s = .error e s' := by
  show EStateM.bind x f s = _
  unfold EStateM.bind
  rw [h]

/-- A sequence succeeds if its first part does and the second one goes on from there. -/
theorem bind_eq_ok {b : β} : (x >>= f) s = .ok b s' ↔ ∃ a t, x s = .ok a t ∧ f a t = .ok b s' := by
  cases h : x s with
  | ok a t =>
    rw [bind_of_ok h]
    constructor
    · intro hb
      exact ⟨a, t, rfl, hb⟩
    · rintro ⟨a', t', ha, hb⟩
      cases ha
      exact hb
  | error e t =>
    rw [bind_of_error h]
    constructor
    · exact nofun
    · rintro ⟨a', t', ha, -⟩
      cases ha

/-- A sequence fails if one of its parts does. -/
theorem bind_eq_error {e : ε} : (x >>= f) s = .error e s' ↔
    x s = .error e s' ∨ ∃ a t, x s = .ok a t ∧ f a t = .error e s' := by
  cases h : x s with
  | ok a t =>
    rw [bind_of_ok h]
    constructor
    · intro he
      exact .inr ⟨a, t, rfl, he⟩
    · rintro (he | ⟨a', t', ha, he⟩)
      · cases he
      · cases ha
        exact he
  | error e' t =>
    rw [bind_of_error h]
    constructor
    · intro he
      cases he
      exact .inl rfl
    · rintro (he | ⟨a', t', ha, -⟩)
      · cases he
        rfl
      · cases ha

end Sequences

/-! ## Steps that only note and warn -/

/-- Two states of a run that differ in their warnings and their progress at most. -/
structure RunState.Alike (s t : RunState) : Prop where
  macros : t.macros = s.macros
  pending : t.pending = s.pending
  passes : t.passes = s.passes

namespace RunState.Alike

theorem refl (s : RunState) : s.Alike s := ⟨rfl, rfl, rfl⟩

theorem trans {s t u : RunState} (h : s.Alike t) (h' : t.Alike u) : s.Alike u :=
  ⟨h'.macros.trans h.macros, h'.pending.trans h.pending, h'.passes.trans h.passes⟩

end RunState.Alike

namespace Run

variable {α β : Type}

/-- What a part of a run gives, if it succeeds. -/
def value? : EStateM.Result Failure RunState α → Option α
  | .ok a _ => some a
  | .error _ _ => none

/-- What ends a part of a run that fails. -/
def failure? : EStateM.Result Failure RunState α → Option Failure
  | .ok _ _ => none
  | .error e _ => some e

theorem exists_of_value? {r : EStateM.Result Failure RunState α} {a : α}
    (h : value? r = some a) : ∃ s, r = .ok a s := by
  cases r with
  | ok b s =>
    cases h
    exact ⟨s, rfl⟩
  | error e s => cases h

theorem exists_of_failure? {r : EStateM.Result Failure RunState α} {e : Failure}
    (h : failure? r = some e) : ∃ s, r = .error e s := by
  cases r with
  | ok b s => cases h
  | error e' s =>
    cases h
    exact ⟨s, rfl⟩

/-- One event is noted for each element of a list. -/
theorem notes_eq_ok (es : List α) (event : α → Event) (s : RunState) :
    ∃ t, (es.forM fun e => note (event e)) s = .ok () t ∧ s.Alike t := by
  induction es generalizing s with
  | nil => exact ⟨s, rfl, .refl s⟩
  | cons e es ih =>
    obtain ⟨t, ht, hst⟩ := ih { s with progress := s.progress.push (event e) }
    exact ⟨t, (bind_of_ok rfl).trans ht, hst.macros, hst.pending, hst.passes⟩

theorem deprotect_eq_ok (scheme : Scheme) (t : Text) (s : RunState) :
    ∃ s', Run.deprotect scheme t s = .ok (scheme.deprotect t) s' ∧ s.Alike s' := by
  obtain ⟨s', hs', hss'⟩ := notes_eq_ok (scheme.unknownTags t) .droppedCode s
  exact ⟨s', (bind_of_ok hs').trans rfl, hss'⟩

/-- Protection fails at a fault of the text, and else at most notes progress. -/
theorem protect_cases (scheme : Scheme) (file t : Text) (s : RunState) :
    (∃ f, scheme.fault? t = some f ∧
      Run.protect scheme file t s = .error (.diagnostic (escapeDiagnostic file t f)) s) ∨
    (scheme.fault? t = none ∧
      ∃ s', Run.protect scheme file t s = .ok (scheme.protect t) s' ∧ s.Alike s') := by
  unfold Run.protect
  cases hfault : scheme.fault? t with
  | some f => exact .inl ⟨f, rfl, rfl⟩
  | none =>
    refine .inr ⟨rfl, ?_⟩
    simp only
    split
    · exact ⟨_, rfl, rfl, rfl, rfl⟩
    · exact ⟨s, rfl, .refl s⟩

/-- From every state in which no substitution waits, `x` gives `v` and at most notes progress
and warns. -/
def Yields (x : Run α) (v : α) : Prop :=
  ∀ s, s.pending = [] → ∃ t, x s = .ok v t ∧ s.Alike t

namespace Yields

theorem pure (v : α) : Yields (Pure.pure v) v := fun s _ => ⟨s, rfl, .refl s⟩

theorem bind {x : Run α} {f : α → Run β} {v : α} {w : β} (hx : Yields x v)
    (hf : Yields (f v) w) : Yields (x >>= f) w := by
  intro s hs
  obtain ⟨t, ht, hst⟩ := hx s hs
  obtain ⟨u, hu, htu⟩ := hf t (hst.pending.trans hs)
  exact ⟨u, (bind_of_ok ht).trans hu, hst.trans htu⟩

theorem note (e : Event) : Yields (Run.note e) () := fun s _ =>
  ⟨{ s with progress := s.progress.push e }, rfl, rfl, rfl, rfl⟩

theorem warn (ctx : Context) (line : Nat) (cause : Cause) : Yields (Run.warn ctx line cause) () :=
  fun s _ => ⟨{ s with
    warnings := s.warnings ++ [⟨.directive, ctx.path, some line, cause⟩] }, rfl, rfl, rfl, rfl⟩

theorem notes (es : List α) (event : α → Event) :
    Yields (es.forM fun e => Run.note (event e)) () :=
  fun s _ => notes_eq_ok es event s

/-- Protecting a text that the scheme accepts. -/
theorem protect {scheme : Scheme} {t : Text} (h : scheme.fault? t = none) (file : Text) :
    Yields (Run.protect scheme file t) (scheme.protect t) := by
  unfold Run.protect
  rw [h]
  simp only
  split
  · exact (note _).bind (.pure _)
  · exact .pure _

theorem deprotect (scheme : Scheme) (t : Text) :
    Yields (Run.deprotect scheme t) (scheme.deprotect t) :=
  (notes _ _).bind (.pure _)

end Yields

end Run

end Bracemark
