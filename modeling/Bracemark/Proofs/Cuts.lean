import Bracemark.Text.Segment

/-!
# Scanning part by part

A scanner may look ahead, so scanning the parts of a list need not give what scanning
the whole of it gives. `Cuts step u out` says that the scanner cuts `u` into `out`
whatever stands behind `u`. Parts that are cut in this way can be put together
(`Cuts.append`), and the escape pairs, the protected codes and the stretches of a
family scan all are such parts.

A scanner goes on at a suffix of what is left, so what is said of a whole scan is proved by
induction on the suffixes of a list (`suffix_induction`), or on its segments
(`segment_induction`).
-/

namespace Bracemark

/-! ## Induction along a list -/

section Induction

variable {α β : Type}

/-- Induction on a list from what is left of it behind an element: a scanner goes on at any of
these suffixes. -/
@[elab_as_elim]
theorem suffix_induction {motive : List α → Prop} (nil : motive [])
    (cons : ∀ x rest, (∀ s, s <:+ rest → motive s) → motive (x :: rest)) (xs : List α) :
    motive xs := by
  suffices h : ∀ s, s <:+ xs → motive s from h xs List.suffix_rfl
  induction xs with
  | nil =>
    intro s hs
    rwa [List.suffix_nil.1 hs]
  | cons x rest ih =>
    intro s hs
    rcases List.suffix_cons_iff.1 hs with rfl | hs
    · exact cons x rest ih
    · exact ih s hs

/-- Induction on a list segment by segment. -/
@[elab_as_elim]
theorem segment_induction (step : α → List α → β × Nat) {motive : List α → Prop}
    (nil : motive []) (cons : ∀ x rest, motive (rest.drop (step x rest).2) → motive (x :: rest))
    (xs : List α) : motive xs := by
  induction xs using suffix_induction with
  | nil => exact nil
  | cons x rest ih => exact cons x rest (ih _ (List.drop_suffix _ rest))

/-- What is left behind a part in front of a list is left behind its first element, too. -/
theorem suffix_of_append_eq_cons {u t rest : List α} {x : α} (hu : u ≠ [])
    (h : u ++ t = x :: rest) : t <:+ rest := by
  cases u with
  | nil => exact absurd rfl hu
  | cons y u => exact ⟨u, (List.cons.inj h).2⟩

end Induction

section Cuts

variable {α β γ : Type} {step : α → List α → β × Nat}

/-- Every output of a scanner is what its step gives at some element of the list. -/
theorem exists_suffix_of_mem_segment {y : β} :
    ∀ {xs : List α} {skip : Nat}, y ∈ segment step skip xs →
      ∃ x rest, x :: rest <:+ xs ∧ (step x rest).1 = y
  | [], skip, h => by
    rw [segment_nil] at h
    cases h
  | x :: rest, _ + 1, h => by
    rw [segment] at h
    obtain ⟨x', rest', hsuffix, hy⟩ := exists_suffix_of_mem_segment h
    exact ⟨x', rest', hsuffix.trans (List.suffix_cons x rest), hy⟩
  | x :: rest, 0, h => by
    rw [segment] at h
    rcases List.mem_cons.1 h with rfl | h
    · exact ⟨x, rest, List.suffix_rfl, rfl⟩
    · obtain ⟨x', rest', hsuffix, hy⟩ := exists_suffix_of_mem_segment h
      exact ⟨x', rest', hsuffix.trans (List.suffix_cons x rest), hy⟩

theorem exists_step_of_mem_segment {xs : List α} {skip : Nat} {y : β}
    (h : y ∈ segment step skip xs) : ∃ x rest, (step x rest).1 = y := by
  obtain ⟨x, rest, -, hy⟩ := exists_suffix_of_mem_segment h
  exact ⟨x, rest, hy⟩

/-- Outputs that spell what they take along spell the whole list. -/
theorem flatMap_segment {written : β → List α}
    (h : ∀ x rest, written (step x rest).1 = x :: rest.take (step x rest).2) (xs : List α) :
    (segment step 0 xs).flatMap written = xs := by
  induction xs using segment_induction step with
  | nil => rfl
  | cons x rest ih =>
    rw [segment_zero_cons, List.flatMap_cons, ih, h, List.cons_append, List.take_append_drop]

/-- Whatever follows `u`, the scanner cuts `u` into `out` and goes on behind it. -/
def Cuts (step : α → List α → β × Nat) (u : List α) (out : List β) : Prop :=
  ∀ post, segment step 0 (u ++ post) = out ++ segment step 0 post

namespace Cuts

theorem nil : Cuts step [] [] := fun _ => rfl

theorem append {u v : List α} {out more : List β} (hu : Cuts step u out)
    (hv : Cuts step v more) : Cuts step (u ++ v) (out ++ more) := by
  intro post
  rw [List.append_assoc, hu, hv, List.append_assoc]

/-- Scanning `u` alone gives its output. -/
theorem segment_eq {u : List α} {out : List β} (h : Cuts step u out) :
    segment step 0 u = out := by
  have := h []
  rwa [List.append_nil, segment_nil, List.append_nil] at this

/-- A segment that takes a known part along, whatever follows. -/
theorem of_step {x : α} {u : List α} {y : β}
    (h : ∀ post, step x (u ++ post) = (y, u.length)) : Cuts step (x :: u) [y] := by
  intro post
  rw [List.cons_append, segment_zero_cons, h post, List.drop_left]
  rfl

/-- A segment of one element. -/
theorem single {x : α} {y : β} (h : ∀ post, step x post = (y, 0)) : Cuts step [x] [y] :=
  of_step (u := []) h

/-- A list of parts, each with its own output. -/
theorem flatMap {f : γ → List α} {g : γ → List β} :
    ∀ {l : List γ}, (∀ c ∈ l, Cuts step (f c) (g c)) → Cuts step (l.flatMap f) (l.flatMap g)
  | [], _ => nil
  | c :: l, h => by
    rw [List.flatMap_cons, List.flatMap_cons]
    exact (h c List.mem_cons_self).append (flatMap fun d hd => h d (List.mem_cons_of_mem c hd))

/-- A list of segments of one element each. -/
theorem map {g : α → β} :
    ∀ {u : List α}, (∀ x ∈ u, ∀ post, step x post = (g x, 0)) → Cuts step u (u.map g)
  | [], _ => nil
  | x :: _, h =>
    (single (h x List.mem_cons_self)).append (map fun y hy => h y (List.mem_cons_of_mem x hy))

end Cuts

end Cuts

/-! ## Runs of elements of a class -/

section Runs

variable {α : Type}

theorem take_length_takeWhile (p : α → Bool) (t : List α) :
    t.take (t.takeWhile p).length = t.takeWhile p :=
  (List.prefix_iff_eq_take.1 (List.takeWhile_prefix p)).symm

theorem drop_length_takeWhile (p : α → Bool) (t : List α) :
    t.drop (t.takeWhile p).length = t.dropWhile p := by
  have h : t.takeWhile p ++ t.drop (t.takeWhile p).length =
      t.takeWhile p ++ t.dropWhile p := by
    rw [List.takeWhile_append_dropWhile]
    have h := List.take_append_drop (t.takeWhile p).length t
    rwa [take_length_takeWhile] at h
  exact List.append_cancel_left h

theorem length_takeWhile_false (t : List α) : (t.takeWhile fun _ => false).length = 0 := by
  cases t <;> rfl

theorem eq_true_of_mem_takeWhile {p : α → Bool} {t : List α} {x : α}
    (h : x ∈ t.takeWhile p) : p x = true :=
  List.all_eq_true.1 List.all_takeWhile x h

/-- A run ends in front of a character that is not of its class. -/
theorem takeWhile_append_cons {p : α → Bool} {b : α} (hb : p b = false) (t post : List α) :
    (t ++ b :: post).takeWhile p = t.takeWhile p := by
  induction t with
  | nil => rw [List.nil_append, List.takeWhile_cons_of_neg (by rw [hb]; exact Bool.false_ne_true),
      List.takeWhile_nil]
  | cons c t ih =>
    rw [List.cons_append, List.takeWhile_cons, List.takeWhile_cons, ih]

end Runs

end Bracemark
