import Bracemark.Text.Basic

/-!
# Cutting a list into segments

Every scanner of the library works the same way: at the first element not yet
passed over it looks at that element and at what follows, gives an output, and
says how many of the following elements belong to the same segment. `segment`
is that walk. It is structural: elements that belong to an earlier segment are
counted off one by one, so no scanner needs a termination argument of its own.

`segment_eq_drop` says that counting off is the same as dropping, and
`segment_zero_cons` is the resulting equation of a scanner.
-/

namespace Bracemark

/-- Walks along a list. `step x rest` sees an element with what follows it,
and gives an output and the number of following elements it takes along. The
first `skip` elements are passed over. -/
def segment {α β : Type} (step : α → List α → β × Nat) : Nat → List α → List β
  | _, [] => []
  | skip + 1, _ :: rest => segment step skip rest
  | 0, x :: rest => (step x rest).1 :: segment step (step x rest).2 rest

variable {α β : Type} (step : α → List α → β × Nat)

@[simp] theorem segment_nil (skip : Nat) : segment step skip [] = [] := by
  cases skip <;> rfl

theorem segment_eq_drop (skip : Nat) (xs : List α) :
    segment step skip xs = segment step 0 (xs.drop skip) := by
  induction skip generalizing xs with
  | zero => simp
  | succ n ih => cases xs with
    | nil => simp
    | cons x rest => simpa [segment] using ih rest

theorem segment_zero_cons (x : α) (rest : List α) :
    segment step 0 (x :: rest) =
      (step x rest).1 :: segment step 0 (rest.drop (step x rest).2) := by
  rw [segment, segment_eq_drop]

end Bracemark
