import Bracemark.File.Tree

/-!
# Writing files

Making directories changes no file, and a written file is the only one that is changed
(`FileTree.file?_put`). The tree with the file in it still leads the same way to the same place, so
what could be written once can be written again (`FileTree.write_put`).
-/

namespace Bracemark

namespace FileTree

/-- The tree with a file at a place. -/
def put (t : FileTree) (spot : Spot) (bytes : Bytes) : FileTree :=
  { t with files := (spot, bytes) :: t.files.filter (·.1 ≠ spot) }

variable {t t' : FileTree} {p : Path} {spot : Spot} {bytes : Bytes}

/-! ## Directories -/

theorem files_of_makeDirectory (h : t.makeDirectory p = .ok t') : t'.files = t.files := by
  unfold makeDirectory at h
  cases hspot : t.locate p with
  | error e =>
    rw [hspot] at h
    cases h
  | ok spot =>
    rw [hspot] at h
    by_cases hfile : (t.file? spot).isSome = true
    · simp [bind, Except.bind, hfile, throw, throwThe, MonadExceptOf.throw] at h
    · by_cases hdirectory : t.isDirectory spot = true
      · simp [bind, Except.bind, hfile, hdirectory, pure, Except.pure] at h
        rw [h]
      · simp [bind, Except.bind, hfile, hdirectory, pure, Except.pure] at h
        rw [← h]

/-- Making directories changes no file. -/
theorem files_of_makeDirectories {n : Nat} (h : t.makeDirectories p n = .ok t') :
    t'.files = t.files := by
  induction n generalizing t' with
  | zero => exact files_of_makeDirectory h
  | succ n ih =>
    rw [makeDirectories] at h
    split at h
    · cases habove : t.makeDirectories p n with
      | error e =>
        rw [habove] at h
        cases h
      | ok above =>
        rw [habove] at h
        exact (files_of_makeDirectory h).trans (ih habove)
    · exact files_of_makeDirectory h

/-! ## Files -/

theorem write_eq_ok_iff : t.write p bytes = .ok t' ↔
    ∃ spot, t.locate p = .ok spot ∧ t.isDirectory spot = false ∧ t' = t.put spot bytes := by
  unfold write
  cases hspot : t.locate p with
  | error e => simp [bind, Except.bind]
  | ok spot =>
    cases hdirectory : t.isDirectory spot with
    | true => simp [bind, Except.bind, hdirectory, throw, throwThe, MonadExceptOf.throw]
    | false =>
      have hwritten : (.ok (t.put spot bytes) : Except FileError FileTree) = .ok t' ↔
          t' = t.put spot bytes := by
        rw [Except.ok.injEq, eq_comm]
      simpa [bind, Except.bind, hdirectory, pure, Except.pure, put] using hwritten

/-- Only the file that is written is another one. -/
theorem file?_put (t : FileTree) (spot : Spot) (bytes : Bytes) (other : Spot) :
    (t.put spot bytes).file? other = if other = spot then some bytes else t.file? other := by
  unfold put file?
  by_cases h : other = spot
  · simp [h]
  · have hfilter (files : List (Spot × Bytes)) :
        (files.filter (·.1 ≠ spot)).lookup other = files.lookup other := by
      induction files with
      | nil => rfl
      | cons entry files ih =>
        obtain ⟨place, content⟩ := entry
        by_cases hplace : place = spot
        · have hne : (other == place) = false := by
            rw [hplace]
            exact beq_eq_false_iff_ne.2 h
          rw [List.filter_cons_of_neg (by simp [hplace]), List.lookup_cons, hne, ih]
        · rw [List.filter_cons_of_pos (by simp [hplace]), List.lookup_cons, List.lookup_cons, ih]
    rw [List.lookup_cons, beq_eq_false_iff_ne.2 h, hfilter, if_neg h]

theorem put_put (t : FileTree) (spot : Spot) (bytes bytes' : Bytes) :
    (t.put spot bytes).put spot bytes' = t.put spot bytes' := by
  simp [put, List.filter_filter]

/-- A file is no directory for itself. -/
theorem isDirectory_put_self (t : FileTree) (spot : Spot) (bytes : Bytes) :
    (t.put spot bytes).isDirectory spot = t.isDirectory spot := by
  have hany (files : List (Spot × Bytes)) :
      ((files.filter (·.1 ≠ spot)).any fun entry => entry.1 ≠ spot && spot.isPrefixOf entry.1) =
        files.any fun entry => entry.1 ≠ spot && spot.isPrefixOf entry.1 := by
    rw [List.any_filter]
    congr 1
    funext entry
    by_cases h : entry.1 = spot <;> simp [h]
  unfold isDirectory put
  rw [List.any_cons, hany]
  simp

/-- What was a directory still is one. -/
theorem isDirectory_put {place : Spot} (h : t.isDirectory place = true) :
    (t.put spot bytes).isDirectory place = true := by
  unfold isDirectory at h ⊢
  rw [Bool.or_eq_true] at h ⊢
  rcases h with h | h
  · exact .inl h
  · refine .inr ?_
    obtain ⟨entry, hentry, hplace⟩ := List.any_eq_true.1 h
    by_cases hspot : entry.1 = spot
    · refine List.any_eq_true.2 ⟨(spot, bytes), List.mem_cons_self, ?_⟩
      rwa [← hspot]
    · refine List.any_eq_true.2 ⟨entry, List.mem_cons_of_mem _ ?_, hplace⟩
      exact List.mem_filter.2 ⟨hentry, by simp [hspot]⟩

theorem follow_put {start goal : Spot} {parts : List Text} (h : t.follow start parts = .ok goal) :
    (t.put spot bytes).follow start parts = .ok goal := by
  induction parts generalizing start with
  | nil => exact h
  | cons part parts ih =>
    rw [follow] at h ⊢
    by_cases hdirectory : t.isDirectory start = true
    · rw [if_pos hdirectory] at h
      rw [if_pos (isDirectory_put hdirectory)]
      exact ih h
    · rw [if_neg hdirectory] at h
      cases h

/-- A path leads to the same place as before. -/
theorem locate_put {goal : Spot} (h : t.locate p = .ok goal) :
    (t.put spot bytes).locate p = .ok goal := by
  unfold locate at h ⊢
  by_cases hnul : (p.parts.any (·.contains '\x00')) = true
  · rw [if_pos hnul] at h
    cases h
  · rw [if_neg hnul] at h ⊢
    exact follow_put h

/-- A file that has been written can be written again. -/
theorem write_put (hspot : t.locate p = .ok spot) (hdirectory : t.isDirectory spot = false)
    (bytes bytes' : Bytes) : (t.put spot bytes).write p bytes' = .ok (t.put spot bytes') := by
  refine write_eq_ok_iff.2 ⟨spot, locate_put hspot, ?_, (put_put ..).symm⟩
  rw [isDirectory_put_self, hdirectory]

end FileTree

end Bracemark
