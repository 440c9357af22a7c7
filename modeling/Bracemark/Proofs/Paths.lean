import Bracemark.File.Tree

/-!
# Paths and where they lead

A path that is read from a text has components of one form (`Path.normal_ofText`), and a path
with such components is read back from what it is written as (`Path.ofText_toText`). A relative
path leads to the same place as the absolute one that it stands for
(`FileTree.locate_absolute`), as every directory on the way to the working directory is there.
-/

namespace Bracemark

/-! ## Parts between separators -/

namespace Text

variable {separator : Char}

theorem cut_separator (separator : Char) (t : Text) :
    cut separator (separator :: t) = [] :: cut separator t := by
  rw [cut, decide_eq_true rfl]

theorem cut_cons {c : Char} (hc : c ≠ separator) (t : Text) :
    ∃ part parts, cut separator t = part :: parts ∧
      cut separator (c :: t) = (c :: part) :: parts := by
  have hne (t : Text) : cut separator t ≠ [] := by
    cases t with
    | nil => exact List.cons_ne_nil _ _
    | cons d t =>
      rw [cut]
      split <;> exact List.cons_ne_nil _ _
  obtain ⟨part, parts, hparts⟩ := List.exists_cons_of_ne_nil (hne t)
  refine ⟨part, parts, hparts, ?_⟩
  rw [cut, decide_eq_false hc, hparts]

theorem cut_append {u : Text} (hu : separator ∉ u) (t : Text) :
    cut separator (u ++ separator :: t) = u :: cut separator t := by
  induction u with
  | nil => exact cut_separator separator t
  | cons c u ih =>
    rw [List.mem_cons, not_or] at hu
    obtain ⟨part, parts, hparts, hcut⟩ := cut_cons (Ne.symm hu.1) (u ++ separator :: t)
    rw [ih hu.2] at hparts
    cases hparts
    exact hcut

theorem cut_of_notMem {u : Text} (hu : separator ∉ u) : cut separator u = [u] := by
  induction u with
  | nil => rfl
  | cons c u ih =>
    rw [List.mem_cons, not_or] at hu
    obtain ⟨part, parts, hparts, hcut⟩ := cut_cons (Ne.symm hu.1) u
    rw [ih hu.2] at hparts
    cases hparts
    exact hcut

theorem notMem_of_mem_cut {t part : Text} (h : part ∈ cut separator t) : separator ∉ part := by
  induction t generalizing part with
  | nil =>
    rw [List.mem_singleton.1 h]
    exact List.not_mem_nil
  | cons c t ih =>
    by_cases hc : c = separator
    · subst hc
      rw [cut_separator] at h
      rcases List.mem_cons.1 h with rfl | h
      · exact List.not_mem_nil
      · exact ih h
    · obtain ⟨first, parts, hparts, hcut⟩ := cut_cons hc t
      rw [hcut] at h
      rcases List.mem_cons.1 h with rfl | h
      · have hfirst := ih (hparts ▸ List.mem_cons_self)
        simp [Ne.symm hc, hfirst]
      · exact ih (hparts ▸ List.mem_cons_of_mem first h)

end Text

namespace Path

/-! ## Paths that are read back -/

/-- A component of a path. -/
structure Part (part : Text) : Prop where
  ne_nil : part ≠ []
  ne_dot : part ≠ ['.']
  noSlash : '/' ∉ part

/-- A path as it is read from a text. -/
structure Normal (p : Path) : Prop where
  root : p.root = [] ∨ p.root = ['/'] ∨ p.root = ['/', '/']
  parts : ∀ part ∈ p.parts, Part part

theorem normal_ofText (t : Text) : (ofText t).Normal where
  root := by
    unfold ofText rootOf
    simp only
    split
    · exact .inl rfl
    · exact .inr (.inr rfl)
    · exact .inr (.inl rfl)
  parts := by
    intro part hpart
    obtain ⟨hcut, hkept⟩ := List.mem_filter.1 hpart
    simp only [Bool.and_eq_true, decide_eq_true_eq] at hkept
    exact ⟨hkept.1, hkept.2, Text.notMem_of_mem_cut hcut⟩

namespace Normal

variable {p q : Path}

theorem parent (h : p.Normal) : p.parent.Normal :=
  ⟨h.root, fun part hpart => h.parts part (List.dropLast_subset _ hpart)⟩

theorem join (hp : p.Normal) (hq : q.Normal) : (p.join q).Normal := by
  unfold Path.join
  split
  · exact hq
  · exact ⟨hp.root, List.forall_mem_append.2 ⟨hp.parts, hq.parts⟩⟩

end Normal

/-- The components of a path are read back from between slashes. -/
theorem filter_cut {parts : List Text} (h : ∀ part ∈ parts, Part part) :
    (Text.cut '/' (['/'].intercalate parts)).filter
      (fun part => part ≠ [] && part ≠ ['.']) = parts := by
  have hkept {part : Text} (hpart : Part part) :
      (decide (part ≠ []) && decide (part ≠ ['.'])) = true := by
    simp [hpart.ne_nil, hpart.ne_dot]
  induction parts with
  | nil => rfl
  | cons part parts ih =>
    obtain ⟨hpart, hparts⟩ := List.forall_mem_cons.1 h
    cases parts with
    | nil =>
      rw [List.intercalate_singleton, Text.cut_of_notMem hpart.noSlash]
      simp only [List.filter_cons, hkept hpart, if_true, List.filter_nil]
    | cons next parts =>
      rw [List.intercalate_cons_cons, List.append_assoc, List.singleton_append,
        Text.cut_append hpart.noSlash]
      simp only [List.filter_cons, hkept hpart, if_true]
      exact congrArg (part :: ·) (ih hparts)

/-- No slash stands in front of the first component. -/
theorem takeWhile_intercalate {parts : List Text} (h : ∀ part ∈ parts, Part part) :
    (['/'].intercalate parts).takeWhile (· = '/') = [] := by
  cases parts with
  | nil => rfl
  | cons part parts =>
    obtain ⟨hpart, -⟩ := List.forall_mem_cons.1 h
    obtain ⟨c, rest, rfl⟩ := List.exists_cons_of_ne_nil hpart.ne_nil
    have hc : c ≠ '/' := fun e => hpart.noSlash (e ▸ List.mem_cons_self)
    cases parts with
    | nil => simp [hc]
    | cons next parts => simp [List.intercalate_cons_cons, hc]

theorem ofText_append {root : Text} (hroot : root = [] ∨ root = ['/'] ∨ root = ['/', '/'])
    {parts : List Text} (h : ∀ part ∈ parts, Part part) :
    ofText (root ++ ['/'].intercalate parts) = ⟨root, parts⟩ := by
  have hparts := filter_cut h
  have hfirst := takeWhile_intercalate h
  generalize ['/'].intercalate parts = body at hparts hfirst
  have hslash (t : Text) : (Text.cut '/' ('/' :: t)).filter
      (fun part => part ≠ [] && part ≠ ['.']) =
      (Text.cut '/' t).filter fun part => part ≠ [] && part ≠ ['.'] := by
    rw [Text.cut_separator]
    rfl
  unfold ofText rootOf
  rcases hroot with rfl | rfl | rfl
  · simp only [List.nil_append, hfirst, hparts, List.length_nil]
  · simp only [List.cons_append, List.nil_append, hslash, hparts, List.takeWhile_cons, hfirst]
    rfl
  · simp only [List.cons_append, List.nil_append, hslash, hparts, List.takeWhile_cons, hfirst]
    rfl

/-- A path is read back from what it is written as. -/
theorem ofText_toText {p : Path} (h : p.Normal) : ofText p.toText = p := by
  unfold toText
  by_cases hempty : (p.root.isEmpty && p.parts.isEmpty) = true
  · obtain ⟨root, parts⟩ := p
    simp only [Bool.and_eq_true, List.isEmpty_iff] at hempty
    obtain ⟨rfl, rfl⟩ := hempty
    rfl
  · rw [if_neg hempty]
    exact ofText_append h.root h.parts

theorem isAbsolute_ofText (t : Text) : (ofText ('/' :: t)).isAbsolute = true := by
  unfold ofText isAbsolute rootOf
  split
  · rename_i hlength
    simp at hlength
  · rfl
  · rfl

/-- An absolute path is written with a slash in front. -/
theorem Normal.exists_toText_eq {p : Path} (h : p.Normal) (hp : p.isAbsolute = true) :
    ∃ t, p.toText = '/' :: t := by
  unfold toText
  rcases h.root with hroot | hroot | hroot
  · simp [isAbsolute, hroot] at hp
  · exact ⟨['/'].intercalate p.parts, by simp [hroot]⟩
  · exact ⟨'/' :: ['/'].intercalate p.parts, by simp [hroot]⟩

theorem isAbsolute_join {p : Path} (h : p.isAbsolute = true) (q : Path) :
    (p.join q).isAbsolute = true := by
  unfold join
  split
  · assumption
  · exact h

theorem join_of_isAbsolute {p : Path} (h : p.isAbsolute = true) (directory : Path) :
    directory.join p = p := if_pos h

theorem join_assoc (a b c : Path) : (a.join b).join c = a.join (b.join c) := by
  by_cases hc : c.isAbsolute = true
  · rw [join_of_isAbsolute hc, join_of_isAbsolute hc, join_of_isAbsolute hc]
  · have hroot (p : Path) : (p.join c).isAbsolute = p.isAbsolute := by
      unfold join
      rw [if_neg hc]
      rfl
    by_cases hb : b.isAbsolute = true
    · rw [join_of_isAbsolute hb, join_of_isAbsolute ((hroot b).trans hb)]
    · unfold join
      simp only [if_neg hc, if_neg hb]
      rw [if_neg, List.append_assoc]
      exact hb

end Path

/-! ## Where paths lead -/

namespace FileTree

/-- A name on the way from the root: a path neither passes it over nor goes up at it. -/
structure Name (name : Text) : Prop extends Path.Part name where
  ne_up : name ≠ ['.', '.']
  noNul : '\x00' ∉ name

/-- The working directory is given by the names on the way to it. -/
def Placed (t : FileTree) : Prop := ∀ name ∈ t.working, Name name

variable {t : FileTree}

theorem isAbsolute_absolute (t : FileTree) (p : Path) : (t.absolute p).isAbsolute = true :=
  Path.isAbsolute_join rfl p

theorem Placed.normal_absolute (h : t.Placed) {p : Path} (hp : p.Normal) :
    (t.absolute p).Normal :=
  Path.Normal.join ⟨.inr (.inl rfl), fun name hname => (h name hname).toPart⟩ hp

/-- The way to the working directory can be gone. -/
theorem Placed.follow_working (h : t.Placed) (parts : List Text) :
    t.follow [] (t.working ++ parts) = t.follow t.working parts := by
  have hway (done more : List Text) (hworking : done ++ more = t.working) :
      t.follow done (more ++ parts) = t.follow t.working parts := by
    induction more generalizing done with
    | nil => rw [← hworking, List.append_nil, List.nil_append]
    | cons name more ih =>
      have hname := h name (by rw [← hworking]; simp)
      have hdirectory : t.isDirectory done = true := by
        have hbegins : done.isPrefixOf t.working = true :=
          List.isPrefixOf_iff_prefix.2 ⟨_, hworking⟩
        unfold isDirectory
        rw [hbegins, Bool.true_or, Bool.true_or]
      have hdescend : descend done name = done ++ [name] := if_neg hname.ne_up
      rw [List.cons_append, follow, if_pos hdirectory, hdescend]
      exact ih (done ++ [name]) (by rw [← hworking, List.append_assoc, List.singleton_append])
  exact hway [] t.working rfl

/-- A path and the absolute one that it stands for lead to the same place. -/
theorem Placed.locate_absolute (h : t.Placed) (p : Path) :
    t.locate (t.absolute p) = t.locate p := by
  by_cases hp : p.isAbsolute = true
  · rw [absolute, Path.join_of_isAbsolute hp]
  · have habsolute : t.absolute p = ⟨['/'], t.working ++ p.parts⟩ := if_neg hp
    have hnul : t.working.any (·.contains '\x00') = false := by
      rw [List.any_eq_false]
      intro name hname
      have := (h name hname).noNul
      simpa using this
    unfold locate
    rw [habsolute]
    simp only [List.any_append, hnul, Bool.false_or, if_neg hp]
    split
    · rfl
    · exact h.follow_working p.parts

end FileTree

end Bracemark
