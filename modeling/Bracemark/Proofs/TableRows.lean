import Bracemark.Proofs.Paths
import Bracemark.Proofs.Tables

/-!
# The rows of a table by cutting

Reading a table goes through the text once and keeps the rows so far, the items of the current row
and the current item. It comes to the same to cut the text at its dollar signs and each piece at its
ampersands, and to drop what is left over at the end of a row and of the text
(`Table.rows_eq_cutRows`). The scanner takes characters together that are no separators, but reading
them one by one gives the same (`Table.read_eq_foldl`), so a text can be read piece by piece.

Only blanks and separators are lost, and rows that are written with both separators are read back
(`Table.rows_by_cutting`).
-/

namespace Bracemark

/-! ## Cutting at a separator -/

/-- The list without its last element if that is of a class. -/
def dropLastIf {α : Type} (p : α → Bool) : List α → List α
  | [] => []
  | [x] => if p x then [] else [x]
  | x :: y :: rest => x :: dropLastIf p (y :: rest)

theorem dropLastIf_cons {α : Type} (p : α → Bool) (x : α) {l : List α} (h : l ≠ []) :
    dropLastIf p (x :: l) = x :: dropLastIf p l := by
  cases l with
  | nil => exact absurd rfl h
  | cons y rest => rfl

namespace Text

/-- Induction along the parts between separators. -/
@[elab_as_elim]
theorem cut_induction (separator : Char) {motive : Text → Prop} (last : ∀ u, separator ∉ u → motive u)
    (more : ∀ u t, separator ∉ u → motive t → motive (u ++ separator :: t)) (t : Text) :
    motive t := by
  induction t using suffix_induction with
  | nil => exact last [] List.not_mem_nil
  | cons c rest ih =>
    by_cases h : separator ∈ c :: rest
    · obtain ⟨u, t, hsplit, hu⟩ := List.eq_append_cons_of_mem h
      have ht : t <:+ rest := by
        refine suffix_of_append_eq_cons (u := u ++ [separator]) (x := c) ?_ ?_
        · exact List.append_ne_nil_of_right_ne_nil u (List.cons_ne_nil _ _)
        · rw [List.append_assoc, hsplit, List.singleton_append]
      rw [hsplit]
      exact more u t hu (ih t ht)
    · exact last _ h

theorem cut_ne_nil (separator : Char) (t : Text) : cut separator t ≠ [] := by
  induction t using cut_induction separator with
  | last u hu =>
    rw [cut_of_notMem hu]
    exact List.cons_ne_nil _ _
  | more u t hu =>
    rw [cut_append hu]
    exact List.cons_ne_nil _ _

end Text

namespace Table

/-! ## Rows by cutting -/

/-- The items of a row: what stands between its ampersands. A blank leftover behind the last one is
no item. -/
def cutItems (row : Text) : List Text := dropLastIf (List.all · isBlank) (row.cut '&')

/-- The rows of a table: what stands between its dollar signs, each cut into items. What is left
behind the last dollar sign is a row only if it has an item. -/
def cutRows (t : Text) : List (List Text) := dropLastIf List.isEmpty ((t.cut '$').map cutItems)

variable {u : Text}

theorem cutItems_of_notMem (hu : '&' ∉ u) :
    cutItems u = if Reading.filled u then [u] else [] := by
  unfold cutItems Reading.filled
  rw [Text.cut_of_notMem hu, dropLastIf]
  cases u.all isBlank <;> rfl

theorem cutItems_append (hu : '&' ∉ u) (t : Text) :
    cutItems (u ++ '&' :: t) = u :: cutItems t := by
  unfold cutItems
  rw [Text.cut_append hu, dropLastIf_cons _ _ (Text.cut_ne_nil _ t)]

theorem cutRows_of_notMem (hu : '$' ∉ u) :
    cutRows u = if (cutItems u).isEmpty then [] else [cutItems u] := by
  unfold cutRows
  rw [Text.cut_of_notMem hu]
  rfl

theorem cutRows_append (hu : '$' ∉ u) (t : Text) :
    cutRows (u ++ '$' :: t) = cutItems u :: cutRows t := by
  unfold cutRows
  rw [Text.cut_append hu, List.map_cons,
    dropLastIf_cons _ _ (mt List.map_eq_nil_iff.1 (Text.cut_ne_nil _ t))]

/-! ## Reading one character after the other -/

/-- What one character does to a reading. -/
def Reading.char (r : Reading) (c : Char) : Reading :=
  if c = '&' then { r with row := r.row ++ [r.item], item := [] }
  else if c = '$' then { rows := r.rows ++ [r.endRow], row := [], item := [] }
  else { r with item := r.item ++ [c] }

theorem foldl_char_of_plain (hu : ∀ c ∈ u, isSeparator c = false) (r : Reading) :
    u.foldl Reading.char r = { r with item := r.item ++ u } := by
  induction u generalizing r with
  | nil => rw [List.append_nil]; rfl
  | cons c u ih =>
    obtain ⟨hc, hu⟩ := List.forall_mem_cons.1 hu
    rw [isSeparator, Bool.or_eq_false_iff, decide_eq_false_iff_not, decide_eq_false_iff_not] at hc
    rw [List.foldl_cons, ih hu, Reading.char, if_neg hc.1, if_neg hc.2, List.append_assoc,
      List.singleton_append]

/-- The scanner takes characters together, but each does what it does alone. -/
theorem read_eq_foldl (r : Reading) (t : Text) : read r t = t.foldl Reading.char r := by
  induction t using segment_induction Lexer.table generalizing r with
  | nil => rfl
  | cons c rest ih =>
    have hread : read r (c :: rest) =
        read (r.step ((Lexer.table c rest).1, c :: rest.take (Lexer.table c rest).2))
          (rest.drop (Lexer.table c rest).2) := by
      unfold read
      rw [Lexer.lexemes_cons, List.foldl_cons]
    have hsplit : (c :: rest).foldl Reading.char r =
        (rest.drop (Lexer.table c rest).2).foldl Reading.char
          ((c :: rest.take (Lexer.table c rest).2).foldl Reading.char r) := by
      rw [← List.foldl_append, List.cons_append, List.take_append_drop]
    rw [hread, ih, hsplit]
    congr 1
    by_cases hitem : c = '&'
    · subst hitem
      rfl
    by_cases hrow : c = '$'
    · subst hrow
      rfl
    have hplain : ∀ d ∈ c :: rest.takeWhile (fun d => !(d = '&' || d = '$')),
        isSeparator d = false := by
      refine List.forall_mem_cons.2 ⟨by simp [isSeparator, hitem, hrow], fun d hd => ?_⟩
      have hkept := eq_true_of_mem_takeWhile hd
      rwa [Bool.not_eq_true'] at hkept
    have hlexer : Lexer.table c rest =
        (.other, (rest.takeWhile fun d => !(d = '&' || d = '$')).length) := by
      unfold Lexer.table
      rw [if_neg hitem, if_neg hrow]
    rw [hlexer]
    simp only [take_length_takeWhile]
    rw [foldl_char_of_plain hplain]
    rfl

theorem isSeparator_of_notMem (hitem : '&' ∉ u) (hrow : '$' ∉ u) :
    ∀ c ∈ u, isSeparator c = false := by
  intro c hc
  have hne : c ≠ '&' ∧ c ≠ '$' := ⟨fun h => hitem (h ▸ hc), fun h => hrow (h ▸ hc)⟩
  simp [isSeparator, hne]

/-- A piece without dollar signs goes into the current row. -/
theorem foldl_char_row (hu : '$' ∉ u) (rows : List (List Text)) (row : List Text) :
    (u.foldl Reading.char ⟨rows, row, []⟩).rows = rows ∧
      (u.foldl Reading.char ⟨rows, row, []⟩).endRow = row ++ cutItems u := by
  induction u using Text.cut_induction '&' generalizing row with
  | last u hitem =>
    rw [foldl_char_of_plain (isSeparator_of_notMem hitem hu), List.nil_append,
      cutItems_of_notMem hitem]
    refine ⟨rfl, ?_⟩
    unfold Reading.endRow
    cases Reading.filled u with
    | true => rfl
    | false => exact (List.append_nil row).symm
  | more u t hitem ih =>
    rw [List.mem_append, not_or] at hu
    rw [List.foldl_append, foldl_char_of_plain (isSeparator_of_notMem hitem hu.1), List.foldl_cons,
      cutItems_append hitem, List.append_cons]
    exact ih (mt (List.mem_cons_of_mem '&') hu.2) (row ++ [u])

theorem rows_eq_cutRows (t : Text) : rows t = cutRows t := by
  have hfinish (before : List (List Text)) :
      (t.foldl Reading.char ⟨before, [], []⟩).finish = before ++ cutRows t := by
    induction t using Text.cut_induction '$' generalizing before with
    | last u hu =>
      obtain ⟨hrows, hrow⟩ := foldl_char_row hu before []
      rw [Reading.finish, hrows, hrow, List.nil_append, cutRows_of_notMem hu]
      cases (cutItems u).isEmpty with
      | true => exact (List.append_nil before).symm
      | false => rfl
    | more u t hu ih =>
      obtain ⟨hrows, hrow⟩ := foldl_char_row hu before []
      have hstep (r : Reading) : r.char '$' = ⟨r.rows ++ [r.endRow], [], []⟩ := rfl
      rw [List.foldl_append, List.foldl_cons, hstep, hrows, hrow, ih, cutRows_append hu,
        List.nil_append, ← List.append_cons]
  have hrows : rows t = (read {} t).finish := rfl
  rw [hrows, read_eq_foldl, hfinish, List.nil_append]

/-! ## What is lost -/

/-- A character that is neither a blank nor a separator. -/
def isContent (c : Char) : Bool := !(isBlank c || isSeparator c)

/-- Without separators only blanks are no content. -/
theorem filter_isContent (hu : ∀ c ∈ u, isSeparator c = false) :
    u.filter isContent = u.filter (!isBlank ·) := by
  refine List.filter_congr fun c hc => ?_
  rw [isContent, hu c hc, Bool.or_false]

theorem filter_of_all_isBlank (hu : u.all isBlank = true) : u.filter (!isBlank ·) = [] := by
  refine List.filter_eq_nil_iff.2 fun c hc => ?_
  rw [List.all_eq_true.1 hu c hc]
  exact Bool.false_ne_true

theorem filter_cutItems {t : Text} (ht : '$' ∉ t) :
    (cutItems t).flatten.filter (!isBlank ·) = t.filter isContent := by
  induction t using Text.cut_induction '&' with
  | last u hu =>
    rw [filter_isContent (isSeparator_of_notMem hu ht), cutItems_of_notMem hu, Reading.filled]
    cases hblank : u.all isBlank with
    | true => exact (filter_of_all_isBlank hblank).symm
    | false => exact congrArg (List.filter (!isBlank ·)) List.flatten_singleton
  | more u t hu ih =>
    rw [List.mem_append, not_or] at ht
    rw [cutItems_append hu, List.flatten_cons, List.filter_append, List.filter_append,
      ih (mt (List.mem_cons_of_mem '&') ht.2), filter_isContent (isSeparator_of_notMem hu ht.1)]
    rfl

theorem filter_cutRows (t : Text) :
    (cutRows t).flatten.flatten.filter (!isBlank ·) = t.filter isContent := by
  induction t using Text.cut_induction '$' with
  | last u hu =>
    rw [cutRows_of_notMem hu, ← filter_cutItems hu]
    cases hrow : cutItems u with
    | nil => rfl
    | cons item row => rw [List.isEmpty_cons, if_neg Bool.false_ne_true, List.flatten_singleton]
  | more u t hu ih =>
    rw [cutRows_append hu, List.flatten_cons, List.flatten_append, List.filter_append,
      List.filter_append, ih, filter_cutItems hu]
    rfl

/-! ## Written rows -/

/-- Items without separators, each with an ampersand behind it, are cut as they are written. -/
theorem cutItems_written {row : List Text} (h : ∀ item ∈ row, '&' ∉ item) :
    cutItems (row.flatMap fun item => item ++ ['&']) = row := by
  induction row with
  | nil => rfl
  | cons item row ih =>
    obtain ⟨hitem, hrow⟩ := List.forall_mem_cons.1 h
    rw [List.flatMap_cons, List.append_assoc, List.singleton_append, cutItems_append hitem, ih hrow]

theorem cutRows_write {written : List (List Text)}
    (h : ∀ row ∈ written, ∀ item ∈ row, '&' ∉ item ∧ '$' ∉ item) :
    cutRows (write id written) = written := by
  induction written with
  | nil => rfl
  | cons row written ih =>
    obtain ⟨hrow, hrest⟩ := List.forall_mem_cons.1 h
    have hplain : '$' ∉ row.flatMap fun item => item ++ ['&'] := by
      intro hmem
      obtain ⟨item, hitem, hmem⟩ := List.mem_flatMap.1 hmem
      rcases List.mem_append.1 hmem with hmem | hmem
      · exact (hrow item hitem).2 hmem
      · cases List.mem_singleton.1 hmem
    have hwrite : write id (row :: written) =
        (row.flatMap fun item => item ++ ['&']) ++ '$' :: write id written := by
      simp only [write, List.flatMap_cons, List.append_assoc, List.singleton_append, id]
    rw [hwrite, cutRows_append hplain, cutItems_written fun item hitem => (hrow item hitem).1,
      ih hrest]

/-- The rows of a text are what is cut out at its dollar signs and ampersands, with blank leftovers
dropped. Nothing else is lost: without blanks, the items spell the text without its blanks and
separators. And rows of items without separators are read back as they are written with an ampersand
behind each item and a dollar sign behind each row. -/
theorem rows_by_cutting (t : Text) (written : List (List Text)) :
    rows t = cutRows t ∧
      (rows t).flatten.flatten.filter (!isBlank ·) = t.filter isContent ∧
      ((∀ row ∈ written, ∀ item ∈ row, '&' ∉ item ∧ '$' ∉ item) →
        rows (write id written) = written) := by
  rw [rows_eq_cutRows, rows_eq_cutRows]
  exact ⟨rfl, filter_cutRows t, cutRows_write⟩

/-- An empty item, an empty row, a blank leftover, and an item that nothing ends. -/
theorem rows_by_cutting_leftovers :
    (∀ row ∈ [["a".toList, []], [], [" ".toList]], ∀ item ∈ row, '&' ∉ item ∧ '$' ∉ item) ∧
      rows "a&& $$ b".toList = [["a".toList, []], [], [" b".toList]] ∧
      (rows "a&& $$ b".toList).flatten.flatten.filter (!isBlank ·) = "ab".toList ∧
      rows "a&&$$ &$".toList = [["a".toList, []], [], [" ".toList]] := by
  have hplain : ∀ row ∈ [["a".toList, []], [], [" ".toList]], ∀ item ∈ row,
      '&' ∉ item ∧ '$' ∉ item := by decide
  obtain ⟨hrows, hcontent, hwritten⟩ :=
    rows_by_cutting "a&& $$ b".toList [["a".toList, []], [], [" ".toList]]
  exact ⟨hplain, hrows.trans (by decide +kernel), hcontent.trans (by decide +kernel),
    hwritten hplain⟩

end Table

end Bracemark
