import Bracemark.Proofs.Resolution
import Mathlib.Algebra.GroupWithZero.Nat

/-!
# Sites as they stand in a buffer

A site begins with its keyword, and behind that stand its blocks, each with blanks in front of
it (`Stretch.Shaped`). So the braces of a site match, and every character of an argument is
one of the buffer. In a buffer whose braces match, no block is left open: whatever is wrong
with the first directive that is no site, an opening brace is missing
(`Stretch.problem_of_fault`).
-/

namespace Bracemark

theorem isWord_of_isBlank {c : Char} (h : isBlank c = true) : isWord c = false := by
  -- there are few blanks, but word characters are spread over many ranges
  have hblanks : ∀ n ∈ [0x09, 0x0A, 0x0B, 0x0C, 0x0D, 0x1C, 0x1D, 0x1E, 0x1F, 0x20, 0x85, 0xA0,
      0x1680, 0x2000, 0x2001, 0x2002, 0x2003, 0x2004, 0x2005, 0x2006, 0x2007, 0x2008, 0x2009,
      0x200A, 0x2028, 0x2029, 0x202F, 0x205F, 0x3000], isWord (Char.ofNat n) = false := by
    decide +kernel
  have hc := hblanks c.toNat (by
    simp only [isBlank, isSpace, isSeparator, blankRanges, inRanges] at h
    generalize c.toNat = n at h
    simp only [List.mem_cons, List.not_mem_nil, or_false]
    grind)
  rwa [Char.ofNat_toNat] at hc

namespace Text

/-! ## Blocks with blanks in front -/

/-- A nested text in braces is read behind blanks. -/
theorem readBlock_gap {gap i : Text} (hgap : ∀ c ∈ gap, isBlank c = true) (hi : i.Nested)
    (lexer : Lexer) (keyword : Text) (offset : Nat) (post : Text) :
    readBlock lexer keyword offset (gap ++ '\x7b' :: (i ++ '\x7d' :: post)) = .ok (i, post) := by
  have hdrop : (gap ++ '\x7b' :: (i ++ '\x7d' :: post)).dropWhile isBlank =
      '\x7b' :: (i ++ '\x7d' :: post) := by
    rw [List.dropWhile_append_of_pos hgap]
    exact List.dropWhile_cons_of_neg (by decide)
  unfold readBlock
  rw [hdrop]
  simp only [if_true, closing_of_nested hi]

/-- Nested texts in braces, each with blanks in front of it. -/
inductive Spaced : List Text → Text → Prop where
  | nil : Spaced [] []
  | cons {gap u rest : Text} {us : List Text} (blank : ∀ c ∈ gap, isBlank c = true)
      (nested : u.Nested) (more : Spaced us rest) :
      Spaced (u :: us) (gap ++ '\x7b' :: (u ++ '\x7d' :: rest))

namespace Spaced

variable {us : List Text} {w : Text}

theorem nested_of_mem (h : Spaced us w) : ∀ u ∈ us, u.Nested := by
  induction h with
  | nil => exact nofun
  | cons _ hu _ ih => exact List.forall_mem_cons.2 ⟨hu, ih⟩

theorem subset (h : Spaced us w) : ∀ u ∈ us, u ⊆ w := by
  induction h with
  | nil => exact nofun
  | cons _ _ _ ih =>
    refine List.forall_mem_cons.2 ⟨fun c hc => ?_, fun u hu c hc => ?_⟩
    · simp [hc]
    · simp [ih u hu hc]

theorem noBrace_of_blank {gap : Text} (h : ∀ c ∈ gap, isBlank c = true) :
    ∀ c ∈ gap, isBrace c = false := by
  intro c hc
  cases hb : isBrace c with
  | false => rfl
  | true => exact ((Lexer.isBlank_of_isBrace hb).symm.trans (h c hc)).symm

theorem nested (h : Spaced us w) : w.Nested := by
  induction h with
  | nil => rfl
  | @cons gap u rest us hgap hu _ ih =>
    have hblock : Text.Nested ('\x7b' :: u ++ ['\x7d']) := hu.block
    have hall := ((Nested.of_noBrace (noBrace_of_blank hgap)).append hblock).append ih
    simpa only [List.append_assoc, List.cons_append, List.nil_append] using hall

/-- The full stops of blocks are those of their interiors. -/
theorem count_stop (h : Spaced us w) : w.count '.' = (us.map (List.count '.')).sum := by
  induction h with
  | nil => rfl
  | @cons gap u rest us hgap _ _ ih =>
    have hnone : gap.count '.' = 0 := by
      refine List.count_eq_zero.2 fun hm => ?_
      have := hgap _ hm
      simp [isBlank, isSpace, isSeparator] at this
    simp [List.count_append, hnone, ih]

end Spaced

/-- The blocks that are read stand at the start of the text. -/
theorem spaced_of_readBlocks {lexer : Lexer} {keyword : Text} {n offset : Nat} {t a : Text}
    {us : List Text} (h : readBlocks lexer keyword n offset t = .ok (us, a)) :
    us.length = n ∧ ∃ w, Spaced us w ∧ t = w ++ a := by
  induction n generalizing offset t us with
  | zero =>
    cases h
    exact ⟨rfl, [], .nil, rfl⟩
  | succ n ih =>
    rw [readBlocks] at h
    split at h
    · cases h
    rename_i first behind hfirst
    split at h
    · cases h
    rename_i others after hothers
    cases h
    obtain ⟨ht, hnested⟩ := eq_of_readBlock hfirst
    obtain ⟨hlength, w, hw, hbehind⟩ := ih hothers
    have hgap : ∀ c ∈ t.takeWhile isBlank, isBlank c = true := fun c => eq_true_of_mem_takeWhile
    refine ⟨by rw [List.length_cons, hlength], _, .cons hgap hnested hw, ?_⟩
    rw [hbehind] at ht
    refine ht.trans ?_
    simp only [List.append_assoc, List.cons_append]

/-! ## Texts that close what is open -/

/-- A text behind which nothing is open, if enough blocks are open in front of it. -/
def Closes (t : Text) : Prop := ∃ depth, t.level depth = some 0

theorem Nested.closes {t : Text} (h : t.Nested) : t.Closes := ⟨0, h⟩

theorem Closes.suffix {s t : Text} (h : t.Closes) (hs : s <:+ t) : s.Closes := by
  obtain ⟨depth, hdepth⟩ := h
  obtain ⟨u, rfl⟩ := hs
  rw [level_append] at hdepth
  obtain ⟨e, -, he⟩ := Option.bind_eq_some_iff.1 hdepth
  exact ⟨e, he⟩

/-- A block in front of a text is closed there if not all that is open around it stays open. -/
theorem closing_isSome {t : Text} {depth around e : Nat}
    (h : level (depth + 1 + around) t = some e) (he : e ≤ around) : (closing depth t).isSome := by
  induction t using brace_induction generalizing depth with
  | nil =>
    rw [level_nil, Option.some.injEq] at h
    omega
  | opening t ih =>
    rw [closing_opening, Option.isSome_map]
    rw [level_opening, Nat.add_right_comm] at h
    exact ih h
  | closing t ih =>
    cases depth with
    | zero => rfl
    | succ inner =>
      rw [closing_closing, Option.isSome_map]
      rw [Nat.add_right_comm, level_closing] at h
      exact ih h
  | other c t hc ih =>
    rw [level_cons_of_isBrace_false hc] at h
    rw [closing_cons_of_isBrace_false hc, Option.isSome_map]
    exact ih h

theorem problem_of_readBlock {lexer : Lexer} {keyword : Text} {offset : Nat} {t : Text}
    {f : BlockFault} (ht : t.Closes) (h : readBlock lexer keyword offset t = .error f) :
    ∀ word, f.problem ≠ .unterminated word := by
  unfold readBlock at h
  split at h
  · cases h
    exact nofun
  rename_i c rest hd
  simp only at h
  split at h
  · rename_i hc
    subst hc
    split at h
    · cases h
    · -- the block is closed in a text that closes all that is open
      rename_i hnone
      obtain ⟨depth, hdepth⟩ := ht
      have hgap : ∀ x ∈ t.takeWhile isBlank, isBrace x = false :=
        Spaced.noBrace_of_blank fun x => eq_true_of_mem_takeWhile
      rw [← List.takeWhile_append_dropWhile (p := isBlank) (l := t), hd, level_append,
        level_of_noBrace hgap, Option.bind_some, level_opening] at hdepth
      have hsome : (closing 0 rest).isSome :=
        closing_isSome (by rw [Nat.zero_add, Nat.add_comm 1]; exact hdepth) (Nat.zero_le _)
      rw [hnone] at hsome
      cases hsome
  · cases h
    exact nofun

theorem problem_of_readBlocks {lexer : Lexer} {keyword : Text} {n offset : Nat} {t : Text}
    {f : BlockFault} (ht : t.Closes) (h : readBlocks lexer keyword n offset t = .error f) :
    ∀ word, f.problem ≠ .unterminated word := by
  induction n generalizing offset t with
  | zero => cases h
  | succ n ih =>
    rw [readBlocks] at h
    split at h
    · rename_i hfirst
      cases h
      exact problem_of_readBlock ht hfirst
    · rename_i first behind hfirst
      split at h
      · rename_i hothers
        cases h
        exact ih (ht.suffix (suffix_of_readBlock hfirst)) hothers
      · cases h

end Text

namespace Stretch

/-! ## The shape of a site -/

/-- A site with its arguments as it is written: its keyword, and behind it as many blocks as it
has arguments. One that waits has no directive in its arguments. -/
structure Shaped (d : Directive) (us : List Text) (w : Text) : Prop where
  arity : us.length = d.arity
  ready : d.waits = true → ∀ u ∈ us, u.hasDirective = false
  blocks : ∃ b, Text.Spaced us b ∧ w = '.' :: (d.name.toList ++ b)

namespace Shaped

variable {d : Directive} {us : List Text} {w : Text}

theorem ne_nil (h : Shaped d us w) : us ≠ [] := by
  rintro rfl
  have := h.arity
  cases d <;> cases this

theorem nested_of_mem (h : Shaped d us w) : ∀ u ∈ us, u.Nested := by
  obtain ⟨b, hb, -⟩ := h.blocks
  exact hb.nested_of_mem

theorem nested (h : Shaped d us w) : w.Nested := by
  obtain ⟨b, hb, rfl⟩ := h.blocks
  exact d.nested_keyword.append hb.nested

theorem subset (h : Shaped d us w) : ∀ u ∈ us, u ⊆ w := by
  obtain ⟨b, hb, rfl⟩ := h.blocks
  intro u hu c hc
  simp [hb.subset u hu hc]

/-- The full stops of a site are the one of its keyword and those of its arguments. -/
theorem count_stop (h : Shaped d us w) : w.count '.' = (us.map (List.count '.')).sum + 1 := by
  obtain ⟨b, hb, rfl⟩ := h.blocks
  have hname : d.name.toList.count '.' = 0 := by cases d <;> rfl
  rw [List.count_cons_self, List.count_append, hname, hb.count_stop, Nat.zero_add]

end Shaped

variable {family : Family} {t : Text}

/-- A site is found at a keyword of the family, with the blocks that are read behind it. -/
theorem site_of_step {c : Char} {rest w : Text} {d : Directive} {us : List Text}
    (h : (step family c rest).1 = .site d us w) :
    Text.directive? (c :: rest) = some d ∧ d.family = family ∧
      (d.waits && us.any Text.hasDirective) = false ∧
      ∃ after, Text.readBlocks Lexer.directive ('.' :: d.name.toList) d.arity (d.name.length + 1)
          (rest.drop d.name.length) = .ok (us, after) ∧
        w = c :: rest.take (rest.length - after.length) := by
  unfold step at h
  split at h
  · cases h
  rename_i d' hd
  split at h
  case isFalse => cases h
  rename_i hfamily
  split at h
  · cases h
  rename_i arguments after hread
  split at h
  · cases h
  rename_i hwaits
  cases h
  exact ⟨hd, hfamily, Bool.eq_false_iff.2 hwaits, after, hread, rfl⟩

/-- A fault is found at a keyword of the family, behind which the blocks cannot be read. -/
theorem fault_of_step {c : Char} {rest : Text} {f : BlockFault}
    (h : (step family c rest).1 = .fault f) :
    ∃ d, Text.directive? (c :: rest) = some d ∧ d.family = family ∧
      Text.readBlocks Lexer.directive ('.' :: d.name.toList) d.arity (d.name.length + 1)
        (rest.drop d.name.length) = .error f := by
  unfold step at h
  split at h
  · cases h
  rename_i d hd
  split at h
  case isFalse => cases h
  rename_i hfamily
  split at h
  · rename_i hread
    cases h
    exact ⟨d, hd, hfamily, hread⟩
  · split at h <;> cases h

/-- Every site of a buffer is one of the family, and has the shape of a site. -/
theorem shaped_of_mem {d : Directive} {us : List Text} {w : Text}
    (h : .site d us w ∈ ofText family t) : d.family = family ∧ Shaped d us w := by
  obtain ⟨c, rest, hsuffix, hstep⟩ := exists_suffix_of_mem_segment h
  obtain ⟨hd, hfamily, hwaits, after, hread, rfl⟩ := site_of_step hstep
  obtain ⟨rfl, hname, -⟩ := Text.eq_of_directive? hd
  obtain ⟨hlength, b, hb, hdrop⟩ := Text.spaced_of_readBlocks hread
  -- the keyword and its blocks are what stands in front of the rest
  have hrest : rest = d.name.toList ++ b ++ after := by
    rw [List.append_assoc, ← hdrop, ← String.length_toList, ← hname, drop_length_takeWhile]
    exact List.takeWhile_append_dropWhile.symm
  have htake : rest.take (rest.length - after.length) = d.name.toList ++ b := by
    rw [hrest, List.length_append, Nat.add_sub_cancel, List.take_left]
  refine ⟨hfamily, hlength, fun hw u hu => ?_, b, hb, by rw [htake]⟩
  rw [hw, Bool.true_and] at hwaits
  exact Bool.eq_false_iff.2 (List.any_eq_false.1 hwaits u hu)

/-- The stretches of a buffer spell the buffer up to the first fault. -/
theorem flatMap_written_prefix (family : Family) (t : Text) :
    (ofText family t).flatMap written <+: t := by
  induction t using segment_induction (step family) with
  | nil => exact List.prefix_rfl
  | cons c rest ih =>
    rw [ofText, segment_zero_cons, List.flatMap_cons, ← ofText]
    rcases step_written family c rest with hw | ⟨f, hf⟩
    · have hsplit : c :: rest = (step family c rest).1.written ++
          rest.drop (step family c rest).2 := by
        rw [hw, List.cons_append, List.take_append_drop]
      rw [hsplit]
      exact (List.prefix_append_right_inj _).2 ih
    · rw [hf, List.drop_length]
      exact List.nil_prefix

/-- A stretch of a buffer is what the scan finds behind the stretches in front of it. -/
theorem exists_of_append {before behind : List Stretch} {w : Stretch}
    (h : ofText family t = before ++ w :: behind) :
    ∃ c rest, t = before.flatMap written ++ c :: rest ∧ (step family c rest).1 = w := by
  induction before generalizing t with
  | nil =>
    cases t with
    | nil => cases h
    | cons c rest =>
      rw [ofText, segment_zero_cons] at h
      exact ⟨c, rest, rfl, (List.cons.inj h).1⟩
  | cons b before ih =>
    cases t with
    | nil => cases h
    | cons c rest =>
      rw [ofText, segment_zero_cons] at h
      obtain ⟨rfl, hmore⟩ := List.cons.inj h
      rcases step_written family c rest with hwritten | ⟨f, hfault⟩
      · obtain ⟨c', rest', hdrop, hstep⟩ := ih hmore
        refine ⟨c', rest', ?_, hstep⟩
        rw [List.flatMap_cons, hwritten, List.append_assoc, ← hdrop, List.cons_append,
          List.take_append_drop]
      · -- nothing is scanned behind a fault
        rw [hfault, List.drop_length, segment_nil] at hmore
        cases before <;> cases hmore

/-- No block is left open in a buffer whose braces match. -/
theorem problem_of_fault {f : BlockFault} (ht : t.Nested) (h : .fault f ∈ ofText family t) :
    ∀ word, f.problem ≠ .unterminated word := by
  obtain ⟨c, rest, hsuffix, hstep⟩ := exists_suffix_of_mem_segment h
  obtain ⟨d, -, -, hread⟩ := fault_of_step hstep
  have hrest : rest.drop d.name.length <:+ t :=
    (List.drop_suffix _ rest).trans ((List.suffix_cons c rest).trans hsuffix)
  exact Text.problem_of_readBlocks (ht.closes.suffix hrest) hread

end Stretch

end Bracemark
