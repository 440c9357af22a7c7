import Bracemark.File.Encoding
import Bracemark.Proofs.Protection

/-!
# Texts of files

A text that is written to a file as UTF-8 is read from it again (`Encoding.decode_encode`). Only its
line ends may change, which cannot be told from the text once runs of blanks are collapsed
(`Text.collapse_unixLines`).
-/

namespace Bracemark

namespace Encoding

namespace Utf8

/-- The byte that holds six bits of a number, those above `k`. -/
def tail (n k : Nat) : UInt8 := UInt8.ofNat (0x80 + n / k % 0x40)

theorem toNat_tail (n k : Nat) : (tail n k).toNat = 0x80 + n / k % 0x40 := by
  rw [tail, UInt8.toNat_ofNat']
  omega

theorem isContinuation_tail (n k : Nat) : isContinuation (tail n k) = true := by
  unfold isContinuation
  simp only [UInt8.le_iff_toNat_le, UInt8.lt_iff_toNat_lt, toNat_tail, UInt8.reduceToNat,
    Bool.and_eq_true, decide_eq_true_eq]
  omega

theorem payload_tail (n k : Nat) : payload (tail n k) = n / k % 0x40 := by
  unfold payload
  simp only [toNat_tail, Nat.add_sub_cancel_left]

variable {n : Nat} (rest : Bytes)

theorem step_one (h : n < 0x80) : step (UInt8.ofNat n) rest = .ok (Char.ofNat n, 0) := by
  have hb : (UInt8.ofNat n).toNat = n := by
    rw [UInt8.toNat_ofNat']
    omega
  unfold step
  rw [if_pos (by rw [UInt8.lt_iff_toNat_lt, hb]; exact h), hb]

theorem step_two (hlow : 0x80 ≤ n) (h : n < 0x800) :
    step (UInt8.ofNat (0xC0 + n / 0x40)) (tail n 1 :: rest) = .ok (Char.ofNat n, 1) := by
  have hb : (UInt8.ofNat (0xC0 + n / 0x40)).toNat = 0xC0 + n / 0x40 := by
    rw [UInt8.toNat_ofNat']
    omega
  have hvalue : (0xC0 + n / 0x40 - 0xC0) * 0x40 + n / 1 % 0x40 = n := by omega
  unfold step
  simp only [UInt8.lt_iff_toNat_lt, hb, isContinuation_tail, payload_tail, UInt8.reduceToNat,
    Bool.not_true, Bool.false_eq_true, if_false, hvalue]
  rw [if_neg (by omega), if_neg (by omega), if_pos (by omega)]

theorem step_three (hlow : 0x800 ≤ n) (h : n < 0x10000) (hvalid : n < 0xD800 ∨ 0xDFFF < n) :
    step (UInt8.ofNat (0xE0 + n / 0x1000)) (tail n 0x40 :: tail n 1 :: rest) =
      .ok (Char.ofNat n, 2) := by
  have hb : (UInt8.ofNat (0xE0 + n / 0x1000)).toNat = 0xE0 + n / 0x1000 := by
    rw [UInt8.toNat_ofNat']
    omega
  have hvalue : (0xE0 + n / 0x1000 - 0xE0) * 0x1000 + n / 0x40 % 0x40 * 0x40 + n / 1 % 0x40 = n := by
    omega
  have hfollow : mayFollow (UInt8.ofNat (0xE0 + n / 0x1000)) (tail n 0x40) = true := by
    unfold mayFollow
    rw [isContinuation_tail, Bool.true_and]
    simp only [← UInt8.toNat_inj, hb, UInt8.le_iff_toNat_le, UInt8.lt_iff_toNat_lt, toNat_tail,
      UInt8.reduceToNat]
    split
    · rw [decide_eq_true_iff]
      omega
    · split
      · rw [decide_eq_true_iff]
        omega
      · rw [if_neg (by omega), if_neg (by omega)]
  unfold step
  simp only [UInt8.lt_iff_toNat_lt, hb, hfollow, isContinuation_tail, payload_tail,
    UInt8.reduceToNat, Bool.not_true, Bool.false_eq_true, if_false, hvalue]
  rw [if_neg (by omega), if_neg (by omega), if_neg (by omega), if_pos (by omega)]

theorem step_four (hlow : 0x10000 ≤ n) (h : n < 0x110000) :
    step (UInt8.ofNat (0xF0 + n / 0x40000)) (tail n 0x1000 :: tail n 0x40 :: tail n 1 :: rest) =
      .ok (Char.ofNat n, 3) := by
  have hb : (UInt8.ofNat (0xF0 + n / 0x40000)).toNat = 0xF0 + n / 0x40000 := by
    rw [UInt8.toNat_ofNat']
    omega
  have hvalue : (0xF0 + n / 0x40000 - 0xF0) * 0x40000 + n / 0x1000 % 0x40 * 0x1000 +
      n / 0x40 % 0x40 * 0x40 + n / 1 % 0x40 = n := by
    omega
  have hfollow : mayFollow (UInt8.ofNat (0xF0 + n / 0x40000)) (tail n 0x1000) = true := by
    unfold mayFollow
    rw [isContinuation_tail, Bool.true_and]
    simp only [← UInt8.toNat_inj, hb, UInt8.le_iff_toNat_le, UInt8.lt_iff_toNat_lt, toNat_tail,
      UInt8.reduceToNat]
    rw [if_neg (by omega), if_neg (by omega)]
    split
    · rw [decide_eq_true_iff]
      omega
    · split
      · rw [decide_eq_true_iff]
        omega
      · rfl
  unfold step
  simp only [UInt8.lt_iff_toNat_lt, hb, hfollow, isContinuation_tail, payload_tail,
    UInt8.reduceToNat, Bool.not_true, Bool.false_eq_true, if_false, hvalue]
  rw [if_neg (by omega), if_neg (by omega), if_neg (by omega), if_neg (by omega),
    if_pos (by omega)]

/-- The first byte of a character and the bytes behind it give the character. -/
theorem exists_step (c : Char) :
    ∃ b more, encodeChar c = b :: more ∧ ∀ rest, step b (more ++ rest) = .ok (c, more.length) := by
  have hvalid : c.toNat < 0xD800 ∨ 0xDFFF < c.toNat ∧ c.toNat < 0x110000 := c.valid
  have hc : Char.ofNat c.toNat = c := c.ofNat_toNat
  unfold encodeChar
  simp only
  split
  · rename_i h
    exact ⟨_, _, rfl, fun rest => by rw [List.nil_append, step_one rest h, hc]; rfl⟩
  split
  · rename_i hlow h
    exact ⟨_, _, rfl, fun rest => (step_two rest (by omega) h).trans (by rw [hc]; rfl)⟩
  split
  · rename_i hlow h
    refine ⟨_, _, rfl, fun rest => ?_⟩
    exact (step_three rest (by omega) h (by omega)).trans (by rw [hc]; rfl)
  · rename_i hlow
    refine ⟨_, _, rfl, fun rest => ?_⟩
    exact (step_four rest (by omega) (by omega)).trans (by rw [hc]; rfl)

theorem decodeFrom_append (position : Nat) (more rest : Bytes) :
    decodeFrom more.length position (more ++ rest) =
      decodeFrom 0 (position + more.length) rest := by
  induction more generalizing position with
  | nil => rfl
  | cons b more ih =>
    rw [List.length_cons, List.cons_append, decodeFrom, ih]
    congr 1
    omega

theorem decodeFrom_encode (position : Nat) (t : Text) :
    decodeFrom 0 position (t.flatMap encodeChar) = .ok t := by
  induction t generalizing position with
  | nil => rfl
  | cons c t ih =>
    obtain ⟨b, more, hencode, hstep⟩ := exists_step c
    rw [List.flatMap_cons, hencode, List.cons_append, decodeFrom, hstep]
    simp only
    rw [decodeFrom_append, ih]
    rfl

end Utf8

theorem decode_encode (t : Text) : decode (t.flatMap Utf8.encodeChar) .utf8 = .ok t :=
  Utf8.decodeFrom_encode 0 t

end Encoding

/-! ## Line ends -/

namespace Text

theorem unixLines_cons_of_not_crlf {c : Char} {rest : Text}
    (h : ∀ rest', c = '\r' → rest ≠ '\n' :: rest') :
    unixLines (c :: rest) = (if c = '\r' then '\n' else c) :: unixLines rest := by
  rw [unixLines]
  exact h

theorem unixLines_cons {c : Char} (hc : c ≠ '\r') (rest : Text) :
    unixLines (c :: rest) = c :: unixLines rest := by
  rw [unixLines_cons_of_not_crlf fun _ heq => absurd heq hc, if_neg hc]

theorem unixLines_append {u : Text} (hu : '\r' ∉ u) (v : Text) :
    unixLines (u ++ v) = u ++ unixLines v := by
  induction u with
  | nil => rfl
  | cons c u ih =>
    rw [List.mem_cons, not_or] at hu
    rw [List.cons_append, unixLines_cons (Ne.symm hu.1), ih hu.2, List.cons_append]

/-- A line end does not go across a character that is none. -/
theorem unixLines_append_cons {b : Char} (hr : b ≠ '\r') (hn : b ≠ '\n') (u v : Text) :
    unixLines (u ++ b :: v) = unixLines u ++ b :: unixLines v := by
  fun_induction unixLines u with
  | case1 => exact unixLines_cons hr v
  | case2 rest ih => rw [List.cons_append, List.cons_append, unixLines, ih, List.cons_append]
  | case3 c rest hcrlf ih =>
    rw [List.cons_append, unixLines_cons_of_not_crlf, ih, List.cons_append]
    intro rest' hc hrest
    cases rest with
    | nil =>
      cases hrest
      exact hn rfl
    | cons x rest =>
      cases hrest
      exact hcrlf _ hc rfl

/-- Line ends may be changed before or after characters are written as other texts, if those
texts and characters are no line ends. -/
theorem unixLines_flatMap {g : Char → Text} (hr : g '\r' = ['\r']) (hn : g '\n' = ['\n'])
    (hother : ∀ c, c ≠ '\r' → c ≠ '\n' → ∃ b w, g c = b :: w ∧ b ≠ '\n' ∧ '\r' ∉ b :: w)
    (t : Text) : unixLines (t.flatMap g) = (unixLines t).flatMap g := by
  fun_induction unixLines t with
  | case1 => rfl
  | case2 rest ih =>
    rw [List.flatMap_cons, List.flatMap_cons, hr, hn, List.flatMap_cons, hn, ← ih]
    rfl
  | case3 c rest hcrlf ih =>
    rw [List.flatMap_cons, List.flatMap_cons, ← ih]
    by_cases hc : c = '\r'
    · subst hc
      rw [if_pos rfl, hr, hn]
      refine (unixLines_cons_of_not_crlf fun rest' _ hrest => ?_).trans rfl
      cases rest with
      | nil => cases hrest
      | cons x rest =>
        by_cases hx : x = '\n'
        · subst hx
          exact hcrlf _ rfl rfl
        by_cases hx' : x = '\r'
        · subst hx'
          rw [List.flatMap_cons, hr] at hrest
          cases hrest
        · obtain ⟨b, w, hg, hb, -⟩ := hother x hx' hx
          rw [List.flatMap_cons, hg] at hrest
          cases hrest
          exact hb rfl
    · rw [if_neg hc]
      by_cases hc' : c = '\n'
      · subst hc'
        rw [hn]
        exact unixLines_append (by decide) _
      · obtain ⟨b, w, hg, -, hw⟩ := hother c hc hc'
        rw [hg]
        exact unixLines_append hw _

theorem dropWhile_unixLines (t : Text) :
    (unixLines t).dropWhile isBlank = unixLines (t.dropWhile isBlank) := by
  fun_induction unixLines t with
  | case1 => rfl
  | case2 rest ih =>
    rw [List.dropWhile_cons_of_pos (by decide), ih, List.dropWhile_cons_of_pos (by decide),
      List.dropWhile_cons_of_pos (by decide)]
  | case3 c rest hcrlf ih =>
    by_cases hc : c = '\r'
    · subst hc
      rw [if_pos rfl, List.dropWhile_cons_of_pos (by decide), ih,
        List.dropWhile_cons_of_pos (by decide)]
    · rw [if_neg hc]
      cases hb : isBlank c with
      | true => rw [List.dropWhile_cons_of_pos hb, ih, List.dropWhile_cons_of_pos hb]
      | false =>
        rw [List.dropWhile_cons_of_neg (Bool.eq_false_iff.1 hb),
          List.dropWhile_cons_of_neg (Bool.eq_false_iff.1 hb), unixLines_cons hc]

/-- Line ends are blank, however they are written. -/
theorem collapse_unixLines (t : Text) : (unixLines t).collapse = t.collapse := by
  induction t using collapse_induction with
  | nil => rfl
  | blank c rest hc ih =>
    have hblank : isBlank (if c = '\r' then '\n' else c) = true := by
      split
      · rfl
      · exact hc
    rw [collapse_blank hc, ← ih, ← dropWhile_unixLines]
    by_cases hcrlf : ∃ rest', c = '\r' ∧ rest = '\n' :: rest'
    · obtain ⟨rest', rfl, rfl⟩ := hcrlf
      rw [unixLines, collapse_blank rfl, unixLines_cons (by decide),
        List.dropWhile_cons_of_pos (by decide)]
    · rw [unixLines_cons_of_not_crlf fun rest' hc hrest => hcrlf ⟨rest', hc, hrest⟩,
        collapse_blank hblank]
  | other c rest hc ih =>
    have hreturn : c ≠ '\r' := by
      rintro rfl
      cases hc
    rw [unixLines_cons hreturn, collapse_cons hc, ih, collapse_cons hc]

end Text

end Bracemark
