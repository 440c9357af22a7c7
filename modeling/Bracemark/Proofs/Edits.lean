import Bracemark.Proofs.Splicing
import Mathlib.Algebra.BigOperators.Group.List.Basic
import Mathlib.Algebra.Ring.Int.Defs

/-!
# Edits in any order

Edits are applied from the latest start to the earliest. If their spans lie in the text, do not
overlap and start at different offsets (`Edit.Separate`), this is the same as one walk through the
text from its start to its end, whatever the order in which the edits are given
(`Text.splice_forward`): there is only one way to list the edits by their starts
(`Edit.latestFirst_eq_reverse`), and in that list each one stops before the next one starts
(`Edit.Separate.inLine`).

An empty span may stand next to another one, before it or behind it, but not within it.
-/

namespace Bracemark

namespace Edit

/-- Whether one of two edits stops before the other one starts, or just there. -/
def Apart (d e : Edit) : Prop := d.stop ≤ e.start ∨ e.stop ≤ d.start

/-- The spans of edits lie in a text of some length, do not overlap, and start at different
offsets. -/
structure Separate (limit : Nat) (edits : List Edit) : Prop where
  within : ∀ e ∈ edits, e.start ≤ e.stop ∧ e.stop ≤ limit
  apart : edits.Pairwise Apart
  starts : edits.Pairwise fun d e => d.start ≠ e.start

/-- By how much an edit makes a text longer, which is negative if the text gets shorter. -/
def growth (e : Edit) : Int := e.replacement.length - ((e.stop : Int) - e.start)

/-! ## Edits by their starts -/

theorem place_perm (e : Edit) (edits : List Edit) : (place e edits).Perm (e :: edits) := by
  induction edits with
  | nil => exact .refl _
  | cons x edits ih =>
    rw [place]
    split
    · exact .refl _
    · exact (ih.cons x).trans (.swap e x edits)

theorem latestFirst_perm (edits : List Edit) : (latestFirst edits).Perm edits := by
  induction edits with
  | nil => exact .refl _
  | cons e edits ih => exact (place_perm e _).trans (ih.cons e)

theorem pairwise_place {e : Edit} {edits : List Edit}
    (h : edits.Pairwise fun c d => d.start ≤ c.start) :
    (place e edits).Pairwise fun c d => d.start ≤ c.start := by
  induction edits with
  | nil => exact List.pairwise_singleton _ e
  | cons x edits ih =>
    obtain ⟨hx, hrest⟩ := List.pairwise_cons.1 h
    rw [place]
    split
    · rename_i hle
      refine List.pairwise_cons.2 ⟨?_, h⟩
      intro y hy
      rcases List.mem_cons.1 hy with rfl | hy
      · exact hle
      · exact Nat.le_trans (hx y hy) hle
    · rename_i hlt
      refine List.pairwise_cons.2 ⟨?_, ih hrest⟩
      intro y hy
      rcases List.mem_cons.1 ((place_perm e edits).mem_iff.1 hy) with rfl | hy
      · omega
      · exact hx y hy

theorem pairwise_latestFirst (edits : List Edit) :
    (latestFirst edits).Pairwise fun c d => d.start ≤ c.start := by
  induction edits with
  | nil => exact .nil
  | cons e edits ih => exact pairwise_place ih

/-- Edits with different starts can be listed by their starts in one way only. -/
theorem latestFirst_eq_reverse {edits inOrder : List Edit} (hperm : inOrder.Perm edits)
    (hstarts : inOrder.Pairwise fun d e => d.start < e.start) :
    latestFirst edits = inOrder.reverse := by
  have hsorted : inOrder.reverse.Pairwise fun c d => d.start < c.start :=
    List.pairwise_reverse.2 hstarts
  have hboth : (latestFirst edits).Perm inOrder.reverse :=
    (latestFirst_perm edits).trans (hperm.symm.trans inOrder.reverse_perm.symm)
  have hne : (latestFirst edits).Pairwise fun c d => c.start ≠ d.start :=
    (hsorted.imp fun {c d} h => Nat.ne_of_gt h).perm hboth.symm fun h => h.symm
  have hlatest : (latestFirst edits).Pairwise fun c d => d.start < c.start := by
    refine ((pairwise_latestFirst edits).and hne).imp ?_
    rintro c d ⟨hle, hne⟩
    omega
  refine hboth.eq_of_pairwise ?_ hlatest hsorted
  intro c d _ _ hlt hgt
  omega

namespace Separate

variable {limit : Nat} {edits inOrder : List Edit}

theorem perm (h : Separate limit edits) (hperm : inOrder.Perm edits) : Separate limit inOrder where
  within e he := h.within e (hperm.mem_iff.1 he)
  apart := h.apart.perm hperm.symm Or.symm
  starts := h.starts.perm hperm.symm Ne.symm

/-- The edits by ascending starts. -/
theorem exists_inOrder (h : Separate limit edits) :
    ∃ inOrder : List Edit, inOrder.Perm edits ∧
      inOrder.Pairwise fun d e => d.start < e.start := by
  refine ⟨(latestFirst edits).reverse,
    (List.reverse_perm _).trans (latestFirst_perm edits), List.pairwise_reverse.2 ?_⟩
  refine ((pairwise_latestFirst edits).and (h.perm (latestFirst_perm edits)).starts).imp ?_
  rintro c d ⟨hle, hne⟩
  omega

/-- Of edits by ascending starts, each one stops before the next one starts. -/
theorem inLine (h : Separate limit inOrder)
    (hstarts : inOrder.Pairwise fun d e => d.start < e.start) {start : Nat} (hlimit : start ≤ limit)
    (hle : ∀ e ∈ inOrder, start ≤ e.start) : InLine limit start inOrder := by
  induction inOrder generalizing start with
  | nil => exact hlimit
  | cons e edits ih =>
    obtain ⟨hspan, hrest⟩ := List.forall_mem_cons.1 h.within
    obtain ⟨hapart, haparts⟩ := List.pairwise_cons.1 h.apart
    obtain ⟨-, hothers⟩ := List.pairwise_cons.1 h.starts
    obtain ⟨hlt, hmore⟩ := List.pairwise_cons.1 hstarts
    refine ⟨hle e List.mem_cons_self, hspan.1, ih ⟨hrest, haparts, hothers⟩ hmore hspan.2 ?_⟩
    intro d hd
    -- the other way round the later one would stop before it starts
    have := hlt d hd
    have := (hrest d hd).1
    rcases hapart d hd with hstop | hstop
    · exact hstop
    · omega

end Separate

/-! ## What edits in line make of a text -/

namespace InLine

variable {t : Text} {start : Nat} {edits : List Edit}

/-- The gaps between the spans and the texts of the spans spell the text. -/
theorem weave_spans (h : InLine t.length start edits) :
    t.weave start (edits.map fun e => { e with replacement := t.slice e.start e.stop }) =
      t.drop start := by
  induction edits generalizing start with
  | nil => rfl
  | cons e edits ih =>
    obtain ⟨hstart, hle, hrest⟩ := h
    have hgap (i j : Nat) (hij : i ≤ j) : t.slice i j ++ t.drop j = t.drop i := by
      rw [Text.slice, List.drop_take, ← Nat.add_sub_cancel' hij, Nat.add_sub_cancel_left,
        ← List.drop_drop, List.take_append_drop]
    rw [List.map_cons, Text.weave, ih hrest, List.append_assoc, hgap _ _ hle, hgap _ _ hstart]

theorem length_weave (h : InLine t.length start edits) :
    ((t.weave start edits).length : Int) + start = t.length + (edits.map growth).sum := by
  induction edits generalizing start with
  | nil =>
    have : start ≤ t.length := h
    simp only [Text.weave, List.length_drop, List.map_nil, List.sum_nil]
    omega
  | cons e edits ih =>
    obtain ⟨hstart, hle, hrest⟩ := h
    have hlimit := hrest.le_limit
    have hslice : (t.slice start e.start).length = e.start - start := by
      rw [Text.slice, List.length_drop, List.length_take, Nat.min_eq_left (by omega)]
    have hmore := ih hrest
    rw [Text.weave, List.length_append, List.length_append, hslice, List.map_cons, List.sum_cons,
      growth]
    push_cast [hstart]
    omega

end InLine

end Edit

/-- Edits whose spans lie in the text, do not overlap and start at different offsets are spliced in
by one walk from the start of the text to its end, which keeps what stands between the spans and
puts each replacement into the place of its span. The order in which the edits are given does not
matter. The text gets longer by what the replacements are longer than the spans. -/
theorem Text.splice_forward (t : Text) (edits : List Edit) (h : Edit.Separate t.length edits) :
    (∃ inOrder, inOrder.Perm edits ∧ (inOrder.Pairwise fun d e => d.start < e.start) ∧
      t = t.weave 0 (inOrder.map fun e => { e with replacement := t.slice e.start e.stop }) ∧
      t.splice edits = t.weave 0 inOrder) ∧
    (∀ others, others.Perm edits → t.splice others = t.splice edits) ∧
    ((t.splice edits).length : Int) = t.length + (edits.map Edit.growth).sum := by
  obtain ⟨inOrder, hperm, hstarts⟩ := h.exists_inOrder
  have hline : Edit.InLine t.length 0 inOrder :=
    (h.perm hperm).inLine hstarts (Nat.zero_le _) fun e _ => Nat.zero_le _
  have hsplice : ∀ others, others.Perm edits → t.splice others = t.weave 0 inOrder := by
    intro others hothers
    rw [Text.splice, Edit.latestFirst_eq_reverse (hperm.trans hothers.symm) hstarts,
      List.foldl_reverse, hline.foldr_eq]
    rfl
  have hedits := hsplice edits (.refl _)
  refine ⟨⟨inOrder, hperm, hstarts, hline.weave_spans.symm, hedits⟩, ?_, ?_⟩
  · intro others hothers
    rw [hsplice others hothers, hedits]
  · have hlength := hline.length_weave
    rw [(hperm.map Edit.growth).sum_eq] at hlength
    rw [hedits]
    omega

/-- Two neighbours, an empty span behind them, and a span at the end of the text, with the last one
given first. -/
theorem Text.splice_forward_neighbours :
    Edit.Separate 6 [⟨5, 6, ['Z']⟩, ⟨3, 3, ['X']⟩, ⟨0, 1, []⟩, ⟨1, 3, ['Y']⟩] ∧
      Text.splice "abcdef".toList [⟨5, 6, ['Z']⟩, ⟨3, 3, ['X']⟩, ⟨0, 1, []⟩, ⟨1, 3, ['Y']⟩] =
        "YXdeZ".toList ∧
      Text.splice "abcdef".toList [⟨3, 3, ['X']⟩, ⟨1, 3, ['Y']⟩, ⟨5, 6, ['Z']⟩, ⟨0, 1, []⟩] =
        "YXdeZ".toList := by
  have hseparate : Edit.Separate 6
      [⟨5, 6, ['Z']⟩, ⟨3, 3, ['X']⟩, ⟨0, 1, []⟩, ⟨1, 3, ['Y']⟩] := by
    constructor <;> simp [Edit.Apart]
  obtain ⟨-, horder, -⟩ := Text.splice_forward "abcdef".toList _ hseparate
  exact ⟨hseparate, rfl, (horder _ (by decide)).trans rfl⟩

end Bracemark
