import Bracemark.Escape.Chunk
import Bracemark.Escape.Piece
import Bracemark.Proofs.Cuts
import Bracemark.Text.Blank

/-!
# Protection

What protecting, shielding and taking the protection off do to a text of the document
scheme. A text without a backslash is left alone by protection (`protect_of_notMem`), and
protection that succeeds leaves no backslash (`notMem_protect`). Writing a backslash before
every character that can be escaped and protecting the result is shielding
(`Protects.escape`); a shielded text holds no reserved character (`inert_shield`), it is
restored wherever it stands (`Restores.shield`), and blanks can be collapsed on either side of
shielding (`collapse_shield`).
-/

namespace Bracemark

/-! ## Reserved characters -/

/-- The characters that make directives, blocks and escape pairs. -/
def isReserved (c : Char) : Bool := c = '.' || c = '\x7b' || c = '\x7d' || c = '\\'

theorem eq_of_isReserved {c : Char} (h : isReserved c = true) :
    c = '.' ∨ c = '\x7b' ∨ c = '\x7d' ∨ c = '\\' := by
  simpa only [isReserved, Bool.or_eq_true, decide_eq_true_eq, or_assoc] using h

/-- A text without reserved characters. -/
def Text.Inert (t : Text) : Prop := ∀ c ∈ t, isReserved c = false

namespace Text

theorem inert_iff {t : Text} : t.Inert ↔ (t.all fun c => !isReserved c) = true := by
  simp only [Inert, List.all_eq_true, Bool.not_eq_true']

instance (t : Text) : Decidable t.Inert := decidable_of_iff _ inert_iff.symm

theorem Inert.append {t u : Text} (ht : t.Inert) (hu : u.Inert) : (t ++ u).Inert :=
  List.forall_mem_append.2 ⟨ht, hu⟩

theorem Inert.notMem {t : Text} (h : t.Inert) {c : Char} (hc : isReserved c = true) : c ∉ t :=
  fun hm => Bool.false_ne_true ((h c hm).symm.trans hc)

end Text

/-! ## Escape pairs -/

namespace Piece

theorem cuts_plain {c : Char} (h : c ≠ '\\') : Cuts step [c] [.plain c] :=
  .single fun _ => if_neg h

theorem cuts_escaped (c : Char) : Cuts step ['\\', c] [.escaped c] :=
  .of_step (u := [c]) fun _ => rfl

theorem ofText_plain {c : Char} (hc : c ≠ '\\') (t : Text) :
    ofText (c :: t) = .plain c :: ofText t := cuts_plain hc t

theorem ofText_pair (c : Char) (t : Text) :
    ofText ('\\' :: c :: t) = .escaped c :: ofText t := cuts_escaped c t

/-- Induction along the pieces of a text. -/
@[elab_as_elim]
theorem piece_induction {motive : Text → Prop} (nil : motive []) (dangling : motive ['\\'])
    (plain : ∀ c t, c ≠ '\\' → motive t → motive (c :: t))
    (pair : ∀ c t, motive t → motive ('\\' :: c :: t)) : ∀ t : Text, motive t
  | [] => nil
  | [c] => by
    by_cases hc : c = '\\'
    · subst hc
      exact dangling
    · exact plain c [] hc nil
  | c :: d :: t => by
    by_cases hc : c = '\\'
    · subst hc
      exact pair d t (piece_induction nil dangling plain pair t)
    · exact plain c (d :: t) hc (piece_induction nil dangling plain pair (d :: t))

/-- A text without a backslash has plain pieces only. -/
theorem ofText_of_notMem {t : Text} (h : '\\' ∉ t) : ofText t = t.map .plain := by
  refine (Cuts.map fun c hc post => if_neg ?_).segment_eq
  rintro rfl
  exact h hc

/-- The pieces of a text spell the text. -/
theorem flatMap_written (t : Text) : (ofText t).flatMap written = t := by
  refine flatMap_segment (fun c rest => ?_) t
  unfold step
  split
  · rename_i hc
    subst hc
    cases rest <;> rfl
  · rfl

/-- A plain piece is no backslash. -/
theorem ne_of_plain_mem {t : Text} {c : Char} (h : .plain c ∈ ofText t) : c ≠ '\\' := by
  obtain ⟨x, rest, hx⟩ := exists_step_of_mem_segment h
  unfold step at hx
  split at hx
  · cases rest <;> cases hx
  · cases hx
    assumption

end Piece

namespace Scheme

/-- A piece that a strict scheme lets pass. -/
def Knows (s : Scheme) : Piece → Prop
  | .plain _ => True
  | .escaped c => (s.tag? c).isSome
  | .dangling => False

/-- There is no fault in a text all of whose pieces are known. -/
theorem faultFrom_eq_none_iff {s : Scheme} :
    ∀ {ps : List Piece} {offset : Nat}, s.faultFrom offset ps = none ↔ ∀ p ∈ ps, s.Knows p
  | [], offset => by simp [faultFrom]
  | .plain c :: rest, offset => by
    rw [faultFrom, faultFrom_eq_none_iff, List.forall_mem_cons]
    exact (and_iff_right trivial).symm
  | .escaped c :: rest, offset => by
    rw [faultFrom, List.forall_mem_cons]
    split
    · rename_i hc
      rw [faultFrom_eq_none_iff]
      exact (and_iff_right hc).symm
    · rename_i hc
      simp only [reduceCtorEq, Knows, hc, false_and]
  | .dangling :: rest, offset => by simp [faultFrom, Knows]

theorem fault?_document_eq_none_iff {t : Text} :
    document.fault? t = none ↔ ∀ p ∈ Piece.ofText t, document.Knows p :=
  faultFrom_eq_none_iff

theorem fault?_plain {c : Char} (hc : c ≠ '\\') (t : Text) :
    document.fault? (c :: t) = none ↔ document.fault? t = none := by
  rw [fault?_document_eq_none_iff, fault?_document_eq_none_iff, Piece.ofText_plain hc,
    List.forall_mem_cons]
  exact and_iff_right trivial

theorem fault?_pair (c : Char) (t : Text) :
    document.fault? ('\\' :: c :: t) = none ↔
      (document.tag? c).isSome = true ∧ document.fault? t = none := by
  rw [fault?_document_eq_none_iff, fault?_document_eq_none_iff, Piece.ofText_pair,
    List.forall_mem_cons]
  rfl

theorem protect_of_notMem {s : Scheme} {t : Text} (h : '\\' ∉ t) : s.protect t = t := by
  rw [protect, Piece.ofText_of_notMem h, List.flatMap_map]
  exact List.flatMap_singleton' t

theorem fault?_of_notMem {s : Scheme} {t : Text} (h : '\\' ∉ t) : s.fault? t = none := by
  unfold fault?
  split
  · rw [Piece.ofText_of_notMem h, faultFrom_eq_none_iff]
    intro p hp
    obtain ⟨c, -, rfl⟩ := List.mem_map.1 hp
    trivial
  · rfl

/-! ## The codes of the document scheme -/

theorem mem_tags_of_tag? {s : Scheme} {c : Char} {g : Tag} (h : s.tag? c = some g) :
    (c, g) ∈ s.tags := by
  obtain ⟨before, behind, htags, -⟩ := List.lookup_eq_some_iff.1 h
  rw [htags]
  exact List.mem_append_right _ List.mem_cons_self

/-- What holds of a character that can be escaped and of its code: the code is read as a
code and stands for the character, it holds no reserved character, and neither of the two
holds a blank. -/
structure Coded (c : Char) (g : Tag) : Prop where
  begins : Tag.mayBegin g.first = true
  ends : Tag.mayEnd g.second = true
  character : document.character? g = some c
  inert : g.code.Inert
  notBlank : isBlank c = false
  noBlank : ∀ x ∈ g.code, isBlank x = false

theorem coded_of_tag? {c : Char} {g : Tag} (h : document.tag? c = some g) : Coded c g := by
  have all : ∀ entry ∈ document.tags, Tag.mayBegin entry.2.first = true ∧
      Tag.mayEnd entry.2.second = true ∧ document.character? entry.2 = some entry.1 ∧
      entry.2.code.Inert ∧ isBlank entry.1 = false ∧
      (entry.2.code.all fun x => !isBlank x) = true := by decide
  obtain ⟨hb, he, hc, hi, hn, hx⟩ := all _ (mem_tags_of_tag? h)
  simp only [List.all_eq_true, Bool.not_eq_true'] at hx
  exact ⟨hb, he, hc, hi, hn, hx⟩

/-- Every reserved character can be escaped. -/
theorem isReserved_of_tag?_none {c : Char} (h : document.tag? c = none) :
    isReserved c = false := by
  cases hc : isReserved c with
  | false => rfl
  | true => rcases eq_of_isReserved hc with rfl | rfl | rfl | rfl <;> cases h

/-- The at sign, with which every code begins, can be escaped. -/
theorem ne_at_of_tag?_none {c : Char} (h : document.tag? c = none) : c ≠ '@' := by
  rintro rfl
  cases h

/-- Protection that succeeds leaves no backslash. -/
theorem notMem_protect {t : Text} (h : document.fault? t = none) :
    '\\' ∉ document.protect t := by
  intro hm
  obtain ⟨p, hp, hx⟩ := List.mem_flatMap.1 hm
  have hknown := fault?_document_eq_none_iff.1 h p hp
  cases p with
  | plain c => exact Piece.ne_of_plain_mem hp (List.mem_singleton.1 hx).symm
  | dangling => exact hknown
  | escaped c =>
    obtain ⟨g, hg⟩ := Option.isSome_iff_exists.1 hknown
    rw [protectPiece, hg] at hx
    exact (coded_of_tag? hg).inert.notMem rfl hx

/-! ## Shielding -/

/-- The text with a backslash before every character that can be escaped. -/
def escape (s : Scheme) (t : Text) : Text :=
  t.flatMap fun c => if (s.tag? c).isSome then ['\\', c] else [c]

/-- The piece that a character gives once it is escaped where that is possible. -/
def escapedPiece (s : Scheme) (c : Char) : Piece :=
  if (s.tag? c).isSome then .escaped c else .plain c

/-- The chunk of a shielded character. -/
def shieldedChunk (s : Scheme) (c : Char) : Chunk :=
  match s.tag? c with
  | some g => .code g
  | none => .plain c

theorem cuts_escape (t : Text) :
    Cuts Piece.step (document.escape t) (t.map document.escapedPiece) := by
  rw [List.map_eq_flatMap]
  refine Cuts.flatMap fun c _ => ?_
  unfold escapedPiece
  split
  · exact Piece.cuts_escaped c
  · rename_i hc
    refine Piece.cuts_plain ?_
    rintro rfl
    exact hc rfl

theorem protectPiece_escapedPiece (s : Scheme) (c : Char) :
    s.protectPiece (s.escapedPiece c) = match s.tag? c with
      | some g => g.code
      | none => [c] := by
  cases hc : s.tag? c <;> simp [escapedPiece, protectPiece, Piece.written, hc]

theorem knows_escapedPiece (s : Scheme) (c : Char) : s.Knows (s.escapedPiece c) := by
  unfold escapedPiece
  split
  · assumption
  · trivial

/-- Whatever stands behind `u`, protection accepts `u` and turns it into `v`. -/
def Protects (u v : Text) : Prop :=
  ∃ ps, Cuts Piece.step u ps ∧ (∀ p ∈ ps, document.Knows p) ∧
    ps.flatMap document.protectPiece = v

namespace Protects

theorem append {u v u' v' : Text} (h : Protects u v) (h' : Protects u' v') :
    Protects (u ++ u') (v ++ v') := by
  obtain ⟨ps, hcut, hknow, rfl⟩ := h
  obtain ⟨ps', hcut', hknow', rfl⟩ := h'
  refine ⟨ps ++ ps', hcut.append hcut', List.forall_mem_append.2 ⟨hknow, hknow'⟩, ?_⟩
  rw [List.flatMap_append]

theorem of_notMem {u : Text} (h : '\\' ∉ u) : Protects u u := by
  refine ⟨u.map .plain, ?_, ?_, ?_⟩
  · refine Cuts.map fun c hc _ => if_neg ?_
    rintro rfl
    exact h hc
  · intro p hp
    obtain ⟨c, -, rfl⟩ := List.mem_map.1 hp
    trivial
  · rw [List.flatMap_map]
    exact List.flatMap_singleton' u

/-- Escaping every character that can be escaped and protecting the result is shielding. -/
theorem escape (t : Text) : Protects (document.escape t) (document.shield t) := by
  refine ⟨t.map document.escapedPiece, cuts_escape t, ?_, ?_⟩
  · intro p hp
    obtain ⟨c, -, rfl⟩ := List.mem_map.1 hp
    exact knows_escapedPiece _ c
  · rw [List.flatMap_map]
    exact congrArg t.flatMap (funext (protectPiece_escapedPiece document))

theorem fault?_eq {u v : Text} (h : Protects u v) : document.fault? u = none := by
  obtain ⟨ps, hcut, hknow, -⟩ := h
  rw [fault?_document_eq_none_iff, Piece.ofText, hcut.segment_eq]
  exact hknow

theorem protect_eq {u v : Text} (h : Protects u v) : document.protect u = v := by
  obtain ⟨ps, hcut, -, rfl⟩ := h
  rw [protect, Piece.ofText, hcut.segment_eq]

end Protects

/-- A text that protection accepts is protected by itself. -/
theorem protects_of_fault? {t : Text} (h : document.fault? t = none) :
    Protects t (document.protect t) := by
  have hknown := fault?_document_eq_none_iff.1 h
  refine ⟨Piece.ofText t, ?_, hknown, rfl⟩
  have hcuts : Cuts Piece.step ((Piece.ofText t).flatMap Piece.written)
      ((Piece.ofText t).flatMap fun p => [p]) := by
    refine Cuts.flatMap fun p hp => ?_
    cases p with
    | plain c => exact Piece.cuts_plain (Piece.ne_of_plain_mem hp)
    | escaped c => exact Piece.cuts_escaped c
    | dangling => exact absurd (hknown _ hp) id
  rwa [Piece.flatMap_written, List.flatMap_singleton'] at hcuts

theorem inert_shield (t : Text) : (document.shield t).Inert := by
  intro x hx
  obtain ⟨c, -, hx⟩ := List.mem_flatMap.1 hx
  split at hx
  · rename_i g hg
    exact (coded_of_tag? hg).inert x hx
  · rename_i hg
    rw [List.mem_singleton.1 hx]
    exact isReserved_of_tag?_none hg

end Scheme

/-! ## Taking the protection off -/

namespace Chunk

theorem step_of_ne {c : Char} (h : c ≠ '@') (rest : Text) : step c rest = (.plain c, 0) := by
  unfold step
  split
  · exact absurd rfl h
  · rfl

theorem cuts_code {g : Tag} (hb : Tag.mayBegin g.first = true) (he : Tag.mayEnd g.second = true) :
    Cuts step g.code [.code g] := by
  refine .of_step (u := ['#', '\x27', ':', '[', ';', ':', g.first, g.second, ']']) fun post => ?_
  show (if Tag.mayBegin g.first && Tag.mayEnd g.second then _ else _) = _
  rw [hb, he]
  rfl

/-- A text without an at sign holds no code, whatever stands behind it. -/
theorem cuts_of_notMem {u : Text} (h : '@' ∉ u) : Cuts step u (u.map .plain) :=
  Cuts.map fun _ hc => step_of_ne fun e => h (e ▸ hc)

end Chunk

namespace Scheme

/-- A shielded text falls into the chunks of its characters, whatever stands behind it. -/
theorem cuts_shield (t : Text) :
    Cuts Chunk.step (document.shield t) (t.map document.shieldedChunk) := by
  rw [List.map_eq_flatMap]
  refine Cuts.flatMap fun c _ => ?_
  cases hg : document.tag? c with
  | some g =>
    rw [shieldedChunk, hg]
    exact Chunk.cuts_code (coded_of_tag? hg).begins (coded_of_tag? hg).ends
  | none =>
    rw [shieldedChunk, hg]
    exact .single (Chunk.step_of_ne (ne_at_of_tag?_none hg))

/-- Whatever stands behind `u`, taking the protection off turns `u` into `v`. -/
def Restores (s : Scheme) (u v : Text) : Prop :=
  ∃ ks, Cuts Chunk.step u ks ∧ ks.flatMap s.deprotectChunk = v

namespace Restores

variable {s : Scheme}

theorem append {u v u' v' : Text} (h : s.Restores u v) (h' : s.Restores u' v') :
    s.Restores (u ++ u') (v ++ v') := by
  obtain ⟨ks, hcut, rfl⟩ := h
  obtain ⟨ks', hcut', rfl⟩ := h'
  exact ⟨ks ++ ks', hcut.append hcut', List.flatMap_append⟩

theorem of_notMem {u : Text} (h : '@' ∉ u) : s.Restores u u := by
  refine ⟨u.map .plain, Chunk.cuts_of_notMem h, ?_⟩
  rw [List.flatMap_map]
  exact List.flatMap_singleton' u

theorem flatMap {α : Type} {l : List α} {f g : α → Text} (h : ∀ x ∈ l, s.Restores (f x) (g x)) :
    s.Restores (l.flatMap f) (l.flatMap g) := by
  induction l with
  | nil => exact of_notMem List.not_mem_nil
  | cons x l ih =>
    obtain ⟨hx, hl⟩ := List.forall_mem_cons.1 h
    exact hx.append (ih hl)

/-- A shielded text is restored wherever it stands. -/
theorem shield (t : Text) : document.Restores (document.shield t) t := by
  refine ⟨t.map document.shieldedChunk, cuts_shield t, ?_⟩
  rw [List.flatMap_map]
  refine (congrArg t.flatMap (funext fun c => ?_)).trans (List.flatMap_singleton' t)
  cases hg : document.tag? c with
  | some g => simp [shieldedChunk, hg, deprotectChunk, (coded_of_tag? hg).character]
  | none => simp [shieldedChunk, hg, deprotectChunk]

theorem deprotect_eq {u v : Text} (h : s.Restores u v) : s.deprotect u = v := by
  obtain ⟨ks, hcut, rfl⟩ := h
  rw [deprotect, Chunk.ofText, hcut.segment_eq]

end Restores

end Scheme

/-! ## Blanks in shielded text -/

/-- No character of ASCII behind the space is blank. -/
theorem isBlank_of_ascii {c : Char} (hlow : 0x20 < c.toNat) (hhigh : c.toNat < 0x80) :
    isBlank c = false := by
  simp only [isBlank, isSpace, isSeparator, Bool.or_eq_false_iff, Bool.and_eq_false_iff,
    decide_eq_false_iff_not]
  rw [if_pos hhigh]
  simp only [Bool.or_eq_false_iff, Bool.and_eq_false_iff, decide_eq_false_iff_not,
    beq_eq_false_iff_ne]
  omega

namespace Text

theorem collapse_blank {c : Char} (h : isBlank c = true) (rest : Text) :
    collapse (c :: rest) = ' ' :: collapse (rest.dropWhile isBlank) := by
  rw [collapse, segment_zero_cons, if_pos h, drop_length_takeWhile]
  rfl

/-- A character that is not blank is left alone. -/
theorem collapse_cons {c : Char} (h : isBlank c = false) (rest : Text) :
    collapse (c :: rest) = c :: collapse rest := by
  rw [collapse, segment_zero_cons, if_neg (Bool.eq_false_iff.1 h), List.drop_zero, ← collapse]

/-- Texts are collapsed one run of blanks and one other character at a time. -/
theorem collapse_induction {motive : Text → Prop} (nil : motive [])
    (blank : ∀ c rest, isBlank c = true → motive (rest.dropWhile isBlank) → motive (c :: rest))
    (other : ∀ c rest, isBlank c = false → motive rest → motive (c :: rest)) (t : Text) :
    motive t := by
  induction t using suffix_induction with
  | nil => exact nil
  | cons c rest ih =>
    cases hc : isBlank c with
    | true => exact blank c rest hc (ih _ (List.dropWhile_suffix isBlank))
    | false => exact other c rest hc (ih rest List.suffix_rfl)

/-- Characters that are not blank are left alone. -/
theorem collapse_append {u : Text} (h : ∀ c ∈ u, isBlank c = false) (v : Text) :
    collapse (u ++ v) = u ++ collapse v := by
  induction u with
  | nil => rfl
  | cons c u ih =>
    obtain ⟨hc, hu⟩ := List.forall_mem_cons.1 h
    rw [List.cons_append, collapse_cons hc, ih hu, List.cons_append]

/-- Collapsing and writing characters as other texts do not meet if blanks are written as they
are and no other character as one with blanks. -/
theorem collapse_flatMap {g : Char → Text} (hblank : ∀ c, isBlank c = true → g c = [c])
    (hother : ∀ c, isBlank c = false → g c ≠ [] ∧ ∀ x ∈ g c, isBlank x = false) (t : Text) :
    collapse (t.flatMap g) = t.collapse.flatMap g := by
  have hdrop (t : Text) : (t.flatMap g).dropWhile isBlank = (t.dropWhile isBlank).flatMap g := by
    induction t with
    | nil => rfl
    | cons c t ih =>
      cases hc : isBlank c with
      | true =>
        rw [List.flatMap_cons, hblank c hc, List.singleton_append, List.dropWhile_cons_of_pos hc,
          List.dropWhile_cons_of_pos hc, ih]
      | false =>
        rw [List.dropWhile_cons_of_neg (Bool.eq_false_iff.1 hc), List.flatMap_cons]
        obtain ⟨hne, hno⟩ := hother c hc
        cases hg : g c with
        | nil => exact absurd hg hne
        | cons x w =>
          rw [hg] at hno
          exact List.dropWhile_cons_of_neg (Bool.eq_false_iff.1 (hno x List.mem_cons_self))
  induction t using collapse_induction with
  | nil => rfl
  | blank c rest hc ih =>
    rw [List.flatMap_cons, hblank c hc, List.singleton_append, collapse_blank hc, hdrop, ih,
      collapse_blank hc, List.flatMap_cons, hblank ' ' rfl, List.singleton_append]
  | other c rest hc ih =>
    rw [List.flatMap_cons, collapse_append (hother c hc).2, ih, collapse_cons hc,
      List.flatMap_cons]

theorem collapse_append_cons {b : Char} (hb : isBlank b = false) (u v : Text) :
    collapse (u ++ b :: v) = collapse u ++ b :: collapse v := by
  induction u using collapse_induction with
  | nil => exact collapse_cons hb v
  | blank c rest hc ih =>
    have hdrop : (rest ++ b :: v).dropWhile isBlank = rest.dropWhile isBlank ++ b :: v := by
      rw [List.dropWhile_append]
      split
      · rename_i hnil
        rw [List.isEmpty_iff.1 hnil, List.dropWhile_cons_of_neg (Bool.eq_false_iff.1 hb)]
        rfl
      · rfl
    rw [List.cons_append, collapse_blank hc, hdrop, ih, collapse_blank hc, List.cons_append]
  | other c rest hc ih =>
    rw [List.cons_append, collapse_cons hc, ih, collapse_cons hc, List.cons_append]

theorem collapse_collapse (t : Text) : t.collapse.collapse = t.collapse := by
  induction t using collapse_induction with
  | nil => rfl
  | blank c rest hc ih =>
    have hdrop : (collapse (rest.dropWhile isBlank)).dropWhile isBlank =
        collapse (rest.dropWhile isBlank) := by
      cases hrest : rest.dropWhile isBlank with
      | nil => rfl
      | cons x w =>
        have hx : isBlank x = false := by
          have := List.head?_dropWhile_not isBlank rest
          rw [hrest] at this
          simpa using this
        rw [collapse_cons hx, List.dropWhile_cons_of_neg (Bool.eq_false_iff.1 hx)]
    rw [collapse_blank hc, collapse_blank rfl, hdrop, ih]
  | other c rest hc ih => rw [collapse_cons hc, collapse_cons hc, ih]

end Text

namespace Scheme

/-- A blank cannot be escaped. -/
theorem tag?_of_isBlank {c : Char} (h : isBlank c = true) : document.tag? c = none := by
  cases hc : document.tag? c with
  | none => rfl
  | some g =>
    rw [(coded_of_tag? hc).notBlank] at h
    cases h

/-- Shielding and collapsing blanks do not meet: no code holds a blank, and no blank has a
code. -/
theorem collapse_shield (t : Text) :
    (document.shield t).collapse = document.shield t.collapse := by
  refine Text.collapse_flatMap (fun c hc => ?_) (fun c hc => ?_) t
  · rw [tag?_of_isBlank hc]
  · cases hg : document.tag? c with
    | none => simp [hc]
    | some g =>
      refine ⟨?_, (coded_of_tag? hg).noBlank⟩
      simp [Tag.code]

end Scheme

end Bracemark
