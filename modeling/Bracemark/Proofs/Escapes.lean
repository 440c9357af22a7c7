import Bracemark.Proofs.Places
import Bracemark.Proofs.Runs

/-!
# Escapes read character by character

Protection works on the pieces of a text. Here a text is read one character after the other, where a
backslash takes the character behind it along: `Text.WellEscaped` says that every backslash then
stands in front of a character that can be escaped, and `Text.unescape` and `Text.unescapedBraces`
are what such a text means and the braces in it that count.

A text is protected just if it is well escaped, and otherwise refused for the first backslash that
escapes nothing (`Scheme.faultFrom_of_misescaped`). A code that is put in begins with an at sign,
and no code holds one behind its first character. So a code that is read in a protected text was put
in for an escape pair or stands in the text itself, and without codes of its own a text is protected
and restored as what it means (`Scheme.deprotect_protect`).
-/

namespace Bracemark

namespace Text

/-! ## Reading escapes -/

/-- The characters in front of which a backslash may stand. -/
def escapable : Text := ['\x7b', '\x7d', '\\', '.', '@', ']']

/-- A text in which every backslash stands in front of a character that can be escaped, if it is
read from left to right and each backslash takes the next character along. -/
def WellEscaped : Text → Prop
  | [] => True
  | ['\\'] => False
  | '\\' :: c :: rest => c ∈ escapable ∧ WellEscaped rest
  | _ :: rest => WellEscaped rest

/-- The text with the second character of each escape pair in place of the pair. -/
def unescape : Text → Text
  | [] => []
  | '\\' :: c :: rest => c :: unescape rest
  | c :: rest => c :: unescape rest

/-- The braces of a text that belong to no escape pair. -/
def unescapedBraces : Text → Text
  | [] => []
  | '\\' :: _ :: rest => unescapedBraces rest
  | c :: rest => if isBrace c then c :: unescapedBraces rest else unescapedBraces rest

/-- The first backslash that escapes nothing: it stands behind `u`, which is well escaped, and what
is behind it begins with no character that can be escaped. -/
structure Misescaped (t u rest : Text) : Prop where
  split : t = u ++ '\\' :: rest
  before : u.WellEscaped
  behind : ∀ c ∈ rest.head?, c ∉ escapable

/-- A text without anything that has the shape of a code. -/
def Codeless (t : Text) : Prop := ∀ g : Tag, g.Formed → ¬g.code <:+: t

variable {c : Char} {t : Text}

theorem wellEscaped_pair (c : Char) (t : Text) :
    WellEscaped ('\\' :: c :: t) ↔ c ∈ escapable ∧ WellEscaped t := Iff.rfl

theorem wellEscaped_plain (hc : c ≠ '\\') (t : Text) : WellEscaped (c :: t) ↔ WellEscaped t := by
  rw [WellEscaped.eq_4]
  · exact fun h => absurd h hc
  · exact fun _ _ h => absurd h hc

theorem unescape_plain (hc : c ≠ '\\') (t : Text) : unescape (c :: t) = c :: unescape t := by
  rw [unescape.eq_3]
  exact fun _ _ h => absurd h hc

theorem unescapedBraces_plain (hc : c ≠ '\\') (t : Text) :
    unescapedBraces (c :: t) =
      if isBrace c then c :: unescapedBraces t else unescapedBraces t := by
  rw [unescapedBraces.eq_3]
  exact fun _ _ h => absurd h hc

theorem codeless_iff : t.Codeless ↔ ∀ g, .code g ∉ Chunk.ofText t := by
  simp only [Codeless, Chunk.mem_ofText_iff, not_and]

end Text

namespace Scheme

open Text

variable {t : Text}

/-! ## What is refused -/

theorem tag?_isSome_iff {c : Char} : (document.tag? c).isSome ↔ c ∈ escapable := by
  rw [tag?, List.lookup_isSome_iff]
  simp [document, escapable]

/-- A text is protected if it is well escaped. -/
theorem fault?_eq_none_iff : document.fault? t = none ↔ t.WellEscaped := by
  induction t using Piece.piece_induction with
  | nil => exact iff_of_true rfl trivial
  | dangling => exact iff_of_false nofun id
  | plain c t hc ih => rw [fault?_plain hc, wellEscaped_plain hc, ih]
  | pair c t ih => rw [fault?_pair, wellEscaped_pair, tag?_isSome_iff, ih]

/-- A text is refused for its first backslash that escapes nothing. -/
theorem faultFrom_of_misescaped {u rest : Text} {offset : Nat} (hu : document.fault? u = none)
    (hrest : ∀ c ∈ rest.head?, c ∉ escapable) :
    document.faultFrom offset (Piece.ofText (u ++ '\\' :: rest)) =
      some ⟨offset + u.length, rest.head?⟩ := by
  induction u, hu using accepted_induction generalizing offset with
  | nil =>
    cases rest with
    | nil => rfl
    | cons c rest =>
      have hc : ¬(document.tag? c).isSome := mt tag?_isSome_iff.1 (hrest c rfl)
      rw [List.nil_append, Piece.ofText_pair, faultFrom, if_neg hc]
      rfl
  | plain c u hc _ ih =>
    rw [List.cons_append, Piece.ofText_plain hc, faultFrom, ih, List.length_cons, Nat.add_assoc,
      Nat.add_comm 1]
  | pair c g u hg _ ih =>
    have hknown : (document.tag? c).isSome := by rw [hg]; rfl
    rw [List.cons_append, List.cons_append, Piece.ofText_pair, faultFrom, if_pos hknown, ih,
      List.length_cons, List.length_cons, Nat.add_assoc, Nat.add_comm 2]

/-- In a text that is not well escaped there is a first backslash that escapes nothing. -/
theorem exists_misescaped (h : ¬t.WellEscaped) : ∃ u rest, t.Misescaped u rest := by
  cases hf : document.fault? t with
  | none => exact absurd (fault?_eq_none_iff.1 hf) h
  | some f =>
    obtain ⟨u, v, rfl, -, hu, hv⟩ := exists_of_faultFrom hf
    have hu := fault?_eq_none_iff.1 hu
    rcases hv with ⟨-, rfl⟩ | ⟨c, rest, -, hc, rfl⟩
    · exact ⟨u, [], rfl, hu, nofun⟩
    · refine ⟨u, c :: rest, rfl, hu, fun d hd hmem => ?_⟩
      cases hd
      have hsome := tag?_isSome_iff.2 hmem
      rw [hc] at hsome
      cases hsome

/-! ## What is accepted -/

/-- The braces of a protected text are those that belong to no escape pair. -/
theorem filter_isBrace_protect (h : document.fault? t = none) :
    (document.protect t).filter isBrace = t.unescapedBraces := by
  induction t, h using accepted_induction with
  | nil => rfl
  | plain c t hc h ih => rw [protect_plain hc h, unescapedBraces_plain hc, List.filter_cons, ih]
  | pair c g t hg h ih =>
    have hcode : g.code.filter isBrace = [] :=
      List.filter_eq_nil_iff.2 fun x hx => by
        rw [Text.Inert.noBrace (coded_of_tag? hg).inert x hx]
        exact Bool.false_ne_true
    rw [protect_pair hg h, List.filter_append, hcode, ih]
    rfl

/-- A text without codes of its own is restored as what it means. -/
theorem deprotect_protect (h : document.fault? t = none) (ht : t.Codeless) :
    document.deprotect (document.protect t) = t.unescape := by
  induction t, h using accepted_induction with
  | nil => rfl
  | plain c t hc h ih =>
    have hrest : t.Codeless := fun g hg hcode =>
      ht g hg (hcode.trans (List.suffix_cons c t).isInfix)
    -- a code that begins here goes on in the text, as it holds no further at sign
    have hplain : ∀ g : Tag, g.Formed → ¬g.code <+: c :: document.protect t := by
      rintro g hg ⟨more, hsplit⟩
      rw [Tag.code_eq, List.cons_append, List.cons.injEq] at hsplit
      obtain ⟨rfl, hinner⟩ := hsplit
      obtain ⟨v, rfl, -⟩ := exists_rest hg.at_notMem_inner h hinner.symm
      exact ht g hg (List.prefix_append g.code v).isInfix
    rw [protect_plain hc h, deprotect_plain hplain, unescape_plain hc, ih hrest]
  | pair c g t hg h ih =>
    have hcoded := coded_of_tag? hg
    have hrest : t.Codeless := fun g hg hcode =>
      ht g hg (hcode.trans (List.suffix_append ['\\', c] t).isInfix)
    rw [protect_pair hg h, deprotect_code ⟨hcoded.begins, hcoded.ends⟩, hcoded.character, ih hrest]
    rfl

/-- A text without backslashes has no escape pairs. -/
theorem escapeCount_of_notMem {s : Scheme} (h : '\\' ∉ t) : s.escapeCount t = 0 := by
  rw [escapeCount, Piece.ofText_of_notMem h, List.countP_map, List.countP_eq_zero]
  exact fun _ _ => Bool.false_ne_true

end Scheme

/-- Protection leaves a text without backslashes alone, and the run as well. -/
theorem Run.protect_of_notMem {t : Text} (h : '\\' ∉ t) (scheme : Scheme) (file : Text)
    (s : RunState) : Run.protect scheme file t s = .ok t s := by
  unfold Run.protect
  rw [Scheme.fault?_of_notMem h]
  simp only [Scheme.escapeCount_of_notMem h, Nat.lt_irrefl, if_false,
    Scheme.protect_of_notMem h]
  rfl

/-- A text without at signs is restored as it is, and a run drops no code over it. -/
theorem Run.deprotect_of_notMem {t : Text} (h : '@' ∉ t) (s : RunState) :
    Run.deprotect .document t s = .ok t s := by
  unfold Run.deprotect
  rw [Scheme.unknownTags_of_notMem h, (Scheme.Restores.of_notMem h).deprotect_eq]
  rfl

/-! ## Protection -/

/-- A text is protected if it is well escaped, and otherwise refused for the first backslash that
escapes nothing, in the line of that backslash. What is protected has no backslash and the braces
that belong to no escape pair, is protected already, and restored as what the text means unless the
text has codes of its own. -/
theorem protect_wellEscaped (file t : Text) (s : RunState) :
    ((∃ u s', Run.protect .document file t s = .ok u s') ↔ t.WellEscaped) ∧
    ((¬t.WellEscaped → ∃ u rest, t.Misescaped u rest) ∧
      ∀ u rest, t.Misescaped u rest → Run.protect .document file t s =
        .error (.diagnostic ⟨.directive, file, some (1 + u.count '\n'),
          rest.head?.elim .escapeAtEnd .inescapable⟩) s) ∧
    ∀ u s', Run.protect .document file t s = .ok u s' →
      '\\' ∉ u ∧ u.filter isBrace = t.unescapedBraces ∧
      Run.protect .document file u s' = .ok u s' ∧
      (t.Codeless → ∃ s'', Run.deprotect .document u s' = .ok t.unescape s'') := by
  refine ⟨?_, ⟨Scheme.exists_misescaped, ?_⟩, ?_⟩
  · rw [← Scheme.fault?_eq_none_iff]
    rcases Run.protect_cases .document file t s with ⟨f, hf, hrun⟩ | ⟨hnone, s', hrun, -⟩
    · rw [hrun, hf]
      exact iff_of_false nofun nofun
    · exact iff_of_true ⟨_, s', hrun⟩ hnone
  · rintro u rest ⟨rfl, hu, hrest⟩
    have hfault : Scheme.document.fault? (u ++ '\\' :: rest) = some ⟨0 + u.length, rest.head?⟩ :=
      Scheme.faultFrom_of_misescaped (Scheme.fault?_eq_none_iff.2 hu) hrest
    unfold Run.protect
    rw [hfault]
    simp only [Run.escapeDiagnostic, Text.lineAt, Nat.zero_add, List.take_left]
    cases rest <;> rfl
  · intro u s' hrun
    rcases Run.protect_cases .document file t s with ⟨f, -, herror⟩ | ⟨hfault, s₁, hok, -⟩
    · rw [herror] at hrun
      cases hrun
    rw [hok] at hrun
    cases hrun
    have hplain := Scheme.notMem_protect hfault
    refine ⟨hplain, Scheme.filter_isBrace_protect hfault, Run.protect_of_notMem hplain .., ?_⟩
    intro hcodeless
    obtain ⟨s'', hrestored, -⟩ := Run.deprotect_eq_ok .document (Scheme.document.protect t) s'
    rw [Scheme.deprotect_protect hfault hcodeless] at hrestored
    exact ⟨s'', hrestored⟩

/-- The characters of a code in front of an escaped bracket, and an escape pair that is none in the
second line. -/
theorem protect_wellEscaped_fragment :
    (Text.WellEscaped "@#':[;:LB\\]".toList ∧ Text.Codeless "@#':[;:LB\\]".toList ∧
      ∃ u s' s'', Run.protect .document [] "@#':[;:LB\\]".toList {} = .ok u s' ∧
        '\\' ∉ u ∧ u.filter isBrace = [] ∧ Run.protect .document [] u s' = .ok u s' ∧
        Run.deprotect .document u s' = .ok "@#':[;:LB]".toList s'') ∧
    Text.Misescaped "\\\\\n\\n\\".toList "\\\\\n".toList "n\\".toList ∧
    Run.protect .document [] "\\\\\n\\n\\".toList {} =
      .error (.diagnostic ⟨.directive, [], some 2, .inescapable 'n'⟩) {} := by
  have hescaped : Text.WellEscaped "@#':[;:LB\\]".toList :=
    Scheme.fault?_eq_none_iff.1 (by decide +kernel)
  have hcodeless : Text.Codeless "@#':[;:LB\\]".toList := by
    have hchunks : Chunk.ofText "@#':[;:LB\\]".toList = "@#':[;:LB\\]".toList.map .plain := by
      decide +kernel
    refine Text.codeless_iff.2 fun g hg => ?_
    rw [hchunks] at hg
    obtain ⟨c, -, hc⟩ := List.mem_map.1 hg
    cases hc
  have hmisescaped : Text.Misescaped "\\\\\n\\n\\".toList "\\\\\n".toList "n\\".toList :=
    ⟨by decide, Scheme.fault?_eq_none_iff.1 (by decide +kernel), by rintro c ⟨⟩; decide⟩
  obtain ⟨hiff, -, hok⟩ := protect_wellEscaped [] "@#':[;:LB\\]".toList {}
  obtain ⟨u, s', hrun⟩ := hiff.2 hescaped
  obtain ⟨hplain, hbraces, hagain, hrestored⟩ := hok u s' hrun
  obtain ⟨s'', hrestored⟩ := hrestored hcodeless
  have hrefused := (protect_wellEscaped [] "\\\\\n\\n\\".toList {}).2.1.2 _ _ hmisescaped
  exact ⟨⟨hescaped, hcodeless, u, s', s'', hrun, hplain, hbraces, hagain, hrestored⟩, hmisescaped,
    hrefused⟩

end Bracemark
