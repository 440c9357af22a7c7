import Bracemark.Proofs.Protection

/-!
# Codes in a text

A code stands wherever its ten characters stand one behind the other (`Chunk.mem_ofText_iff`): no
code begins inside another, and a character that no code holds behind its first one is a place where
a text can be cut (`Chunk.ofText_append_cons`).

No code holds a blank. So collapsing the blanks of a text neither makes a code nor breaks one, and
it does not matter whether blanks are collapsed before or after the protection is taken off
(`Scheme.deprotect_collapse`). A code that the scheme does not know is an exception: it is dropped,
and the blanks on its two sides meet.
-/

namespace Bracemark

namespace Tag

/-- A tag whose code is read as one. -/
structure Formed (g : Tag) : Prop where
  first : mayBegin g.first = true
  second : mayEnd g.second = true

/-- The characters of a code behind the first. -/
def inner (g : Tag) : Text := ['#', '\x27', ':', '[', ';', ':', g.first, g.second, ']']

theorem code_eq (g : Tag) : g.code = '@' :: g.inner := rfl

/-- The characters that codes hold behind their first one. -/
def isInner (c : Char) : Bool := c ∈ ['#', '\x27', ':', '[', ';', ']'] || mayEnd c

variable {g : Tag}

theorem Formed.isInner_of_mem (hg : g.Formed) {c : Char} (hc : c ∈ g.inner) :
    isInner c = true := by
  have hfirst : mayEnd g.first = true := by
    have hupper : g.first.isUpper = true := hg.first
    simp [mayEnd, hupper]
  simp only [inner, List.mem_cons, List.not_mem_nil, or_false] at hc
  rcases hc with rfl | rfl | rfl | rfl | rfl | rfl | rfl | rfl | rfl
  case inr.inr.inr.inr.inr.inr.inl => simp [isInner, hfirst]
  case inr.inr.inr.inr.inr.inr.inr.inl => simp [isInner, hg.second]
  all_goals decide

theorem toNat_of_isInner {c : Char} (h : isInner c = true) :
    0x23 ≤ c.toNat ∧ c.toNat ≤ 0x5F := by
  simp only [isInner, Bool.or_eq_true, decide_eq_true_eq, List.mem_cons, List.not_mem_nil,
    or_false] at h
  rcases h with (rfl | rfl | rfl | rfl | rfl | rfl) | h
  case inr =>
    have hupper : c.isUpper = decide (c.val ≥ 'A'.val ∧ c.val ≤ 'Z'.val) := rfl
    simp only [mayEnd, hupper, Char.isDigit, Bool.or_eq_true, Bool.and_eq_true,
      decide_eq_true_eq, UInt32.le_iff_toNat_le, ge_iff_le] at h
    have : c.toNat = c.val.toNat := rfl
    have : 'A'.val.toNat = 0x41 := rfl
    have : 'Z'.val.toNat = 0x5A := rfl
    have : '0'.val.toNat = 0x30 := rfl
    have : '9'.val.toNat = 0x39 := rfl
    rcases h with (h | h) | rfl
    · omega
    · omega
    · decide
  all_goals decide

theorem Formed.at_notMem_inner (hg : g.Formed) : '@' ∉ g.inner :=
  fun h => absurd (hg.isInner_of_mem h) (by decide)

theorem not_prefix_of_ne {c : Char} (hc : c ≠ '@') (g : Tag) (rest : Text) :
    ¬g.code <+: c :: rest := by
  rw [code_eq, List.cons_prefix_cons]
  exact fun h => hc h.1.symm

theorem Formed.isBlank_of_mem (hg : g.Formed) {c : Char} (hc : c ∈ g.code) :
    isBlank c = false := by
  rw [code_eq] at hc
  rcases List.mem_cons.1 hc with rfl | hc
  · rfl
  · have := toNat_of_isInner (hg.isInner_of_mem hc)
    exact isBlank_of_ascii (by omega) (by omega)

end Tag

namespace Chunk

variable {c : Char} {rest : Text} {g : Tag}

/-- What stands at one place is a code that is written there, or a character. -/
theorem step_cases (c : Char) (rest : Text) :
    (∃ (g : Tag) (more : Text), g.Formed ∧ c :: rest = g.code ++ more) ∨
      step c rest = (.plain c, 0) := by
  unfold step
  split
  · rename_i a b more
    split
    · rename_i htag
      rw [Bool.and_eq_true] at htag
      exact .inl ⟨⟨a, b⟩, more, ⟨htag.1, htag.2⟩, rfl⟩
    · exact .inr rfl
  · exact .inr rfl

theorem ofText_code (hg : g.Formed) (rest : Text) :
    ofText (g.code ++ rest) = .code g :: ofText rest :=
  cuts_code hg.first hg.second rest

theorem ofText_plain (h : ∀ g : Tag, g.Formed → ¬g.code <+: c :: rest) :
    ofText (c :: rest) = .plain c :: ofText rest := by
  rcases step_cases c rest with ⟨g, more, hg, hsplit⟩ | hstep
  · exact absurd ⟨more, hsplit.symm⟩ (h g hg)
  · rw [ofText, segment_zero_cons, hstep]
    rfl

/-- Induction along the chunks of a text. -/
@[elab_as_elim]
theorem chunk_induction {motive : Text → Prop} (nil : motive [])
    (plain : ∀ c rest, (∀ g : Tag, g.Formed → ¬g.code <+: c :: rest) → motive rest →
      motive (c :: rest))
    (code : ∀ (g : Tag) (rest : Text), g.Formed → motive rest → motive (g.code ++ rest))
    (t : Text) : motive t := by
  induction t using suffix_induction with
  | nil => exact nil
  | cons c rest ih =>
    by_cases h : ∃ g : Tag, g.Formed ∧ g.code <+: c :: rest
    · obtain ⟨g, hg, more, hsplit⟩ := h
      have hne : g.code ≠ [] := by
        rw [Tag.code_eq]
        exact List.cons_ne_nil _ _
      rw [← hsplit]
      exact code g more hg (ih more (suffix_of_append_eq_cons hne hsplit))
    · refine plain c rest ?_ (ih rest List.suffix_rfl)
      intro g hg hprefix
      exact h ⟨g, hg, hprefix⟩

/-- A text falls into chunks part by part if no code goes on across the cut. -/
theorem ofText_append_cons {b : Char} (hb : Tag.isInner b = false) (u v : Text) :
    ofText (u ++ b :: v) = ofText u ++ ofText (b :: v) := by
  induction u using chunk_induction with
  | nil => rfl
  | plain c rest h ih =>
    have hplain : ∀ g : Tag, g.Formed → ¬g.code <+: c :: (rest ++ b :: v) := by
      rintro g hg ⟨more, hsplit⟩
      rcases List.append_eq_append_iff.1
        (show g.code ++ more = (c :: rest) ++ b :: v from hsplit) with
        ⟨tail, hcode, -⟩ | ⟨tail, hcode, hmore⟩
      · exact h g hg ⟨tail, hcode.symm⟩
      · cases tail with
        | nil => exact h g hg ⟨[], by rw [hcode, List.append_nil, List.append_nil]⟩
        | cons x tail =>
          have hx : b = x := (List.cons.inj hmore).1
          have hinner : g.inner = rest ++ x :: tail := (List.cons.inj hcode).2
          have hmem : b ∈ g.inner := by simp [hinner, hx]
          rw [hg.isInner_of_mem hmem] at hb
          cases hb
    rw [List.cons_append, ofText_plain hplain, ofText_plain h, ih, List.cons_append]
  | code g rest hg ih =>
    rw [List.append_assoc, ofText_code hg, ofText_code hg, ih, List.cons_append]

/-- The codes that are read in a text are those that are written in it. -/
theorem mem_ofText_iff {t : Text} : .code g ∈ ofText t ↔ g.Formed ∧ g.code <:+: t := by
  constructor
  · intro hmem
    induction t using chunk_induction with
    | nil => cases hmem
    | plain c rest h ih =>
      rw [ofText_plain h, List.mem_cons] at hmem
      obtain ⟨hg, hwritten⟩ := ih (hmem.resolve_left nofun)
      exact ⟨hg, hwritten.trans (List.suffix_cons c rest).isInfix⟩
    | code g' rest hg' ih =>
      rw [ofText_code hg', List.mem_cons, Chunk.code.injEq] at hmem
      rcases hmem with rfl | hmem
      · exact ⟨hg', (List.prefix_append _ _).isInfix⟩
      · obtain ⟨hg, hwritten⟩ := ih hmem
        exact ⟨hg, hwritten.trans (List.suffix_append _ _).isInfix⟩
  · rintro ⟨hg, u, v, rfl⟩
    have hcut := ofText_append_cons (b := '@') rfl u (g.inner ++ v)
    rw [List.append_assoc, Tag.code_eq, List.cons_append, hcut, ← List.cons_append, ← Tag.code_eq,
      ofText_code hg]
    simp

/-- The tag of a chunk that is a code. -/
def tag? : Chunk → Option Tag
  | .plain _ => none
  | .code g => some g

theorem filterMap_tag?_plain (u : Text) : (u.map Chunk.plain).filterMap tag? = [] := by
  rw [List.filterMap_map]
  exact List.filterMap_eq_nil_iff.2 fun _ _ => rfl

end Chunk

/-- The tags of the codes of a text, known and unknown, in order. -/
def Text.codes (t : Text) : List Tag := (Chunk.ofText t).filterMap Chunk.tag?

namespace Text

variable {c : Char} {rest : Text} {g : Tag}

theorem codes_plain (h : ∀ g : Tag, g.Formed → ¬g.code <+: c :: rest) :
    codes (c :: rest) = codes rest := by
  rw [codes, Chunk.ofText_plain h]
  rfl

theorem codes_code (hg : g.Formed) (rest : Text) : codes (g.code ++ rest) = g :: codes rest := by
  rw [codes, Chunk.ofText_code hg]
  rfl

theorem codes_cons_of_ne (hc : c ≠ '@') (rest : Text) : codes (c :: rest) = codes rest :=
  codes_plain fun g _ => g.not_prefix_of_ne hc rest

theorem codes_of_notMem {t : Text} (h : '@' ∉ t) : codes t = [] := by
  rw [codes, Chunk.ofText, (Chunk.cuts_of_notMem h).segment_eq, Chunk.filterMap_tag?_plain]

/-- The codes of a text are those that are written in it. -/
theorem mem_codes_iff {t : Text} : g ∈ t.codes ↔ g.Formed ∧ g.code <:+: t := by
  rw [← Chunk.mem_ofText_iff, codes, List.mem_filterMap]
  constructor
  · rintro ⟨k, hk, htag⟩
    cases k with
    | plain c => cases htag
    | code g' =>
      cases htag
      exact hk
  · exact fun h => ⟨_, h, rfl⟩

end Text

/-! ## Known codes -/

/-- A text in which every code is known to the document scheme. -/
def Text.Familiar (t : Text) : Prop :=
  ∀ g : Tag, g.Formed → g.code <:+: t → (Scheme.document.character? g).isSome

namespace Text

variable {t u : Text}

theorem unknownTags_eq_nil_iff : Scheme.document.unknownTags t = [] ↔ t.Familiar := by
  rw [Scheme.unknownTags, List.filterMap_eq_nil_iff]
  constructor
  · intro h g hg hwritten
    have hnone := h _ (Chunk.mem_ofText_iff.2 ⟨hg, hwritten⟩)
    simpa [Option.isSome_iff_ne_none] using hnone
  · intro h k hk
    cases k with
    | plain c => rfl
    | code g =>
      obtain ⟨hg, hwritten⟩ := Chunk.mem_ofText_iff.1 hk
      exact if_pos (h g hg hwritten)

instance : Decidable t.Familiar := decidable_of_iff _ unknownTags_eq_nil_iff

/-- Every part of a text with known codes only is one. -/
theorem Familiar.of_infix (h : t.Familiar) (hu : u <:+: t) : u.Familiar :=
  fun g hg hwritten => h g hg (hwritten.trans hu)

end Text

namespace Scheme

variable {s : Scheme} {c : Char} {rest : Text} {g : Tag}

theorem unknownTags_eq_filter (s : Scheme) (t : Text) :
    s.unknownTags t = t.codes.filter fun g => (s.character? g).isNone := by
  unfold unknownTags Text.codes
  induction Chunk.ofText t with
  | nil => rfl
  | cons k ks ih =>
    cases k with
    | plain c => exact ih
    | code g =>
      rw [List.filterMap_cons, ih]
      cases hknown : s.character? g <;> simp [Chunk.tag?, hknown]

theorem unknownTags_plain (h : ∀ g : Tag, g.Formed → ¬g.code <+: c :: rest) :
    s.unknownTags (c :: rest) = s.unknownTags rest := by
  rw [unknownTags_eq_filter, unknownTags_eq_filter, Text.codes_plain h]

theorem unknownTags_of_notMem {t : Text} (h : '@' ∉ t) : s.unknownTags t = [] := by
  rw [unknownTags_eq_filter, Text.codes_of_notMem h]
  rfl

theorem unknownTags_code (hg : g.Formed) (rest : Text) : s.unknownTags (g.code ++ rest) =
    (if (s.character? g).isSome then [] else [g]) ++ s.unknownTags rest := by
  rw [unknownTags_eq_filter, unknownTags_eq_filter, Text.codes_code hg, List.filter_cons]
  cases s.character? g <;> rfl

theorem deprotect_plain (h : ∀ g : Tag, g.Formed → ¬g.code <+: c :: rest) :
    s.deprotect (c :: rest) = c :: s.deprotect rest := by
  rw [deprotect, Chunk.ofText_plain h]
  rfl

theorem deprotect_code (hg : g.Formed) (rest : Text) :
    s.deprotect (g.code ++ rest) = (s.character? g).toList ++ s.deprotect rest := by
  rw [deprotect, Chunk.ofText_code hg]
  rfl

end Scheme

/-! ## Collapsing blanks -/

namespace Text

/-- Whether a text begins with a blank. -/
def startsBlank (t : Text) : Bool := t.head?.any isBlank

/-- A blank in front of a text shows only if the text does not begin with one itself. -/
theorem collapse_cons_blank {c : Char} (hc : isBlank c = true) (t : Text) :
    collapse (c :: t) = if t.startsBlank then t.collapse else ' ' :: t.collapse := by
  rw [collapse_blank hc]
  cases t with
  | nil => rfl
  | cons x t =>
    cases hx : isBlank x with
    | true =>
      rw [if_pos (show startsBlank (x :: t) = true from hx), collapse_blank hx,
        List.dropWhile_cons_of_pos hx]
    | false =>
      have hne : isBlank x ≠ true := Bool.eq_false_iff.1 hx
      rw [if_neg (show ¬startsBlank (x :: t) = true from hne), List.dropWhile_cons_of_neg hne]

/-- Collapsing leaves the characters in front of the first blank alone. -/
theorem prefix_collapse_iff {w : Text} (hw : ∀ x ∈ w, isBlank x = false) (t : Text) :
    w <+: t.collapse ↔ w <+: t := by
  induction w generalizing t with
  | nil => simp
  | cons x w ih =>
    have hx := hw x List.mem_cons_self
    have hmore := ih fun y hy => hw y (List.mem_cons_of_mem x hy)
    cases t with
    | nil => rfl
    | cons c t =>
      by_cases hc : isBlank c = true
      · have hne : x ≠ c := by
          rintro rfl
          rw [hx] at hc
          cases hc
        have hspace : x ≠ ' ' := by
          rintro rfl
          cases hx
        simp [collapse_blank hc, List.cons_prefix_cons, hne, hspace]
      · rw [collapse_cons (Bool.eq_false_iff.2 hc), List.cons_prefix_cons, List.cons_prefix_cons,
          hmore]

/-- Collapsing makes no code out of a character and what stands behind it. -/
theorem not_prefix_collapse {c : Char} {rest : Text} (hc : isBlank c = false)
    (h : ∀ g : Tag, g.Formed → ¬g.code <+: c :: rest) :
    ∀ g : Tag, g.Formed → ¬g.code <+: c :: collapse rest := by
  intro g hg hprefix
  rw [← collapse_cons hc, prefix_collapse_iff fun x hx => hg.isBlank_of_mem hx] at hprefix
  exact h g hg hprefix

/-- Collapsing keeps the codes. -/
theorem codes_collapse (t : Text) : t.collapse.codes = t.codes := by
  induction t using Chunk.chunk_induction with
  | nil => rfl
  | plain c rest h ih =>
    rw [codes_plain h]
    by_cases hc : isBlank c = true
    · rw [collapse_cons_blank hc]
      split
      · exact ih
      · rw [codes_cons_of_ne (by decide), ih]
    · have hc := Bool.eq_false_iff.2 hc
      rw [collapse_cons hc, codes_plain (not_prefix_collapse hc h), ih]
  | code g rest hg ih =>
    rw [collapse_append fun x hx => hg.isBlank_of_mem hx, codes_code hg, codes_code hg, ih]

end Text

namespace Scheme

variable {s : Scheme} {t : Text}

theorem unknownTags_collapse (s : Scheme) (t : Text) :
    s.unknownTags t.collapse = s.unknownTags t := by
  rw [unknownTags_eq_filter, Text.codes_collapse, ← unknownTags_eq_filter]

/-- No blank can be escaped. -/
theorem isBlank_of_character? {g : Tag} {c : Char} (h : document.character? g = some c) :
    isBlank c = false := by
  rw [character?, Option.map_eq_some_iff] at h
  obtain ⟨entry, hentry, rfl⟩ := h
  have hall : ∀ entry ∈ document.tags, isBlank entry.1 = false := by
    decide
  exact hall entry (List.mem_of_find?_eq_some hentry)

/-- Where all codes are known, a blank comes first just if one did before. -/
theorem startsBlank_deprotect (h : document.unknownTags t = []) :
    (document.deprotect t).startsBlank = t.startsBlank := by
  induction t using Chunk.chunk_induction with
  | nil => rfl
  | plain c rest hplain _ =>
    rw [deprotect_plain hplain]
    rfl
  | code g rest hg _ =>
    rw [unknownTags_code hg, List.append_eq_nil_iff] at h
    cases hcharacter : document.character? g with
    | none => simp [hcharacter] at h
    | some c =>
      rw [deprotect_code hg, hcharacter]
      exact isBlank_of_character? hcharacter

/-- Where all codes are known, blanks are collapsed alike before and after the protection is taken
off. -/
theorem deprotect_collapse (h : document.unknownTags t = []) :
    document.deprotect t.collapse = (document.deprotect t).collapse := by
  induction t using Chunk.chunk_induction with
  | nil => rfl
  | plain c rest hplain ih =>
    rw [unknownTags_plain hplain] at h
    rw [deprotect_plain hplain]
    by_cases hc : isBlank c = true
    · rw [Text.collapse_cons_blank hc, Text.collapse_cons_blank hc, startsBlank_deprotect h]
      split
      · exact ih h
      · rw [deprotect_plain fun g _ => g.not_prefix_of_ne (by decide) _, ih h]
    · have hc := Bool.eq_false_iff.2 hc
      rw [Text.collapse_cons hc, Text.collapse_cons hc,
        deprotect_plain (Text.not_prefix_collapse hc hplain), ih h]
  | code g rest hg ih =>
    rw [unknownTags_code hg, List.append_eq_nil_iff] at h
    have hknown : ∀ x ∈ (document.character? g).toList, isBlank x = false := by
      intro x hx
      exact isBlank_of_character? (Option.mem_toList.1 hx)
    rw [Text.collapse_append (fun x hx => hg.isBlank_of_mem hx), deprotect_code hg,
      deprotect_code hg, Text.collapse_append hknown, ih h.2]

end Scheme

end Bracemark
