import Bracemark.Proofs.Codes
import Mathlib.Data.List.Infix

/-!
# Masking

While patterns run, every known code is masked by one private use character, its sentinel. No code
is made by that: the characters of a code behind its first are neither at signs nor sentinels, so
they begin a masked text only if they begin the text itself (`Scheme.prefix_mask_iff`). The codes
that are left are those that are not known (`Scheme.codes_mask`).

Taking the masks off puts back the codes, and it makes codes of the sentinels that have been in the
text before (`Scheme.unmask_mask`). So masking loses nothing just if there have been none
(`mask_lossless`).
-/

namespace Bracemark

/-! ## Sentinels -/

/-- The characters U+10FF00 to U+10FF05, which mask the codes of documents. -/
def isSentinel (c : Char) : Bool := 0x10FF00 ≤ c.toNat && c.toNat ≤ 0x10FF05

namespace Text

/-- A text without sentinels. -/
def SentinelFree (t : Text) : Prop := ∀ c ∈ t, isSentinel c = false

instance {t : Text} : Decidable t.SentinelFree :=
  decidable_of_iff (t.any isSentinel = false) (by simp [SentinelFree])

end Text

theorem isSentinel_of_lt {c : Char} (h : c.toNat < 0x10FF00) : isSentinel c = false := by
  rw [isSentinel, decide_eq_false (by omega), Bool.false_and]

namespace Tag

variable {g g' : Tag}

theorem length_code (g : Tag) : g.code.length = 10 := rfl

theorem code_inj (h : g.code = g'.code) : g = g' := by
  obtain ⟨a, b⟩ := g
  obtain ⟨a', b'⟩ := g'
  simp only [code, List.append_cancel_left_eq, List.cons.injEq] at h
  rw [h.1, h.2.1]

theorem Formed.sentinelFree_inner (hg : g.Formed) : g.inner.SentinelFree := by
  intro c hc
  have := toNat_of_isInner (hg.isInner_of_mem hc)
  exact isSentinel_of_lt (by omega)

theorem Formed.sentinelFree_code (hg : g.Formed) : g.code.SentinelFree := by
  intro c hc
  rcases List.mem_cons.1 (g.code_eq ▸ hc) with rfl | hc
  · rfl
  · exact hg.sentinelFree_inner c hc

end Tag

namespace Scheme

variable {g : Tag} {c : Char} {t u rest : Text}

/-- The sentinels stand for the codes of the scheme, each for its own. -/
theorem isSome_sentinelTag? (c : Char) : (document.sentinelTag? c).isSome = isSentinel c := by
  unfold sentinelTag? isSentinel
  by_cases h : 0x10FF00 ≤ c.toNat
  · have hlength : document.tags.length = 6 := rfl
    rw [if_pos h, decide_eq_true h, Bool.true_and, Option.isSome_map, Bool.eq_iff_iff,
      Option.isSome_iff_ne_none, Ne, List.getElem?_eq_none_iff, hlength, decide_eq_true_iff]
    omega
  · rw [if_neg h, decide_eq_false h]
    rfl

theorem formed_of_mem {entry : Char × Tag} (h : entry ∈ document.tags) : entry.2.Formed := by
  have all : ∀ entry ∈ document.tags, Tag.mayBegin entry.2.first = true ∧
      Tag.mayEnd entry.2.second = true := by decide
  exact ⟨(all _ h).1, (all _ h).2⟩

/-- The tag that a sentinel stands for has this sentinel, and a code. -/
theorem sentinel_spec (h : document.sentinel? g = some c) :
    g.Formed ∧ document.sentinelTag? c = some g := by
  have all : ∀ entry ∈ document.tags,
      (document.sentinel? entry.2).bind document.sentinelTag? = some entry.2 := by decide
  obtain ⟨i, hi, -⟩ := Option.map_eq_some_iff.1 h
  obtain ⟨hlt, heq, -⟩ := List.findIdx?_eq_some_iff_getElem.1 hi
  rw [← of_decide_eq_true heq] at h ⊢
  have htag := all _ (List.getElem_mem hlt)
  rw [h, Option.bind_some] at htag
  exact ⟨formed_of_mem (List.getElem_mem hlt), htag⟩

theorem isSentinel_of_sentinel? (h : document.sentinel? g = some c) : isSentinel c = true := by
  rw [← isSome_sentinelTag?, (sentinel_spec h).2]
  rfl

/-! ## Masking -/

theorem mask_plain (h : ∀ g : Tag, g.Formed → ¬g.code <+: c :: rest) :
    document.mask (c :: rest) = c :: document.mask rest := by
  rw [mask, Chunk.ofText_plain h]
  rfl

theorem mask_code (hg : g.Formed) (rest : Text) : document.mask (g.code ++ rest) =
    document.maskChunk (.code g) ++ document.mask rest := by
  rw [mask, Chunk.ofText_code hg]
  rfl

/-- A code becomes its sentinel, or stays as it is. -/
theorem maskChunk_cases (g : Tag) :
    (∃ c, document.sentinel? g = some c ∧ document.maskChunk (.code g) = [c]) ∨
      document.sentinel? g = none ∧ document.maskChunk (.code g) = g.code := by
  cases hsentinel : document.sentinel? g with
  | some c => exact .inl ⟨c, rfl, by rw [maskChunk, hsentinel]⟩
  | none => exact .inr ⟨rfl, by rw [maskChunk, hsentinel]⟩

/-- Masking touches nothing that begins a text and is not of a code. -/
theorem prefix_mask_iff {w : Text} (hat : '@' ∉ w) (hw : w.SentinelFree) (t : Text) :
    w <+: document.mask t ↔ w <+: t := by
  induction w generalizing t with
  | nil => simp
  | cons x w ih =>
    obtain ⟨hx, hat⟩ := not_or.1 (mt List.mem_cons.2 hat)
    obtain ⟨hfree, hw⟩ := List.forall_mem_cons.1 hw
    induction t using Chunk.chunk_induction with
    | nil => rfl
    | plain c rest h _ => rw [mask_plain h, List.cons_prefix_cons, List.cons_prefix_cons, ih hat hw]
    | code g rest hg _ =>
      -- neither the code nor its sentinel begins like this
      have hcode (more : Text) : ¬x :: w <+: g.code ++ more := by
        rw [Tag.code_eq, List.cons_append, List.cons_prefix_cons]
        exact fun h => hx h.1.symm
      rw [mask_code hg]
      rcases maskChunk_cases g with ⟨c, hsentinel, hmask⟩ | ⟨-, hmask⟩
      · have hne : x ≠ c := by
          rintro rfl
          rw [isSentinel_of_sentinel? hsentinel] at hfree
          cases hfree
        rw [hmask, List.singleton_append, List.cons_prefix_cons]
        exact iff_of_false (fun h => hne h.1) (hcode rest)
      · rw [hmask]
        exact iff_of_false (hcode _) (hcode rest)

/-- Masking makes no code out of a character and what stands behind it. -/
theorem not_prefix_mask (h : ∀ g : Tag, g.Formed → ¬g.code <+: c :: rest) :
    ∀ g : Tag, g.Formed → ¬g.code <+: c :: document.mask rest := by
  intro g hg hprefix
  rw [Tag.code_eq, List.cons_prefix_cons,
    prefix_mask_iff hg.at_notMem_inner hg.sentinelFree_inner] at hprefix
  exact h g hg (List.cons_prefix_cons.2 hprefix)

/-- Exactly the codes that are not known are left in a masked text. -/
theorem codes_mask (t : Text) :
    (document.mask t).codes = t.codes.filter fun g => (document.sentinel? g).isNone := by
  induction t using Chunk.chunk_induction with
  | nil => rfl
  | plain c rest h ih =>
    rw [mask_plain h, Text.codes_plain (not_prefix_mask h), Text.codes_plain h, ih]
  | code g rest hg ih =>
    rw [mask_code hg, Text.codes_code hg]
    rcases maskChunk_cases g with ⟨c, hsentinel, hmask⟩ | ⟨hsentinel, hmask⟩
    · have hne : c ≠ '@' := by
        rintro rfl
        cases isSentinel_of_sentinel? hsentinel
      rw [hmask, List.singleton_append, Text.codes_cons_of_ne hne, ih,
        List.filter_cons_of_neg (by simp [hsentinel])]
    · rw [hmask, Text.codes_code hg, ih, List.filter_cons_of_pos (by simp [hsentinel])]

/-! ## Taking masks off -/

theorem unmask_append (t u : Text) :
    document.unmask (t ++ u) = document.unmask t ++ document.unmask u := List.flatMap_append

theorem unmask_cons (c : Char) (t : Text) : document.unmask (c :: t) =
    ((document.sentinelTag? c).elim [c] Tag.code) ++ document.unmask t := by
  rw [unmask, List.flatMap_cons]
  cases document.sentinelTag? c <;> rfl

theorem unmask_of_sentinelFree (h : t.SentinelFree) : document.unmask t = t := by
  induction t with
  | nil => rfl
  | cons c t ih =>
    obtain ⟨hc, ht⟩ := List.forall_mem_cons.1 h
    have hnone : document.sentinelTag? c = none := by
      rw [← Option.not_isSome_iff_eq_none, isSome_sentinelTag?, hc]
      exact Bool.false_ne_true
    rw [unmask_cons, hnone, ih ht]
    rfl

theorem length_unmask (t : Text) :
    (document.unmask t).length = t.length + 9 * t.countP isSentinel := by
  induction t with
  | nil => rfl
  | cons c t ih =>
    have hsome := isSome_sentinelTag? c
    rw [unmask_cons, List.length_append, List.length_cons, List.countP_cons, ih]
    cases htag : document.sentinelTag? c with
    | none =>
      rw [htag] at hsome
      rw [← hsome]
      simp only [Option.elim_none, List.length_singleton, Option.isSome_none, Bool.false_eq_true,
        if_false]
      omega
    | some g =>
      rw [htag] at hsome
      rw [← hsome]
      simp only [Option.elim_some, Tag.length_code, Option.isSome_some, if_true]
      omega

/-- Sentinels are all that taking masks off changes. -/
theorem unmask_eq_self_iff : document.unmask t = t ↔ t.SentinelFree := by
  refine ⟨fun h => ?_, unmask_of_sentinelFree⟩
  have hlength := length_unmask t
  rw [h] at hlength
  have hcount : t.countP isSentinel = 0 := by omega
  intro c hc
  exact Bool.eq_false_iff.2 (List.countP_eq_zero.1 hcount c hc)

/-- What has been masked is put back; the sentinels of the text itself become codes. -/
theorem unmask_mask (t : Text) : document.unmask (document.mask t) = document.unmask t := by
  induction t using Chunk.chunk_induction with
  | nil => rfl
  | plain c rest h ih => rw [mask_plain h, unmask_cons, unmask_cons, ih]
  | code g rest hg ih =>
    have hcode := unmask_of_sentinelFree hg.sentinelFree_code
    rw [mask_code hg, unmask_append, unmask_append, ih, hcode]
    rcases maskChunk_cases g with ⟨c, hsentinel, hmask⟩ | ⟨-, hmask⟩
    · rw [hmask, unmask_cons, (sentinel_spec hsentinel).2]
      exact congrArg (· ++ _) (List.append_nil _)
    · rw [hmask, hcode]

/-! ## Counting codes -/

/-- Whether a code of the scheme stands in front. -/
def startsCode (s : Scheme) (t : Text) : Bool :=
  s.tags.any fun entry => entry.2.code.isPrefixOf t

/-- At how many places of a text a code of the scheme stands. -/
def codeCount (s : Scheme) (t : Text) : Nat := t.tails.countP s.startsCode

theorem codeCount_cons (c : Char) (rest : Text) : document.codeCount (c :: rest) =
    document.codeCount rest + if document.startsCode (c :: rest) then 1 else 0 := by
  rw [codeCount, List.tails_cons, List.countP_cons]
  rfl

theorem startsCode_plain (h : ∀ g : Tag, g.Formed → ¬g.code <+: t) :
    document.startsCode t = false := by
  refine List.any_eq_false.2 fun entry hentry hprefix => ?_
  exact h _ (formed_of_mem hentry) (List.isPrefixOf_iff_prefix.1 hprefix)

/-- The code in front of a text is that of the scheme, or none of it is. -/
theorem startsCode_code (g : Tag) (rest : Text) :
    document.startsCode (g.code ++ rest) = (document.sentinel? g).isSome := by
  rw [sentinel?, Option.isSome_map, List.findIdx?_isSome]
  refine List.any_congr rfl fun entry => ?_
  rw [Bool.eq_iff_iff, List.isPrefixOf_iff_prefix, decide_eq_true_iff]
  constructor
  · intro hprefix
    have hcode := List.prefix_of_prefix_length_le hprefix (List.prefix_append g.code rest) le_rfl
    exact Tag.code_inj (hcode.eq_of_length rfl)
  · rintro rfl
    exact List.prefix_append ..

theorem codeCount_append (hu : '@' ∉ u) (rest : Text) :
    document.codeCount (u ++ rest) = document.codeCount rest := by
  induction u with
  | nil => rfl
  | cons c u ih =>
    obtain ⟨hc, hu⟩ := not_or.1 (mt List.mem_cons.2 hu)
    have hplain : document.startsCode (c :: (u ++ rest)) = false :=
      startsCode_plain fun g _ => g.not_prefix_of_ne (Ne.symm hc) _
    rw [List.cons_append, codeCount_cons, hplain, ih hu]
    rfl

/-- Of the places of a code, only the first counts. -/
theorem codeCount_code (hg : g.Formed) (rest : Text) : document.codeCount (g.code ++ rest) =
    document.codeCount rest + if (document.sentinel? g).isSome then 1 else 0 := by
  rw [← startsCode_code g rest, Tag.code_eq, List.cons_append, codeCount_cons,
    codeCount_append hg.at_notMem_inner]

/-- A code that is masked has ten characters, and its sentinel is one. -/
theorem length_mask (t : Text) :
    (document.mask t).length + 9 * document.codeCount t = t.length := by
  induction t using Chunk.chunk_induction with
  | nil => rfl
  | plain c rest h ih =>
    rw [mask_plain h, codeCount_cons, startsCode_plain h, List.length_cons, List.length_cons, ← ih]
    simp only [Bool.false_eq_true, if_false]
    omega
  | code g rest hg ih =>
    rw [mask_code hg, codeCount_code hg, List.length_append, List.length_append, ← ih,
      Tag.length_code]
    rcases maskChunk_cases g with ⟨c, hsentinel, hmask⟩ | ⟨hsentinel, hmask⟩
    · rw [hmask, hsentinel]
      simp only [List.length_singleton, Option.isSome_some, if_true]
      omega
    · rw [hmask, hsentinel, Tag.length_code]
      simp only [Option.isSome_none, Bool.false_eq_true, if_false]
      omega

end Scheme

/-- Masking loses nothing just if a text has no sentinels. A masked text has no code of the scheme,
and is shorter than the text by nine characters for each. So different texts without sentinels
are masked differently. -/
theorem mask_lossless (t : Text) :
    (Scheme.document.unmask (Scheme.document.mask t) = t ↔ t.SentinelFree) ∧
    (∀ entry ∈ Scheme.document.tags, ¬entry.2.code <:+: Scheme.document.mask t) ∧
    (Scheme.document.mask t).length + 9 * Scheme.document.codeCount t = t.length ∧
    ∀ u, t.SentinelFree → u.SentinelFree →
      Scheme.document.mask t = Scheme.document.mask u → t = u := by
  have hback : ∀ {t : Text}, t.SentinelFree →
      Scheme.document.unmask (Scheme.document.mask t) = t :=
    fun h => (Scheme.unmask_mask _).trans (Scheme.unmask_of_sentinelFree h)
  refine ⟨?_, fun entry hentry hinfix => ?_, Scheme.length_mask t, fun u ht hu h => ?_⟩
  · rw [Scheme.unmask_mask, Scheme.unmask_eq_self_iff]
  · have hmem := Text.mem_codes_iff.2 ⟨Scheme.formed_of_mem hentry, hinfix⟩
    rw [Scheme.codes_mask, List.mem_filter] at hmem
    have hknown : ∀ entry ∈ Scheme.document.tags,
        (Scheme.document.sentinel? entry.2).isNone = false := by decide
    rw [hknown entry hentry] at hmem
    cases hmem.2
  · rw [← hback ht, h, hback hu]

/-- A code between the halves of another one: once it is masked the halves meet at its sentinel, and
make no code. A sentinel that stands in a text is lost. -/
theorem mask_lossless_halves :
    Scheme.document.unmask (Scheme.document.mask "@#\x27:@#\x27:[;:LB][;:RB]".toList) =
      "@#\x27:@#\x27:[;:LB][;:RB]".toList ∧
    ¬"@#\x27:[;:RB]".toList <:+: Scheme.document.mask "@#\x27:@#\x27:[;:LB][;:RB]".toList ∧
    (Scheme.document.mask "@#\x27:@#\x27:[;:LB][;:RB]".toList).length = 11 ∧
    "@#\x27:@#\x27:[;:LB][;:RB]".toList =
      Scheme.document.unmask ("@#\x27:".toList ++ Char.ofNat 0x10FF00 :: "[;:RB]".toList) ∧
    Scheme.document.unmask (Scheme.document.mask [Char.ofNat 0x10FF00]) ≠
      [Char.ofNat 0x10FF00] := by
  have hfree : Text.SentinelFree "@#\x27:@#\x27:[;:LB][;:RB]".toList := by decide
  have hother : Text.SentinelFree
      (Scheme.document.unmask ("@#\x27:".toList ++ Char.ofNat 0x10FF00 :: "[;:RB]".toList)) := by
    decide
  have hsame : Scheme.document.mask "@#\x27:@#\x27:[;:LB][;:RB]".toList = Scheme.document.mask
      (Scheme.document.unmask ("@#\x27:".toList ++ Char.ofNat 0x10FF00 :: "[;:RB]".toList)) := by
    decide
  have hcount : Scheme.document.codeCount "@#\x27:@#\x27:[;:LB][;:RB]".toList = 1 := by decide
  have hsentinel : ¬Text.SentinelFree [Char.ofNat 0x10FF00] := by decide
  obtain ⟨hback, hcodes, hlength, hinjective⟩ :=
    mask_lossless "@#\x27:@#\x27:[;:LB][;:RB]".toList
  rw [hcount] at hlength
  exact ⟨hback.2 hfree, hcodes ('\x7d', ⟨'R', 'B'⟩) (by decide),
    Nat.add_right_cancel (hlength.trans (by decide)), hinjective _ hfree hother hsame,
    mt (mask_lossless _).1.1 hsentinel⟩

end Bracemark
