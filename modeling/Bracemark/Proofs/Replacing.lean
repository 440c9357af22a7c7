import Bracemark.Proofs.Boundaries
import Bracemark.Proofs.Escapes
import Bracemark.Proofs.Literals
import Bracemark.Proofs.Masking
import Bracemark.Proofs.Passes

/-!
# Replacing words in what a reader sees

Substitutions run on a masked buffer. Where every at sign begins a known code, the masked buffer has
one character for each that a reader sees: itself, or the sentinel of a character that is escaped
(`Scheme.deprotect_unmask`). No word of letters and digits has a character of the second sort, so
replacing words in the masked buffer is replacing them in the buffer with its protection taken
off (`Scheme.map_reveal_replaceWords`), and the codes stay, whatever letters are in them.

The stage of replacements first removes its directives, each of which leaves the pattern that is its
word waiting (`Stretch.resolve_replacements`), and then runs them in order (`replacements_literal`).
-/

namespace Bracemark

/-- The text with several words replaced, one after the other. -/
def Text.replaceWords (pairs : List (Text × Text)) (t : Text) : Text :=
  pairs.foldl (fun t p => replaceWord p.1 p.2 t) t

/-- A text in which every at sign begins a code of documents. -/
def Text.Marked (t : Text) : Prop :=
  ∀ s, s <:+ t → '@' ∈ s.head? → Scheme.document.startsCode s = true

instance {t : Text} : Decidable t.Marked :=
  decidable_of_iff (∀ s ∈ t.tails, '@' ∈ s.head? → Scheme.document.startsCode s = true)
    ⟨fun h s hs => h s ((List.mem_tails s t).2 hs), fun h s hs => h s ((List.mem_tails s t).1 hs)⟩

/-- Words of letters and digits, none of them empty, each with another to put in its place. -/
def WordPairs (pairs : List (Text × Text)) : Prop :=
  ∀ p ∈ pairs, p.1 ≠ [] ∧ ∀ c ∈ p.1 ++ p.2, c.isAlphanum = true

instance {pairs : List (Text × Text)} : Decidable (WordPairs pairs) :=
  decidable_of_iff (∀ p ∈ pairs, p.1 ≠ [] ∧ (p.1 ++ p.2).all Char.isAlphanum = true)
    (by simp only [WordPairs, List.all_eq_true])

/-! ## Letters and digits -/

theorem notMem_of_alphanum {w : Text} (hw : ∀ c ∈ w, c.isAlphanum = true) {c : Char}
    (hc : c.isAlphanum = false) : c ∉ w := by
  intro h
  rw [hw c h] at hc
  cases hc

theorem nested_of_alphanum {w : Text} (hw : ∀ c ∈ w, c.isAlphanum = true) : w.Nested := by
  refine .of_noBrace fun c hc => ?_
  cases hbrace : isBrace c with
  | false => rfl
  | true =>
    rcases eq_of_isBrace hbrace with rfl | rfl
    · exact absurd hc (notMem_of_alphanum hw rfl)
    · exact absurd hc (notMem_of_alphanum hw rfl)

theorem isSentinel_of_alphanum {c : Char} (h : c.isAlphanum = true) : isSentinel c = false := by
  refine isSentinel_of_lt ?_
  have hletter : c.isAlphanum = (decide (c.val ≥ 'A'.val ∧ c.val ≤ 'Z'.val) ||
      (decide (c.val ≥ 'a'.val) && decide (c.val ≤ 'z'.val)) || c.isDigit) := rfl
  simp only [hletter, Char.isDigit, Bool.or_eq_true, Bool.and_eq_true, decide_eq_true_eq,
    UInt32.le_iff_toNat_le, ge_iff_le] at h
  have : c.toNat = c.val.toNat := rfl
  have : 'Z'.val.toNat = 0x5A := rfl
  have : 'z'.val.toNat = 0x7A := rfl
  have : '9'.val.toNat = 0x39 := rfl
  omega

theorem ordinary_of_alphanum {w : Text} (hw : ∀ c ∈ w, c.isAlphanum = true) :
    Pattern.Ordinary w := by
  have hspecial : Pattern.special.any Char.isAlphanum = false := by decide
  intro c hc hmem
  exact List.any_eq_false.1 hspecial c hmem (hw c hc)

/-- The characters of markup that replacing words must leave alone are not of a word, nor of a
code. -/
theorem apart_of_mem {c : Char} (h : c ∈ ['\x7b', '\x7d', '\\']) : c.isAlphanum = false ∧
    Tag.isInner c = false ∧ c ≠ '@' ∧ isSentinel c = false := by
  simp only [List.mem_cons, List.not_mem_nil, or_false] at h
  rcases h with rfl | rfl | rfl <;> decide

/-! ## What a sentinel stands for -/

namespace Scheme

/-- The character that a reader sees: for a sentinel, the one that is escaped. -/
def reveal (c : Char) : Char := ((document.sentinelTag? c).bind document.character?).getD c

variable {c : Char} {g : Tag} {m t : Text}

/-- A sentinel stands for a code, and for a character that is no letter and no digit. -/
theorem reveal_spec (h : document.sentinelTag? c = some g) :
    g.Formed ∧ document.character? g = some (reveal c) ∧ (reveal c).isAlphanum = false := by
  have all : ∀ entry ∈ document.tags, document.character? entry.2 = some entry.1 ∧
      entry.1.isAlphanum = false := by decide
  have htag : ∃ entry ∈ document.tags, entry.2 = g := by
    unfold sentinelTag? at h
    split at h
    · obtain ⟨entry, hentry, rfl⟩ := Option.map_eq_some_iff.1 h
      exact ⟨entry, List.mem_of_getElem? hentry, rfl⟩
    · cases h
  obtain ⟨entry, hentry, rfl⟩ := htag
  obtain ⟨hcharacter, halphanum⟩ := all entry hentry
  have hreveal : reveal c = entry.1 := by
    rw [reveal, h, Option.bind_some, hcharacter, Option.getD_some]
  rw [hreveal]
  exact ⟨formed_of_mem hentry, hcharacter, halphanum⟩

theorem reveal_of_none (h : document.sentinelTag? c = none) : reveal c = c := by
  rw [reveal, h]
  rfl

theorem sentinelTag?_of_alphanum (h : c.isAlphanum = true) : document.sentinelTag? c = none := by
  rw [← Option.not_isSome_iff_eq_none, isSome_sentinelTag?, isSentinel_of_alphanum h]
  exact Bool.false_ne_true

/-- Letters and digits are seen as they are, and nothing else is seen as one. -/
theorem reveal_eq_iff {x : Char} (hx : x.isAlphanum = true) (c : Char) : reveal c = x ↔ c = x := by
  cases hc : document.sentinelTag? c with
  | none => rw [reveal_of_none hc]
  | some g =>
    refine iff_of_false ?_ ?_
    · rintro rfl
      rw [(reveal_spec hc).2.2] at hx
      cases hx
    · rintro rfl
      rw [sentinelTag?_of_alphanum hx] at hc
      cases hc

/-! ## Masked texts without at signs -/

/-- If every at sign begins a code, none is left when the codes are masked. -/
theorem notMem_mask (h : t.Marked) : '@' ∉ document.mask t := by
  induction t using Chunk.chunk_induction with
  | nil => exact List.not_mem_nil
  | plain c rest hplain ih =>
    have hc : '@' ≠ c := by
      rintro rfl
      have hstarts := h _ List.suffix_rfl rfl
      rw [startsCode_plain hplain] at hstarts
      cases hstarts
    have hrest := ih fun s hs => h s (hs.trans (List.suffix_cons c rest))
    rw [mask_plain hplain, List.mem_cons, not_or]
    exact ⟨hc, hrest⟩
  | code g rest hg ih =>
    have hstarts := h _ List.suffix_rfl rfl
    have hrest := ih fun s hs => h s (hs.trans (List.suffix_append g.code rest))
    rw [startsCode_code] at hstarts
    rw [mask_code hg, List.mem_append, not_or]
    refine ⟨?_, hrest⟩
    rcases maskChunk_cases g with ⟨c, hsentinel, hmask⟩ | ⟨hnone, -⟩
    · rw [hmask, List.mem_singleton]
      rintro rfl
      cases isSentinel_of_sentinel? hsentinel
    · rw [hnone] at hstarts
      cases hstarts

/-- A reader sees one character for each of a masked text without at signs. -/
theorem deprotect_unmask (h : '@' ∉ m) : document.deprotect (document.unmask m) = m.map reveal := by
  induction m with
  | nil => rfl
  | cons c m ih =>
    obtain ⟨hc, hm⟩ := not_or.1 (mt List.mem_cons.2 h)
    rw [unmask_cons, List.map_cons, ← ih hm]
    cases htag : document.sentinelTag? c with
    | none =>
      rw [reveal_of_none htag]
      exact deprotect_plain fun g _ => g.not_prefix_of_ne (Ne.symm hc) _
    | some g =>
      obtain ⟨hg, hcharacter, -⟩ := reveal_spec htag
      rw [Option.elim_some, deprotect_code hg, hcharacter]
      rfl

/-- The codes behind a masked text without at signs are those that its sentinels stand for. -/
theorem codes_unmask (h : '@' ∉ m) :
    (document.unmask m).codes = m.filterMap document.sentinelTag? := by
  induction m with
  | nil => rfl
  | cons c m ih =>
    obtain ⟨hc, hm⟩ := not_or.1 (mt List.mem_cons.2 h)
    rw [unmask_cons, List.filterMap_cons, ← ih hm]
    cases htag : document.sentinelTag? c with
    | none => exact Text.codes_cons_of_ne (Ne.symm hc) _
    | some g => exact Text.codes_code (reveal_spec htag).1 _

/-- Taking masks off puts in nothing that is in no code. -/
theorem count_unmask {x : Char} (hx : Tag.isInner x = false) (hat : x ≠ '@')
    (hsentinel : isSentinel x = false) (m : Text) : (document.unmask m).count x = m.count x := by
  induction m with
  | nil => rfl
  | cons c m ih =>
    rw [unmask_cons, List.count_append, ih, List.count_cons, Nat.add_comm]
    congr 1
    cases htag : document.sentinelTag? c with
    | none => rw [Option.elim_none, List.count_singleton]
    | some g =>
      have hcode : x ∉ g.code := by
        rw [Tag.code_eq, List.mem_cons, not_or]
        refine ⟨hat, fun h => ?_⟩
        rw [(reveal_spec htag).1.isInner_of_mem h] at hx
        cases hx
      have hne : (c == x) = false := by
        refine beq_false_of_ne ?_
        rintro rfl
        rw [← isSome_sentinelTag?, htag] at hsentinel
        cases hsentinel
      rw [Option.elim_some, List.count_eq_zero_of_not_mem hcode, hne]
      rfl

/-! ## Replacing words in masked texts -/

variable {pairs : List (Text × Text)}

/-- Words are replaced in what a reader sees as they are in the masked text. -/
theorem map_reveal_replaceWords (h : WordPairs pairs) (m : Text) :
    (Text.replaceWords pairs m).map reveal = Text.replaceWords pairs (m.map reveal) := by
  unfold Text.replaceWords
  induction pairs generalizing m with
  | nil => rfl
  | cons p pairs ih =>
    obtain ⟨⟨hne, hchars⟩, hpairs⟩ := List.forall_mem_cons.1 h
    obtain ⟨hword, hnew⟩ := List.forall_mem_append.1 hchars
    have hseen : p.2.map reveal = p.2 :=
      (List.map_congr_left fun x hx => (reveal_eq_iff (hnew x hx) x).2 rfl).trans (List.map_id _)
    rw [List.foldl_cons, List.foldl_cons, ih hpairs,
      Text.map_replaceWord hne (fun x hx => reveal_eq_iff (hword x hx)) hseen]

/-- What replacing words of letters and digits leaves alone. -/
structure Alters (m m' : Text) : Prop where
  at_notMem : '@' ∉ m → '@' ∉ m'
  sentinels : m'.filterMap document.sentinelTag? = m.filterMap document.sentinelTag?
  count : ∀ c ∈ ['\x7b', '\x7d', '\\'], m'.count c = m.count c

theorem Alters.replaceWord {w r : Text} (hw : w ≠ []) (h : ∀ c ∈ w ++ r, c.isAlphanum = true)
    (m : Text) : Alters m (Text.replaceWord w r m) where
  at_notMem hm hmem := by
    rcases Text.mem_or_of_mem_replaceWord hw hmem with hmem | hmem
    · exact notMem_of_alphanum (List.forall_mem_append.1 h).2 rfl hmem
    · exact hm hmem
  sentinels := Text.filterMap_replaceWord hw (fun x hx => sentinelTag?_of_alphanum (h x hx)) m
  count c hc := Text.count_replaceWord hw (notMem_of_alphanum h (apart_of_mem hc).1) m

theorem Alters.replaceWords (h : WordPairs pairs) (m : Text) :
    Alters m (Text.replaceWords pairs m) := by
  refine List.foldlRecOn pairs _ ⟨id, rfl, fun _ _ => rfl⟩ fun m' hm' p hp => ?_
  have hstep := Alters.replaceWord (h p hp).1 (h p hp).2 m'
  exact ⟨fun hm => hstep.at_notMem (hm'.at_notMem hm), hstep.sentinels.trans hm'.sentinels,
    fun c hc => (hstep.count c hc).trans (hm'.count c hc)⟩

/-- Words are replaced in a text as a reader sees it, whatever the codes are spelled like. -/
theorem replaceWords_spec {b : Text} (hplain : '\\' ∉ b) (hmarked : b.Marked)
    (hfree : b.SentinelFree) (h : WordPairs pairs) {u : Text}
    (hu : u = document.unmask (Text.replaceWords pairs (document.mask b))) :
    document.deprotect u = Text.replaceWords pairs (document.deprotect b) ∧ u.codes = b.codes ∧
      u.braces = b.braces ∧ '\\' ∉ u := by
  have hback : document.unmask (document.mask b) = b :=
    (unmask_mask b).trans (unmask_of_sentinelFree hfree)
  have hmask := notMem_mask hmarked
  have halters := Alters.replaceWords h (document.mask b)
  have hcount : ∀ c ∈ ['\x7b', '\x7d', '\\'], u.count c = b.count c := by
    intro c hc
    obtain ⟨-, hinner, hat, hsentinel⟩ := apart_of_mem hc
    calc u.count c = (Text.replaceWords pairs (document.mask b)).count c := by
          rw [hu, count_unmask hinner hat hsentinel]
      _ = (document.mask b).count c := halters.count c hc
      _ = b.count c := by rw [← count_unmask hinner hat hsentinel, hback]
  refine ⟨?_, ?_, ?_, ?_⟩
  · rw [hu, deprotect_unmask (halters.at_notMem hmask), map_reveal_replaceWords h,
      ← deprotect_unmask hmask, hback]
  · rw [hu, codes_unmask (halters.at_notMem hmask), halters.sentinels, ← codes_unmask hmask, hback]
  · rw [Text.braces, Text.braces, hcount _ (by decide), hcount _ (by decide)]
  · rw [← List.count_eq_zero, hcount _ (by decide), List.count_eq_zero]
    exact hplain

end Scheme

/-! ## The stage of replacements -/

/-- The directives that replace words, one behind the other. -/
def Directive.replacements (pairs : List (Text × Text)) : Text :=
  pairs.flatMap fun p => Directive.replaceAll.written [p.1, p.2]

/-- A substitution that waits and replaces a word. -/
def Substitution.IsOf (sub : Substitution) (p : Text × Text) : Prop :=
  sub.pattern = Pattern.literal p.1 ∧ sub.template = p.2

section Stage

variable (ctx : Context) {pairs : List (Text × Text)}

/-- A directive that replaces a word leaves nothing, and a substitution that waits. -/
theorem Resolve.site_replaceAll {w r : Text} (h : ∀ c ∈ w ++ r, c.isAlphanum = true)
    (start stop line : Nat) (s : RunState) :
    Resolve.site ctx ⟨.replaceAll, start, stop, line, [w, r]⟩ s =
      .ok [] { s with pending := s.pending ++ [⟨Pattern.literal w, r, line⟩] } := by
  obtain ⟨hword, hnew⟩ := List.forall_mem_append.1 h
  have hsource := Run.deprotect_of_notMem (notMem_of_alphanum (c := '@') hword rfl) s
  have htemplate := Run.deprotect_of_notMem (notMem_of_alphanum (c := '@') hnew rfl) s
  refine (bind_of_ok hsource).trans ((bind_of_ok htemplate).trans ?_)
  rw [Pattern.ofText_literal (ordinary_of_alphanum hword)]
  rfl

theorem Stretch.cuts_replacements (h : WordPairs pairs) :
    Cuts (step .replacements) (Directive.replacements pairs) (pairs.flatMap fun p =>
      [.site .replaceAll [p.1, p.2] (Directive.replaceAll.written [p.1, p.2])]) := by
  refine Cuts.flatMap fun p hp => ?_
  obtain ⟨hword, hnew⟩ := List.forall_mem_append.1 (h p hp).2
  have hnested : ∀ u ∈ [p.1, p.2], u.Nested := by
    simpa using ⟨nested_of_alphanum hword, nested_of_alphanum hnew⟩
  have hcut : Cuts (step (Directive.family .replaceAll)) (Directive.replaceAll.written [p.1, p.2])
      [.site .replaceAll [p.1, p.2] (Directive.replaceAll.written [p.1, p.2])] :=
    cuts_site rfl hnested rfl
  exact hcut

/-- The directives are resolved one after the other, and their substitutions wait in order. -/
theorem Stretch.resolve_replacements (h : WordPairs pairs) (buffer : Text) (start : Nat)
    (s : RunState) : ∃ subs, List.Forall₂ Substitution.IsOf subs pairs ∧
      resolve ctx buffer start (pairs.flatMap fun p =>
        [.site .replaceAll [p.1, p.2] (Directive.replaceAll.written [p.1, p.2])]) s =
      .ok [] { s with pending := s.pending ++ subs } := by
  induction pairs generalizing start s with
  | nil => exact ⟨[], .nil, by rw [List.append_nil]; rfl⟩
  | cons p pairs ih =>
    obtain ⟨hp, hpairs⟩ := List.forall_mem_cons.1 h
    let written := Directive.replaceAll.written [p.1, p.2]
    obtain ⟨subs, hsubs, hrest⟩ := ih hpairs (start + written.length) { s with
      pending := s.pending ++ [⟨Pattern.literal p.1, p.2, buffer.lineAt start⟩] }
    refine ⟨⟨Pattern.literal p.1, p.2, buffer.lineAt start⟩ :: subs, .cons ⟨rfl, rfl⟩ hsubs, ?_⟩
    rw [List.flatMap_cons, List.singleton_append, resolve,
      bind_of_ok (Resolve.site_replaceAll ctx hp.2 ..), bind_of_ok hrest]
    simp only [List.append_assoc, List.singleton_append]
    rfl

/-- The substitutions that wait replace their words in order. -/
theorem Resolve.foldlM_substitute (h : WordPairs pairs) {subs : List Substitution}
    (hsubs : List.Forall₂ Substitution.IsOf subs pairs) (m : Text) (s : RunState) :
    subs.foldlM (substitute ctx) m s = .ok (Text.replaceWords pairs m) s := by
  induction hsubs generalizing m with
  | nil => rfl
  | @cons sub p subs pairs hsub _ ih =>
    obtain ⟨⟨hne, hchars⟩, hpairs⟩ := List.forall_mem_cons.1 h
    obtain ⟨-, hnew⟩ := List.forall_mem_append.1 hchars
    have hstep : substitute ctx m sub s = .ok (Text.replaceWord p.1 p.2 m) s := by
      unfold substitute
      rw [hsub.1, hsub.2, Pattern.replaceAll_literal hne (notMem_of_alphanum hnew rfl)]
      rfl
    rw [List.foldlM_cons]
    exact (bind_of_ok hstep).trans (ih hpairs _)

/-- What is left of a buffer in which directives that replace words stand in front. -/
theorem Preprocess.bareStage_replacements (h : WordPairs pairs) {b : Text}
    (hlacks : b.Lacks .replacements) (hfree : b.SentinelFree) {s : RunState}
    (hs : s.pending = []) : ∃ s', s.Alike s' ∧
      bareStage ctx .replacements (Directive.replacements pairs ++ b) s =
        .ok (Scheme.document.unmask (Text.replaceWords pairs (Scheme.document.mask b))) s' := by
  have hstretches : Stretch.ofText .replacements (Directive.replacements pairs ++ b) =
      (pairs.flatMap fun p =>
        [.site .replaceAll [p.1, p.2] (Directive.replaceAll.written [p.1, p.2])]) ++
        b.map .kept := by
    rw [Stretch.ofText, Stretch.cuts_replacements h, ← Stretch.ofText, Stretch.ofText_of_lacks hlacks]
  obtain ⟨subs, hsubs, hsites⟩ := Stretch.resolve_replacements ctx h
    (Directive.replacements pairs ++ b) 0 s
  have hresolve : Stretch.resolve ctx (Directive.replacements pairs ++ b) 0
      (Stretch.ofText .replacements (Directive.replacements pairs ++ b)) s =
        .ok b { s with pending := s.pending ++ subs } := by
    rw [hstretches, Stretch.resolve_append_eq_ok]
    exact ⟨_, _, _, hsites, by rw [Stretch.resolve_map_kept]; rfl, rfl⟩
  obtain ⟨s₁, hfamily, hs₁⟩ := Resolve.family_of_resolve hresolve
  have hwaiting : s₁.pending = subs := by rw [hs₁.pending, hs, List.nil_append]
  refine ⟨{ s₁ with pending := [] }, ⟨hs₁.macros, hs.symm, hs₁.passes⟩, ?_⟩
  refine (bind_of_ok hfamily).trans ((bind_of_ok rfl).trans ((bind_of_ok rfl).trans ?_))
  rw [hwaiting]
  cases hsubs with
  | nil =>
    -- without a directive the buffer is not even masked
    have hback := (Scheme.unmask_mask b).trans (Scheme.unmask_of_sentinelFree hfree)
    rw [Text.replaceWords, List.foldl_nil, hback]
    rfl
  | cons hsub hsubs =>
    exact bind_of_ok (Resolve.foldlM_substitute ctx h (.cons hsub hsubs) _ _)

end Stage

/-- A stage of replacements whose directives stand in front of a text, in which every at sign begins
a known code and which has no directive of this family, replaces the words one after the other in
what a reader sees of the text, if no substitution waits from before. It keeps the codes of the
text, and fails only if the text has more braces of one kind than of the other. -/
theorem replacements_literal (ctx : Context) {pairs : List (Text × Text)} (hpairs : WordPairs pairs)
    {b : Text} (hplain : '\\' ∉ b) (hmarked : b.Marked) (hfree : b.SentinelFree)
    (hlacks : b.Lacks .replacements) {s : RunState} (hs : s.pending = []) :
    ∃ u s', Scheme.document.deprotect u =
        Text.replaceWords pairs (Scheme.document.deprotect b) ∧
      u.codes = b.codes ∧ u.braces = b.braces ∧ s.Alike s' ∧
      Preprocess.stage ctx (Directive.replacements pairs ++ b) .replacements s =
        if u.braces.1 = u.braces.2 then .ok u s'
        else .error (.diagnostic ⟨.directive, ctx.path, none,
          .unbalanced u.braces.1 u.braces.2⟩) s' := by
  obtain ⟨s₁, hs₁, hbare⟩ := Preprocess.bareStage_replacements ctx hpairs hlacks hfree hs
  obtain ⟨hseen, hcodes, hbraces, hescape⟩ :=
    Scheme.replaceWords_spec hplain hmarked hfree hpairs rfl
  generalize Scheme.document.unmask (Text.replaceWords pairs (Scheme.document.mask b)) = u at *
  have hprotect := Run.protect_of_notMem hescape .document ctx.path s₁
  rcases Preprocess.verifyBraces_cases ctx u s₁ with ⟨hbalanced, hverify⟩ | ⟨hunbalanced, hverify⟩
  · have hsettle : Preprocess.settle ctx u s₁ = .ok u s₁ :=
      (bind_of_ok hprotect).trans (bind_of_ok hverify)
    refine ⟨u, { s₁ with progress := s₁.progress.push (.stageDone .replacements u.length) }, hseen,
      hcodes, hbraces, ⟨hs₁.macros, hs₁.pending, hs₁.passes⟩, ?_⟩
    rw [if_pos hbalanced, Preprocess.stage_eq]
    exact (bind_of_ok hbare).trans (bind_of_ok hsettle)
  · have hsettle : Preprocess.settle ctx u s₁ = .error _ s₁ :=
      (bind_of_ok hprotect).trans (bind_of_error hverify)
    refine ⟨u, s₁, hseen, hcodes, hbraces, hs₁, ?_⟩
    rw [if_neg hunbalanced, Preprocess.stage_eq]
    exact (bind_of_ok hbare).trans (bind_of_error hsettle)

/-- A word that is also spelled in a code, and one that comes about when it is replaced. -/
theorem replacements_literal_inside :
    ∃ u s', Scheme.document.deprotect u = "7\x7b\x7dB\x7d".toList ∧ u.codes = [⟨'R', 'B'⟩] ∧
      Preprocess.stage {} (".replace_all\x7bRB\x7d\x7bB\x7d.replace_all\x7bBB\x7d\x7b7\x7d" ++
        "RBB\x7b@#\x27:[;:RB]RB\x7d").toList .replacements {} = .ok u s' := by
  have hpairs : WordPairs [("RB".toList, "B".toList), ("BB".toList, "7".toList)] := by decide
  have hplain : '\\' ∉ "RBB\x7b@#\x27:[;:RB]RB\x7d".toList := by decide
  have hmarked : Text.Marked "RBB\x7b@#\x27:[;:RB]RB\x7d".toList := by decide +kernel
  have hfree : Text.SentinelFree "RBB\x7b@#\x27:[;:RB]RB\x7d".toList := by decide
  have hlacks : Text.Lacks "RBB\x7b@#\x27:[;:RB]RB\x7d".toList .replacements := by decide +kernel
  have hbuffer : (".replace_all\x7bRB\x7d\x7bB\x7d.replace_all\x7bBB\x7d\x7b7\x7d" ++
      "RBB\x7b@#\x27:[;:RB]RB\x7d").toList =
        Directive.replacements [("RB".toList, "B".toList), ("BB".toList, "7".toList)] ++
          "RBB\x7b@#\x27:[;:RB]RB\x7d".toList := by decide +kernel
  obtain ⟨u, s', hseen, hcodes, hbraces, -, hstage⟩ :=
    replacements_literal {} hpairs hplain hmarked hfree hlacks (s := {}) rfl
  have hbalanced : u.braces.1 = u.braces.2 := by
    rw [hbraces]
    decide
  rw [if_pos hbalanced] at hstage
  refine ⟨u, s', hseen.trans (by decide +kernel), hcodes.trans (by decide +kernel), ?_⟩
  rw [hbuffer, hstage]

end Bracemark
