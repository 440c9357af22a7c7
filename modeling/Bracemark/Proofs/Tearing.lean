import Bracemark.Proofs.Transcribing
import Mathlib.Data.List.Infix
import Mathlib.Data.List.TakeWhile

/-!
# Transcribing across tags

A rule takes every occurrence of its sign, also one that lies across the place between two texts. If
there is none, it does to two texts what it does to each of them (`Text.replaceWord_append`). Behind
an opening tag only a backslash is taken together with the end of the tag, and in front of a closing
tag only the low lines of five implosives with its beginning (`Sampa.stems`). So a text between tags
is transcribed by itself unless it begins or ends so (`Sampa.transcribe_between`). The ends count as
they are once the marks have been taken, which come before all letters: the mark `_d` or `_G` may
have taken the letter of the sign away (`Sampa.torn_iff`).

If it does begin or end so, the rule takes an angle bracket of a tag away, and no rule puts one in
(`Sampa.countP_transcribe_lt_of_front`, `Sampa.countP_transcribe_lt_of_end`).
-/

namespace Bracemark

/-! ## Replacing in two texts -/

namespace Text

variable {w r s t u v : Text}

/-- No occurrence of a word begins in one text and ends in the next. -/
def Uncrossed (w u v : Text) : Prop :=
  ∀ a b, w = a ++ b → a ≠ [] → b ≠ [] → a <:+ u → ¬b <+: v

theorem Uncrossed.of_suffix {x : Text} (h : Uncrossed w u v) (hx : x <:+ u) : Uncrossed w x v :=
  fun a b hab ha hb hsuffix => h a b hab ha hb (hsuffix.trans hx)

theorem replaceWord_append (hw : w ≠ []) (h : Uncrossed w u v) (r : Text) :
    replaceWord w r (u ++ v) = replaceWord w r u ++ replaceWord w r v := by
  induction u using replace_induction hw with
  | nil => rfl
  | hit rest ih =>
    rw [List.append_assoc, replaceWord_hit hw, replaceWord_hit hw,
      ih (h.of_suffix (List.suffix_append ..)), List.append_assoc]
  | skip c rest hc ih =>
    have hskip : ¬w <+: c :: (rest ++ v) := by
      rintro ⟨more, hmore⟩
      rcases List.append_eq_append_iff.1 (hmore.trans (List.cons_append ..).symm) with
        ⟨behind, hrest, -⟩ | ⟨b, hword, hv⟩
      · exact hc ⟨behind, hrest.symm⟩
      · by_cases hb : b = []
        · rw [hb, List.append_nil] at hword
          exact hc (hword ▸ List.prefix_refl _)
        · exact h _ b hword (List.cons_ne_nil c rest) hb (List.suffix_refl _) ⟨more, hv.symm⟩
    rw [List.cons_append, replaceWord_skip hskip, replaceWord_skip hc,
      ih (h.of_suffix (List.suffix_cons ..)), List.cons_append]

/-- A word of two characters in front of a text without it is replaced, whatever stands in front. -/
theorem replaceWord_append_pair {x y : Char} (hxy : x ≠ y) (hrest : ¬[x, y] <:+: t) (r u : Text) :
    replaceWord [x, y] r (u ++ x :: y :: t) = replaceWord [x, y] r u ++ r ++ t := by
  have hne : [x, y] ≠ [] := List.cons_ne_nil _ _
  have huncrossed : Uncrossed [x, y] u (x :: y :: t) := by
    intro a b hab ha hb _ hlead
    obtain ⟨a₁, a, rfl⟩ := List.exists_cons_of_ne_nil ha
    obtain ⟨b₁, b, rfl⟩ := List.exists_cons_of_ne_nil hb
    obtain ⟨rfl, -⟩ := List.cons_prefix_cons.1 hlead
    cases a with
    | nil => exact hxy (List.cons.inj (List.cons.inj hab).2).1.symm
    | cons _ a => simp at hab
  rw [replaceWord_append hne huncrossed, List.append_assoc]
  exact congrArg _ ((replaceWord_hit hne r t).trans
    (congrArg _ (replaceWord_of_absent hrest r)))

/-- What ends a text in which a word has been replaced was there before, unless it has characters of
the new word. -/
theorem exists_of_replaceWord_eq_append (hw : w ≠ []) (hr : r ≠ []) (hs : ∀ c ∈ s, c ∉ r) {p : Text}
    (h : replaceWord w r t = p ++ s) : ∃ q, t = q ++ s ∧ (p = [] → q = []) := by
  induction t using replace_induction hw generalizing p s with
  | nil => exact ⟨p, h, id⟩
  | hit rest ih =>
    rw [replaceWord_hit hw] at h
    -- what of the new word would be in the end is empty
    have hfront : ∃ p', p = r ++ p' ∧ replaceWord w r rest = p' ++ s := by
      rcases List.append_eq_append_iff.1 h with ⟨p', hp, hrest⟩ | ⟨x, hnew, hend⟩
      · exact ⟨p', hp, hrest⟩
      · obtain rfl : x = [] := List.eq_nil_iff_forall_not_mem.2 fun c hc =>
          hs c (hend ▸ List.mem_append_left _ hc) (hnew ▸ List.mem_append_right _ hc)
        exact ⟨[], by rw [hnew, List.append_nil, List.append_nil], hend.symm⟩
    obtain ⟨p', rfl, hrest⟩ := hfront
    obtain ⟨q, rfl, -⟩ := ih hs hrest
    exact ⟨w ++ q, (List.append_assoc ..).symm, fun hp => absurd (List.append_eq_nil_iff.1 hp).1 hr⟩
  | skip c rest hc ih =>
    rw [replaceWord_skip hc] at h
    cases p with
    | nil =>
      subst h
      obtain ⟨q, hq, hnil⟩ := ih (p := []) (fun x hx => hs x (List.mem_cons_of_mem c hx)) rfl
      rw [hnil rfl, List.nil_append] at hq
      exact ⟨[], congrArg (c :: ·) hq, fun _ => rfl⟩
    | cons d p =>
      obtain ⟨rfl, hbehind⟩ := List.cons.inj h
      obtain ⟨q, rfl, -⟩ := ih hs hbehind
      exact ⟨c :: q, rfl, nofun⟩

theorem suffix_of_suffix_replaceWord (hw : w ≠ []) (hr : r ≠ []) (hs : ∀ c ∈ s, c ∉ r)
    (h : s <:+ replaceWord w r t) : s <:+ t := by
  obtain ⟨p, hp⟩ := h
  obtain ⟨q, rfl, -⟩ := exists_of_replaceWord_eq_append hw hr hs hp.symm
  exact List.suffix_append ..

variable {p : Char → Bool}

/-- Characters that the new word has not got become no more. -/
theorem countP_replaceWord_le (hw : w ≠ []) (hr : r.countP p = 0) (t : Text) :
    (replaceWord w r t).countP p ≤ t.countP p := by
  induction t using replace_induction hw with
  | nil => exact Nat.le_refl _
  | hit rest ih =>
    rw [replaceWord_hit hw, List.countP_append, List.countP_append, hr]
    omega
  | skip c rest hc ih =>
    rw [replaceWord_skip hc, List.countP_cons, List.countP_cons]
    omega

/-- They become fewer where a word that has one is replaced. -/
theorem countP_replaceWord_lt (hw : 0 < w.countP p) (hr : r.countP p = 0) (h : w <:+: t) :
    (replaceWord w r t).countP p < t.countP p := by
  have hne : w ≠ [] := fun hnil => by
    rw [hnil] at hw
    exact Nat.lt_irrefl 0 hw
  induction t using replace_induction hne with
  | nil => exact absurd (List.infix_nil.1 h) hne
  | hit rest ih =>
    have hrest := countP_replaceWord_le hne hr rest
    rw [replaceWord_hit hne, List.countP_append, List.countP_append, hr]
    omega
  | skip c rest hc ih =>
    have hrest := ih ((List.infix_cons_iff.1 h).resolve_left hc)
    rw [replaceWord_skip hc, List.countP_cons, List.countP_cons]
    omega

end Text

/-! ## Rules at the edge of a text -/

namespace Rule

instance (r : Rule) (t : Text) : Decidable (Idle r t) := inferInstanceAs (Decidable (_ ∨ _))

/-- A rule changes nothing in a text and does not reach from there into the next one, unless that
begins in one of some ways. -/
def SparesBefore (o : Text) (begins : List Text) (r : Rule) : Prop :=
  Idle r o ∧ ∀ a ∈ o.tails, a ≠ [] → a <+: r.sign.toList → a ≠ r.sign.toList →
    r.sign.toList.drop a.length ∈ begins

/-- A rule changes nothing in a text and does not reach into it from the one before, unless that
ends in one of some ways. -/
def SparesBehind (c : Text) (ends : List Text) (r : Rule) : Prop :=
  Idle r c ∧ ∀ b ∈ c.inits, b ≠ [] → b <:+ r.sign.toList → b ≠ r.sign.toList →
    r.sign.toList.take (r.sign.toList.length - b.length) ∈ ends

instance (o : Text) (begins : List Text) (r : Rule) : Decidable (SparesBefore o begins r) :=
  inferInstanceAs (Decidable (_ ∧ _))

instance (c : Text) (ends : List Text) (r : Rule) : Decidable (SparesBehind c ends r) :=
  inferInstanceAs (Decidable (_ ∧ _))

variable {p : Char → Bool} {rules todo : List Rule} {r : Rule} {s t o c : Text}
  {begins ends : List Text}

theorem SparesBefore.apply_append (h : SparesBefore o begins r) (hsign : r.sign.toList ≠ [])
    (ht : ∀ b ∈ begins, ¬b <+: t) : apply (o ++ t) r = o ++ apply t r := by
  have huncrossed : Text.Uncrossed r.sign.toList o t := by
    intro a b hab ha hne hsuffix hlead
    have hproper : a ≠ r.sign.toList := fun heq => hne (List.self_eq_append_right.1 (heq.trans hab))
    have hb := h.2 a ((List.mem_tails a o).2 hsuffix) ha ⟨b, hab.symm⟩ hproper
    rw [hab, List.drop_left] at hb
    exact ht b hb hlead
  rw [apply_eq, Text.replaceWord_append hsign huncrossed, ← apply_eq, h.1.apply_eq hsign,
    ← apply_eq]

theorem SparesBehind.apply_append (h : SparesBehind c ends r) (hsign : r.sign.toList ≠ [])
    (ht : ∀ a ∈ ends, ¬a <:+ t) : apply (t ++ c) r = apply t r ++ c := by
  have huncrossed : Text.Uncrossed r.sign.toList t c := by
    intro a b hab hne hb hsuffix hlead
    have hproper : b ≠ r.sign.toList := fun heq => hne (List.self_eq_append_left.1 (heq.trans hab))
    have ha := h.2 b ((List.mem_inits b c).2 hlead) hb ⟨a, hab.symm⟩ hproper
    rw [hab, List.length_append, Nat.add_sub_cancel, List.take_left] at ha
    exact ht a ha hsuffix
  rw [apply_eq, Text.replaceWord_append hsign huncrossed, ← apply_eq, ← apply_eq,
    h.1.apply_eq hsign]

/-- The rules in front of those with a certain sign. -/
def before (w : String) (rules : List Rule) : List Rule := rules.takeWhile fun r => r.sign ≠ w

theorem before_subset (w : String) (rules : List Rule) : before w rules ⊆ rules :=
  List.takeWhile_subset _

theorem ne_of_mem_before {w : String} (h : r ∈ before w rules) : r.sign ≠ w := by
  have hne := List.mem_takeWhile_imp h
  exact of_decide_eq_true hne

/-- A rule with the sign stands behind them. -/
theorem exists_eq_before {w : String} (h : ∃ r ∈ rules, r.sign = w) :
    ∃ r after, rules = before w rules ++ r :: after ∧ r.sign = w := by
  have hsplit := List.takeWhile_append_dropWhile (p := fun r : Rule => r.sign ≠ w) (l := rules)
  have hhead := List.head?_dropWhile_not (fun r : Rule => r.sign ≠ w) rules
  cases hdrop : rules.dropWhile fun r => r.sign ≠ w with
  | nil =>
    obtain ⟨r, hr, hsign⟩ := h
    rw [hdrop, List.append_nil] at hsplit
    rw [← hsplit] at hr
    exact absurd hsign (ne_of_mem_before hr)
  | cons r after =>
    rw [hdrop] at hhead hsplit
    exact ⟨r, after, hsplit.symm, by simpa using hhead⟩

theorem applyAll_cons (r : Rule) (rules : List Rule) (t : Text) :
    applyAll (r :: rules) t = applyAll rules (apply t r) := rfl

theorem applyAll_append (rules todo : List Rule) (t : Text) :
    applyAll (rules ++ todo) t = applyAll todo (applyAll rules t) := List.foldl_append

/-- What a rule leaves as it was if it was so behind the rule, all rules leave so. -/
theorem of_applyAll {P : Text → Prop} (hback : ∀ r ∈ todo, ∀ t, P (apply t r) → P t)
    (h : P (applyAll todo t)) : P t := by
  induction todo generalizing t with
  | nil => exact h
  | cons r todo ih =>
    obtain ⟨hr, htodo⟩ := List.forall_mem_cons.1 hback
    exact hr t (ih htodo h)

/-- What stands around a text is there behind the rules if each rule leaves it there. -/
theorem applyAll_around (P : Text → Prop) (around : Text → Text)
    (hstep : ∀ r ∈ todo, ∀ t, P t → apply (around t) r = around (apply t r) ∧ P (apply t r))
    (ht : P t) : applyAll todo (around t) = around (applyAll todo t) := by
  induction todo generalizing t with
  | nil => rfl
  | cons r todo ih =>
    obtain ⟨hr, htodo⟩ := List.forall_mem_cons.1 hstep
    obtain ⟨happly, hkept⟩ := hr t ht
    rw [applyAll_cons, applyAll_cons, happly, ih htodo hkept]

namespace Final

/-- What begins a text and is made as signs are was there before the rule. -/
theorem prefix_of_prefix_apply (h : Final p rules) (hr : r ∈ rules) (hs : ∀ x ∈ s, p x = true)
    (hlead : s <+: apply t r) : s <+: t := by
  obtain ⟨hsign, hsound, -, -⟩ := h r hr
  rcases h.same_or_fresh hr with hsame | hfresh
  · rwa [Idle.apply_eq (.inl hsame) hsign] at hlead
  · exact Text.prefix_of_prefix_replaceWord hsign hsound (hfresh s hs) hlead

theorem suffix_of_suffix_apply (h : Final p rules) (hr : r ∈ rules) (hs : ∀ x ∈ s, p x = true)
    (hsuffix : s <:+ apply t r) : s <:+ t := by
  obtain ⟨hsign, hsound, -, -⟩ := h r hr
  rcases h.same_or_fresh hr with hsame | hfresh
  · rwa [Idle.apply_eq (.inl hsame) hsign] at hsuffix
  · exact Text.suffix_of_suffix_replaceWord hsign hsound (hfresh s hs) hsuffix

theorem suffix_of_suffix_applyAll (h : Final p rules) (htodo : todo ⊆ rules)
    (hs : ∀ x ∈ s, p x = true) (hsuffix : s <:+ applyAll todo t) : s <:+ t :=
  of_applyAll (fun _ hr _ => h.suffix_of_suffix_apply (htodo hr) hs) hsuffix

/-- Rules that spare a text are applied to what stands behind it. -/
theorem applyAll_append_left (h : Final p rules) (htodo : todo ⊆ rules)
    (hbegins : ∀ b ∈ begins, ∀ x ∈ b, p x = true) (hspares : ∀ r ∈ todo, SparesBefore o begins r)
    (ht : ∀ b ∈ begins, ¬b <+: t) : applyAll todo (o ++ t) = o ++ applyAll todo t := by
  refine applyAll_around (fun t => ∀ b ∈ begins, ¬b <+: t) (o ++ ·)
    (fun r hr t ht => ⟨?_, fun b hb hlead => ?_⟩) ht
  · exact (hspares r hr).apply_append (h r (htodo hr)).1 ht
  · exact ht b hb (h.prefix_of_prefix_apply (htodo hr) (hbegins b hb) hlead)

/-- Rules that spare a text are applied to what stands in front of it. -/
theorem applyAll_append_right (h : Final p rules) (htodo : todo ⊆ rules)
    (hends : ∀ a ∈ ends, ∀ x ∈ a, p x = true) (hspares : ∀ r ∈ todo, SparesBehind c ends r)
    (ht : ∀ a ∈ ends, ¬a <:+ t) : applyAll todo (t ++ c) = applyAll todo t ++ c := by
  refine applyAll_around (fun t => ∀ a ∈ ends, ¬a <:+ t) (· ++ c)
    (fun r hr t ht => ⟨?_, fun a ha hsuffix => ?_⟩) ht
  · exact (hspares r hr).apply_append (h r (htodo hr)).1 ht
  · exact ht a ha (h.suffix_of_suffix_apply (htodo hr) (hends a ha) hsuffix)

theorem countP_applyAll_le {f : Char → Bool} (h : Final p rules)
    (hf : ∀ r ∈ rules, r.sound.toList.countP f = 0) (htodo : todo ⊆ rules) (t : Text) :
    (applyAll todo t).countP f ≤ t.countP f := by
  induction todo generalizing t with
  | nil => exact Nat.le_refl _
  | cons r todo ih =>
    obtain ⟨hr, htodo⟩ := List.cons_subset.1 htodo
    exact Nat.le_trans (ih htodo (apply t r)) (Text.countP_replaceWord_le (h r hr).1 (hf r hr) t)

/-- A rule whose sign stands in the text when it is its turn takes characters away that no sound
has. -/
theorem countP_applyAll_lt {f : Char → Bool} (h : Final p rules)
    (hf : ∀ r ∈ rules, r.sound.toList.countP f = 0) (htodo : todo ⊆ rules) {w : String}
    (hw : ∃ r ∈ todo, r.sign = w) (hcount : 0 < w.toList.countP f)
    (hpart : w.toList <:+: applyAll (before w todo) t) :
    (applyAll todo t).countP f < t.countP f := by
  obtain ⟨r, after, hsplit, rfl⟩ := exists_eq_before hw
  obtain ⟨hr, hafter⟩ := List.cons_subset.1 (List.append_subset.1 (hsplit ▸ htodo)).2
  have hbefore := h.countP_applyAll_le hf (List.Subset.trans (before_subset r.sign todo) htodo) t
  have htaken := Text.countP_replaceWord_lt hcount (hf r hr) hpart
  have hrest := h.countP_applyAll_le hf hafter (apply (applyAll (before r.sign todo) t) r)
  have hall : applyAll todo t = applyAll after (apply (applyAll (before r.sign todo) t) r) := by
    rw [← applyAll_cons, ← applyAll_append, ← hsplit]
  rw [hall]
  exact Nat.lt_of_le_of_lt hrest (Nat.lt_of_lt_of_le htaken hbefore)

end Final

end Rule

/-! ## X-SAMPA between tags -/

/-- An angle bracket, as tags have them. -/
def isAngle (c : Char) : Bool := c = '<' || c = '>'

/-- A character of the tags that styles put around a text. -/
def isTag (c : Char) : Bool := ['<', '>', '/', 'b', 'i', 's', 'u', 'p'].contains c

namespace Sampa

/-- The rules behind the marks that are taken before any letter. -/
def letterRules : List Rule := lowerLetters ++ upperLetters ++ signDiacritics ++ signs

/-- What stands in front of a `<` in a sign: the letters of the implosives, with a low line. -/
def stems : List String := ["b_", "d_", "g_", "G\\_", "J\\_"]

/-- A text that is torn out of its tags: it begins with a backslash, which is taken together with a
`>` in front, or it ends in a stem, which is taken together with a `<` behind. The letter of two
stems is taken as a mark first if a low line stands in front of it. -/
def Torn (t : Text) : Prop :=
  ['\\'] <+: t ∨
    (∃ e ∈ ["b_", "g_", "J\\_"], e.toList <:+ t) ∨
    ∃ e ∈ ["d_", "G\\_"], e.toList <:+ t ∧ ¬ '_' :: e.toList <:+ t

instance (t : Text) : Decidable (Torn t) := inferInstanceAs (Decidable (_ ∨ _ ∨ _))

/-- What the rules of X-SAMPA are like at the edges of tags. -/
structure Edged (r : Rule) : Prop where
  /-- No tag is changed. -/
  untagged : r.sign = r.sound ∨ ∃ c ∈ r.sign.toList, isTag c = false
  /-- Only a backslash is taken together with the end of an opening tag. -/
  opening : '>' ∈ r.sign.toList.dropLast → r.sign = ">\\"
  /-- Only a stem is taken together with the beginning of a closing tag. -/
  closing : '<' ∈ r.sign.toList.tail → ∃ e ∈ stems, r.sign = e ++ "<"
  /-- A backslash is taken together with what stands in front of it. -/
  first : r.sign.toList.head? ≠ some '\\'
  /-- No angle bracket is put in. -/
  sound : r.sound.toList.countP isAngle = 0

theorem edged_of_mem {r : Rule} (hr : r ∈ rules) : Edged r := by
  have hall : (rules.all fun r =>
      (r.sign = r.sound || r.sign.toList.any fun c => !isTag c) &&
      (!r.sign.toList.dropLast.contains '>' || r.sign = ">\\") &&
      (!r.sign.toList.tail.contains '<' || stems.any fun e => r.sign = e ++ "<") &&
      (r.sign.toList.head? != some '\\') && (r.sound.toList.countP isAngle == 0)) = true := by
    decide +kernel
  have hchecks := List.all_eq_true.1 hall r hr
  simp only [Bool.and_eq_true, Bool.or_eq_true, decide_eq_true_eq, List.any_eq_true,
    Bool.not_eq_true', bne_iff_ne, beq_iff_eq, List.contains_eq_mem, decide_eq_false_iff_not]
    at hchecks
  obtain ⟨⟨⟨⟨huntagged, hopening⟩, hclosing⟩, hfirst⟩, hsound⟩ := hchecks
  exact ⟨huntagged, fun h => hopening.resolve_left (not_not_intro h),
    fun h => hclosing.resolve_left (not_not_intro h), hfirst, hsound⟩

theorem rules_eq : rules = markDiacritics ++ letterRules := by
  simp only [rules, letterRules, List.append_assoc]

theorem marks_subset : markDiacritics ⊆ rules := rules_eq ▸ List.subset_append_left ..

theorem letters_subset : letterRules ⊆ rules := rules_eq ▸ List.subset_append_right ..

theorem transcribe_eq (t : Text) :
    transcribe t = Rule.applyAll letterRules (Rule.applyAll markDiacritics t) := by
  rw [← Rule.applyAll_append, ← rules_eq]
  rfl

variable {r : Rule} {t o c : Text} {name : String}

theorem Edged.idle (h : Edged r) (ht : ∀ x ∈ t, isTag x = true) : r.Idle t := by
  refine h.untagged.imp_right ?_
  rintro ⟨x, hx, htag⟩ hpart
  exact Bool.false_ne_true (htag.symm.trans (ht x (hpart.subset hx)))

/-- A rule reaches from a tag into the text behind it only to take a backslash. -/
theorem Edged.sparesBefore (h : Edged r) (ho : ∀ x ∈ o ++ ['>'], isTag x = true)
    {begins : List Text} (hbegins : r.sign = ">\\" → ['\\'] ∈ begins) :
    r.SparesBefore (o ++ ['>']) begins := by
  refine ⟨h.idle ho, fun a ha hne hlead hproper => ?_⟩
  obtain ⟨b, hb⟩ := hlead
  obtain ⟨x, rfl, -⟩ := (List.suffix_concat_iff.1 ((List.mem_tails _ _).1 ha)).resolve_left hne
  have hbne : b ≠ [] := by
    rintro rfl
    exact hproper ((List.append_nil _).symm.trans hb)
  have hlast : '>' ∈ r.sign.toList.dropLast := by
    rw [← hb, List.dropLast_append_of_ne_nil hbne]
    simp
  have hsign := h.opening hlast
  have hsplit : x ++ '>' :: b = ['>', '\\'] := by
    have htext : r.sign.toList = ['>', '\\'] := by
      rw [hsign]
      decide
    rw [← htext, ← hb, List.append_assoc]
    rfl
  cases x with
  | nil =>
    rw [← hb, List.drop_left, (List.cons.inj hsplit).2]
    exact hbegins hsign
  | cons y x => cases x <;> simp at hsplit

theorem notMem_stems : ∀ e ∈ stems, '<' ∉ e.toList := by decide

/-- A rule reaches from the text in front into a closing tag only to take a stem. -/
theorem Edged.sparesBehind (h : Edged r) (hc : ∀ x ∈ '<' :: c, isTag x = true) {ends : List Text}
    (hends : ∀ e ∈ stems, r.sign = e ++ "<" → e.toList ∈ ends) :
    r.SparesBehind ('<' :: c) ends := by
  refine ⟨h.idle hc, fun b hb hne hsuffix hproper => ?_⟩
  obtain ⟨a, ha⟩ := hsuffix
  obtain ⟨b, rfl⟩ : ∃ b', b = '<' :: b' := by
    obtain ⟨y, b', rfl⟩ := List.exists_cons_of_ne_nil hne
    exact ⟨b', by rw [(List.cons_prefix_cons.1 ((List.mem_inits _ _).1 hb)).1]⟩
  have hane : a ≠ [] := by
    rintro rfl
    exact hproper ha
  have htail : '<' ∈ r.sign.toList.tail := by
    rw [← ha, List.tail_append_of_ne_nil hane]
    simp
  obtain ⟨e, he, hsign⟩ := h.closing htail
  have htext : a ++ '<' :: b = e.toList ++ ['<'] := by
    rw [ha, hsign, String.toList_append]
    rfl
  have hb : b = [] := by
    by_contra hb
    have hstem := congrArg List.dropLast htext
    rw [List.dropLast_append_of_ne_nil (List.cons_ne_nil _ b), List.dropLast_concat,
      List.dropLast_cons_of_ne_nil hb] at hstem
    exact notMem_stems e he (hstem ▸ by simp)
  subst hb
  obtain rfl := List.append_cancel_right htext
  rw [← ha, List.length_append, Nat.add_sub_cancel, List.take_left]
  exact hends e he hsign

/-- No rule takes a backslash from the beginning of a text. -/
theorem sparesBefore_backslash (hr : r ∈ rules) : r.SparesBefore ['\\'] [] := by
  have hfirst {x : Char} {more : Text} (h : r.sign.toList = x :: more) : x ∉ ['\\'] := by
    rintro hx
    obtain rfl := List.mem_singleton.1 hx
    exact (edged_of_mem hr).first (congrArg List.head? h)
  constructor
  · refine .inr fun hpart => ?_
    obtain ⟨x, more, hsign⟩ := List.exists_cons_of_ne_nil (final_rules r hr).1
    exact hfirst hsign (hpart.subset (hsign ▸ List.mem_cons_self))
  · intro a ha hne hlead
    obtain ⟨b, hb⟩ := hlead
    obtain ⟨x, a, rfl⟩ := List.exists_cons_of_ne_nil hne
    exact absurd (((List.mem_tails _ _).1 ha).subset List.mem_cons_self) (hfirst hb.symm)

/-! ## The ends of a text -/

theorem marks_spare_closing (hc : ∀ x ∈ '<' :: c, isTag x = true) :
    ∀ r ∈ markDiacritics, r.SparesBehind ('<' :: c) [] := by
  have hsign : ∀ r ∈ markDiacritics, ∀ e ∈ stems, r.sign ≠ e ++ "<" := by decide +kernel
  exact fun r hr => (edged_of_mem (marks_subset hr)).sparesBehind hc
    fun e he heq => absurd heq (hsign r hr e he)

theorem marks_spare_opening (ho : ∀ x ∈ o ++ ['>'], isTag x = true) :
    ∀ r ∈ markDiacritics, r.SparesBefore (o ++ ['>']) [] := by
  have hsign : ∀ r ∈ markDiacritics, r.sign ≠ ">\\" := by decide +kernel
  exact fun r hr => (edged_of_mem (marks_subset hr)).sparesBefore ho
    fun heq => absurd heq (hsign r hr)

theorem isSign_stems : ∀ e ∈ stems, ∀ x ∈ e.toList, isSign x = true := by
  have hall : ∀ e ∈ stems, e.toList.all isSign = true := by decide
  exact fun e he => List.all_eq_true.1 (hall e he)

/-- A mark takes its letter away from what begins with it. -/
theorem not_suffix_of_mark {w : String} {x : Char} {rest : Text}
    (hmark : ∃ r ∈ markDiacritics, r.sign = w) (hw : w.toList = ['_', x]) (hx : '_' ≠ x)
    (hsound : ∀ r ∈ markDiacritics, x ∉ r.sound.toList) (hrest : ¬['_', x] <:+: rest)
    (hbefore : ∀ r ∈ Rule.before w markDiacritics, r.SparesBehind ('_' :: x :: rest) [])
    (hclass : ∀ y ∈ x :: rest, isSign y = true) (h : '_' :: x :: rest <:+ t) :
    ¬x :: rest <:+ Rule.applyAll markDiacritics t := by
  obtain ⟨front, rfl⟩ := h
  obtain ⟨r, after, hsplit, rfl⟩ := Rule.exists_eq_before hmark
  have hsubset := hsplit ▸ marks_subset
  obtain ⟨hfirst, hafter⟩ := List.append_subset.1 hsubset
  obtain ⟨hr, hafter⟩ := List.cons_subset.1 hafter
  obtain ⟨-, hne, -, -⟩ := final_rules r hr
  have hmem : r ∈ markDiacritics := hsplit ▸ List.mem_append_right _ List.mem_cons_self
  intro hsuffix
  rw [hsplit, Rule.applyAll_append, final_rules.applyAll_append_right hfirst
    (List.forall_mem_nil _) hbefore (List.forall_mem_nil _), Rule.applyAll_cons, Rule.apply_eq, hw,
    Text.replaceWord_append_pair hx hrest] at hsuffix
  have hbehind := final_rules.suffix_of_suffix_applyAll hafter hclass hsuffix
  rw [← List.singleton_append, List.suffix_append_self_iff] at hbehind
  have hlast : [x] <:+ r.sound.toList :=
    List.suffix_of_suffix_length_le hbehind (List.suffix_append ..) (List.length_pos_iff.2 hne)
  exact hsound r hmem (hlast.subset List.mem_cons_self)

/-- The ends of a text that is torn out of its tags, as they are behind the marks. -/
theorem torn_iff : Torn t ↔ ['\\'] <+: t ∨
    ∃ e ∈ stems, e.toList <:+ Rule.applyAll markDiacritics t := by
  constructor
  · rintro (hfront | ⟨e, he, front, rfl⟩ | ⟨e, he, ⟨front, rfl⟩, hmark⟩)
    · exact .inl hfront
    · have hspares : ∀ e ∈ ["b_", "g_", "J\\_"], ∀ r ∈ markDiacritics,
          r.SparesBehind e.toList [] := by decide +kernel
      have hstems : ["b_", "g_", "J\\_"] ⊆ stems := by decide
      rw [final_rules.applyAll_append_right marks_subset (List.forall_mem_nil _) (hspares e he)
        (List.forall_mem_nil _)]
      exact .inr ⟨e, hstems he, List.suffix_append ..⟩
    · have hspares : ∀ e ∈ ["d_", "G\\_"], ∀ r ∈ markDiacritics,
          r.SparesBehind e.toList [['_']] := by decide +kernel
      have hstems : ["d_", "G\\_"] ⊆ stems := by decide
      have hclass : ∀ a ∈ [['_']], ∀ x ∈ a, isSign x = true :=
        List.forall_mem_singleton.2 (List.forall_mem_singleton.2 rfl)
      rw [final_rules.applyAll_append_right marks_subset hclass (hspares e he) ?_]
      · exact .inr ⟨e, hstems he, List.suffix_append ..⟩
      · refine List.forall_mem_singleton.2 ?_
        rintro ⟨others, rfl⟩
        exact hmark ⟨others, by rw [List.append_assoc, List.singleton_append]⟩
  · rintro (hfront | ⟨e, he, hsuffix⟩)
    · exact .inl hfront
    · have hend := final_rules.suffix_of_suffix_applyAll marks_subset (isSign_stems e he) hsuffix
      simp only [stems, List.mem_cons, List.not_mem_nil, or_false] at he
      rcases he with rfl | rfl | rfl | rfl | rfl
      · exact .inr (.inl ⟨_, by decide, hend⟩)
      · refine .inr (.inr ⟨_, by decide, hend, fun hmark => ?_⟩)
        exact not_suffix_of_mark (w := "_d") (by decide +kernel) (by decide) (by decide)
          (by decide +kernel) (by decide) (by decide +kernel) (isSign_stems "d_" (by decide)) hmark
          hsuffix
      · exact .inr (.inl ⟨_, by decide, hend⟩)
      · refine .inr (.inr ⟨_, by decide, hend, fun hmark => ?_⟩)
        exact not_suffix_of_mark (w := "_G") (by decide +kernel) (by decide) (by decide)
          (by decide +kernel) (by decide) (by decide +kernel) (isSign_stems "G\\_" (by decide)) hmark
          hsuffix
      · exact .inr (.inl ⟨_, by decide, hend⟩)

/-! ## A text between tags -/

/-- A text that is not torn is transcribed by itself between tags. -/
theorem transcribe_between (ho : ∀ x ∈ o ++ ['>'], isTag x = true)
    (hc : ∀ x ∈ '<' :: c, isTag x = true) (ht : ¬Torn t) :
    transcribe (o ++ ['>'] ++ (t ++ '<' :: c)) = o ++ ['>'] ++ (transcribe t ++ '<' :: c) := by
  obtain ⟨hfront, hend⟩ := not_or.1 (mt torn_iff.2 ht)
  have hopening : transcribe (o ++ ['>'] ++ (t ++ '<' :: c)) =
      o ++ ['>'] ++ transcribe (t ++ '<' :: c) := by
    have hspares : ∀ r ∈ rules, r.SparesBefore (o ++ ['>']) [['\\']] :=
      fun r hr => (edged_of_mem hr).sparesBefore ho fun _ => List.mem_cons_self
    refine final_rules.applyAll_append_left (List.Subset.refl _)
      (List.forall_mem_singleton.2 (List.forall_mem_singleton.2 rfl)) hspares ?_
    refine List.forall_mem_singleton.2 fun hlead => hfront ?_
    cases t with
    | nil => simp at hlead
    | cons x t => simpa using hlead
  have hclosing : transcribe (t ++ '<' :: c) = transcribe t ++ '<' :: c := by
    have hends : ∀ e ∈ stems.map String.toList, ¬e <:+ Rule.applyAll markDiacritics t := by
      refine List.forall_mem_map.2 fun e he hsuffix => hend ⟨e, he, hsuffix⟩
    rw [transcribe_eq, final_rules.applyAll_append_right marks_subset (List.forall_mem_nil _)
      (marks_spare_closing hc) (List.forall_mem_nil _),
      final_rules.applyAll_append_right letters_subset (List.forall_mem_map.2 isSign_stems)
        (fun r hr => (edged_of_mem (letters_subset hr)).sparesBehind hc
          fun _ he _ => List.mem_map_of_mem he) hends, transcribe_eq]
  rw [hopening, hclosing]

theorem countP_sound : ∀ r ∈ rules, r.sound.toList.countP isAngle = 0 :=
  fun _ hr => (edged_of_mem hr).sound

theorem countP_transcribe_le (t : Text) : (transcribe t).countP isAngle ≤ t.countP isAngle :=
  final_rules.countP_applyAll_le countP_sound (List.Subset.refl _) t

/-- A backslash at the beginning takes the end of an opening tag away. -/
theorem countP_transcribe_lt_of_front (ho : ∀ x ∈ o ++ ['>'], isTag x = true)
    (ht : ['\\'] <+: t) : (transcribe (o ++ ['>'] ++ t)).countP isAngle <
      (o ++ ['>'] ++ t).countP isAngle := by
  obtain ⟨t, rfl⟩ := ht
  have hsubset := Rule.before_subset ">\\" rules
  have hspares : ∀ r ∈ Rule.before ">\\" rules, r.SparesBefore (o ++ ['>']) [] := fun r hr =>
    (edged_of_mem (hsubset hr)).sparesBefore ho fun heq => absurd heq (Rule.ne_of_mem_before hr)
  have hpart : ">\\".toList <:+: Rule.applyAll (Rule.before ">\\" rules)
      (o ++ ['>'] ++ (['\\'] ++ t)) := by
    rw [final_rules.applyAll_append_left hsubset (List.forall_mem_nil _) hspares
      (List.forall_mem_nil _), final_rules.applyAll_append_left hsubset (List.forall_mem_nil _)
      (fun r hr => sparesBefore_backslash (hsubset hr)) (List.forall_mem_nil _)]
    have hword : ">\\".toList = ['>'] ++ ['\\'] := by decide
    refine ⟨o, Rule.applyAll (Rule.before ">\\" rules) t, ?_⟩
    rw [hword]
    simp only [List.append_assoc]
  exact final_rules.countP_applyAll_lt countP_sound (List.Subset.refl _) (by decide +kernel)
    (by decide) hpart

/-- A stem at the end takes the beginning of a closing tag away. -/
theorem countP_transcribe_lt_of_end (hc : ∀ x ∈ '<' :: c, isTag x = true) {e : String}
    (he : e ∈ stems) (ht : e.toList <:+ Rule.applyAll markDiacritics t) :
    (transcribe (t ++ '<' :: c)).countP isAngle < (t ++ '<' :: c).countP isAngle := by
  obtain ⟨front, hfront⟩ := ht
  have hsubset := Rule.before_subset (e ++ "<") letterRules
  have hspares : ∀ r ∈ Rule.before (e ++ "<") letterRules,
      r.SparesBehind ('<' :: c) ((stems.erase e).map String.toList) := by
    intro r hr
    refine (edged_of_mem (letters_subset (hsubset hr))).sparesBehind hc fun a ha hsign => ?_
    have hne : a ≠ e := by
      rintro rfl
      exact Rule.ne_of_mem_before hr hsign
    exact List.mem_map_of_mem ((List.mem_erase_of_ne hne).2 ha)
  have hothers : ∀ a ∈ (stems.erase e).map String.toList, ¬a <:+ front ++ e.toList := by
    have hunlike : ∀ e ∈ stems, ∀ a ∈ (stems.erase e).map String.toList,
        ¬a <:+ e.toList ∧ ¬e.toList <:+ a := by decide
    intro a ha hsuffix
    obtain ⟨hshort, hlong⟩ := hunlike e he a ha
    exact (List.suffix_or_suffix_of_suffix hsuffix (List.suffix_append ..)).elim hshort hlong
  have hstem : ∀ e ∈ stems, ∀ r ∈ Rule.before (e ++ "<") letterRules,
      r.SparesBehind e.toList [] := by decide +kernel
  have hpart : (e ++ "<").toList <:+: Rule.applyAll (Rule.before (e ++ "<") letterRules)
      (front ++ e.toList ++ '<' :: c) := by
    rw [final_rules.applyAll_append_right (List.Subset.trans hsubset letters_subset)
      (List.forall_mem_map.2 fun a ha => isSign_stems a (List.mem_of_mem_erase ha)) hspares hothers,
      final_rules.applyAll_append_right (List.Subset.trans hsubset letters_subset) (List.forall_mem_nil _)
        (hstem e he) (List.forall_mem_nil _)]
    refine ⟨Rule.applyAll (Rule.before (e ++ "<") letterRules) front, c, ?_⟩
    rw [String.toList_append]
    simp
  have hsigns : ∀ e ∈ stems, (∃ r ∈ letterRules, r.sign = e ++ "<") ∧
      0 < (e ++ "<").toList.countP isAngle := by decide +kernel
  have hmarks := final_rules.countP_applyAll_le countP_sound marks_subset (t ++ '<' :: c)
  rw [final_rules.applyAll_append_right marks_subset (List.forall_mem_nil _)
    (marks_spare_closing hc) (List.forall_mem_nil _), ← hfront] at hmarks
  rw [transcribe_eq, final_rules.applyAll_append_right marks_subset (List.forall_mem_nil _)
    (marks_spare_closing hc) (List.forall_mem_nil _), ← hfront]
  exact Nat.lt_of_lt_of_le (final_rules.countP_applyAll_lt countP_sound letters_subset
    (hsigns e he).1 (hsigns e he).2 hpart) hmarks

end Sampa

end Bracemark
