import Bracemark.Phonetic.Sampa
import Bracemark.Proofs.Inclusion
import Bracemark.Proofs.Literals
import Bracemark.Proofs.Outcomes
import Bracemark.Proofs.Shielding
import Bracemark.Preprocess.Format

/-!
# Transcribing twice

The rules of a transcription run one after the other, each over what the ones before it have left.
A rule of X-SAMPA changes nothing, or it puts in characters that no sign has (`Rule.Final`). So an
occurrence of a sign in what a rule leaves has stood there before
(`Text.infix_of_infix_replaceWord`), and none of the sign of the rule is left
(`Text.not_infix_replaceWord`). Behind all rules no sign is left that a rule would change, and
another transcription finds nothing to do (`Sampa.transcribe_transcribe`).

A format shields what it has transcribed and takes the protection off what it transcribes, so
transcribing in a format inside another one is transcribing once (`format_phonetic_idempotent`).
-/

namespace Bracemark

/-! ## Occurrences in what is replaced -/

namespace Text

variable {w r s t : Text}

/-- Only what was there begins a text in which a word has been replaced, unless it has characters
of the new word. -/
theorem prefix_of_prefix_replaceWord (hw : w ≠ []) (hr : r ≠ []) (hs : ∀ c ∈ s, c ∉ r)
    (h : s <+: replaceWord w r t) : s <+: t := by
  induction t using replace_induction hw generalizing s with
  | nil => exact h
  | hit rest ih =>
    cases s with
    | nil => exact List.nil_prefix
    | cons c s =>
      obtain ⟨x, r, rfl⟩ := List.exists_cons_of_ne_nil hr
      rw [replaceWord_hit hw, List.cons_append, List.cons_prefix_cons] at h
      exact absurd (h.1 ▸ List.mem_cons_self) (hs c List.mem_cons_self)
  | skip c rest hc ih =>
    cases s with
    | nil => exact List.nil_prefix
    | cons d s =>
      rw [replaceWord_skip hc, List.cons_prefix_cons] at h
      exact List.cons_prefix_cons.2 ⟨h.1, ih (fun x hx => hs x (List.mem_cons_of_mem d hx)) h.2⟩

/-- What has no character of the word in front stands behind it. -/
theorem infix_of_infix_append (hs : ∀ c ∈ s, c ∉ r) (h : s <:+: r ++ t) : s <:+: t := by
  cases s with
  | nil => exact List.nil_infix
  | cons c s =>
    have hfirst : c ∉ r := hs c List.mem_cons_self
    rcases List.infix_append_iff_ne_nil.1 h with h | h | ⟨a, b, ha, -, hab, hsuffix, -⟩
    · exact absurd (h.subset List.mem_cons_self) hfirst
    · exact h
    · obtain ⟨x, a, rfl⟩ := List.exists_cons_of_ne_nil ha
      obtain ⟨rfl, -⟩ := List.cons.inj hab
      exact absurd (hsuffix.subset List.mem_cons_self) hfirst

theorem infix_of_infix_replaceWord (hw : w ≠ []) (hr : r ≠ []) (hs : ∀ c ∈ s, c ∉ r)
    (h : s <:+: replaceWord w r t) : s <:+: t := by
  induction t using replace_induction hw with
  | nil => exact h
  | hit rest ih =>
    rw [replaceWord_hit hw] at h
    exact List.infix_append_of_infix_right (ih (infix_of_infix_append hs h))
  | skip c rest hc ih =>
    rw [replaceWord_skip hc, List.infix_cons_iff, ← replaceWord_skip hc] at h
    rcases h with h | h
    · exact (prefix_of_prefix_replaceWord hw hr hs h).isInfix
    · exact List.infix_cons (ih h)

/-- A word that has been replaced is gone. -/
theorem not_infix_replaceWord (hw : w ≠ []) (hr : r ≠ []) (hwr : ∀ c ∈ w, c ∉ r) (t : Text) :
    ¬w <:+: replaceWord w r t := by
  intro h
  induction t using replace_induction hw with
  | nil => exact hw (List.infix_nil.1 h)
  | hit rest ih =>
    rw [replaceWord_hit hw] at h
    exact ih (infix_of_infix_append hwr h)
  | skip c rest hc ih =>
    rw [replaceWord_skip hc, List.infix_cons_iff, ← replaceWord_skip hc] at h
    rcases h with h | h
    · exact hc (prefix_of_prefix_replaceWord hw hr hwr h)
    · exact ih h

theorem replaceWord_of_absent (h : ¬w <:+: t) (r : Text) : replaceWord w r t = t := by
  induction t with
  | nil => rfl
  | cons c t ih =>
    rw [List.infix_cons_iff, not_or] at h
    rw [replaceWord_skip h.1, ih h.2]

theorem replaceWord_self (hw : w ≠ []) (t : Text) : replaceWord w w t = t := by
  induction t using replace_induction hw with
  | nil => rfl
  | hit rest ih => rw [replaceWord_hit hw, ih]
  | skip c rest hc ih => rw [replaceWord_skip hc, ih]

end Text

/-! ## Rules that find nothing to do -/

namespace Rule

/-- Rules none of which gives another one something to do: the signs are of a class of characters,
and each rule leaves texts as they are or puts in characters that are not of the class. -/
def Final (p : Char → Bool) (rules : List Rule) : Prop :=
  ∀ r ∈ rules, r.sign.toList ≠ [] ∧ r.sound.toList ≠ [] ∧ (∀ c ∈ r.sign.toList, p c = true) ∧
    (r.sign = r.sound ∨ ∀ c ∈ r.sound.toList, p c = false)

/-- A text in which a rule has nothing to change. -/
def Idle (r : Rule) (t : Text) : Prop := r.sign = r.sound ∨ ¬r.sign.toList <:+: t

variable {p : Char → Bool} {rules : List Rule} {q r : Rule} {t : Text}

theorem apply_eq (t : Text) (r : Rule) :
    apply t r = Text.replaceWord r.sign.toList r.sound.toList t := rfl

/-- A rule that has nothing to change changes nothing. -/
theorem Idle.apply_eq (h : Idle r t) (hsign : r.sign.toList ≠ []) : apply t r = t := by
  rw [Rule.apply_eq]
  rcases h with h | h
  · rw [← h, Text.replaceWord_self hsign]
  · exact Text.replaceWord_of_absent h _

namespace Final

/-- A rule leaves a text as it is, or puts in characters of no sign. -/
theorem same_or_fresh (h : Final p rules) (hr : r ∈ rules) :
    r.sign = r.sound ∨ ∀ u : Text, (∀ c ∈ u, p c = true) → ∀ c ∈ u, c ∉ r.sound.toList := by
  obtain ⟨-, -, -, hsame | hfresh⟩ := h r hr
  · exact .inl hsame
  · refine .inr fun u hu c hc hmem => ?_
    have hclass := hu c hc
    rw [hfresh c hmem] at hclass
    cases hclass

/-- A rule has nothing to change behind itself. -/
theorem idle_apply (h : Final p rules) (hr : r ∈ rules) (t : Text) : Idle r (apply t r) := by
  obtain ⟨hsign, hsound, hclass, -⟩ := h r hr
  exact (h.same_or_fresh hr).imp_right fun hfresh =>
    Text.not_infix_replaceWord hsign hsound (hfresh _ hclass) t

/-- A rule gives another one nothing to do. -/
theorem idle_apply_of_idle (h : Final p rules) (hr : r ∈ rules) (hq : q ∈ rules)
    (hidle : Idle q t) : Idle q (apply t r) := by
  obtain ⟨hsign, hsound, -, -⟩ := h r hr
  obtain ⟨-, -, hclass, -⟩ := h q hq
  rcases h.same_or_fresh hr with hsame | hfresh
  · rwa [Idle.apply_eq (.inl hsame) hsign]
  · exact hidle.imp_right fun hno hpart =>
      hno (Text.infix_of_infix_replaceWord hsign hsound (hfresh _ hclass) hpart)

/-- Behind some rules of a table, these and those that had nothing to do before have nothing to
do. -/
theorem idle_applyAll (h : Final p rules) {done todo : List Rule} (hdone : done ⊆ rules)
    (htodo : todo ⊆ rules) (hidle : ∀ q ∈ done, Idle q t) :
    ∀ q ∈ done ++ todo, Idle q (applyAll todo t) := by
  induction todo generalizing done t with
  | nil =>
    rw [List.append_nil]
    exact hidle
  | cons r todo ih =>
    obtain ⟨hr, htodo⟩ := List.cons_subset.1 htodo
    rw [List.append_cons]
    refine ih (List.append_subset.2 ⟨hdone, List.cons_subset.2 ⟨hr, List.nil_subset _⟩⟩) htodo ?_
    refine List.forall_mem_append.2 ⟨fun q hq => ?_, List.forall_mem_singleton.2 ?_⟩
    · exact h.idle_apply_of_idle hr (hdone hq) (hidle q hq)
    · exact h.idle_apply hr t

end Final

theorem applyAll_of_idle (hsign : ∀ r ∈ rules, r.sign.toList ≠ [])
    (h : ∀ r ∈ rules, Idle r t) : applyAll rules t = t := by
  induction rules with
  | nil => rfl
  | cons r rules ih =>
    obtain ⟨hr, hrules⟩ := List.forall_mem_cons.1 h
    obtain ⟨hrsign, hsign⟩ := List.forall_mem_cons.1 hsign
    have happly : applyAll (r :: rules) t = applyAll rules (apply t r) := rfl
    rw [happly, hr.apply_eq hrsign, ih hsign hrules]

/-- Rules that give each other nothing to do have nothing to do behind themselves. -/
theorem Final.applyAll_applyAll (h : Final p rules) (t : Text) :
    applyAll rules (applyAll rules t) = applyAll rules t :=
  applyAll_of_idle (fun r hr => (h r hr).1)
    (h.idle_applyAll (List.nil_subset _) (List.Subset.refl _) nofun)

end Rule

namespace Sampa

/-- A character that may be part of a sign: the signs are ASCII, and a blank is in none. -/
def isSign (c : Char) : Bool := c.toNat < 0x80 && c ≠ ' '

theorem final_rules : Rule.Final isSign rules := by
  have hall : (rules.all fun r => !r.sign.toList.isEmpty && !r.sound.toList.isEmpty &&
      r.sign.toList.all isSign && (r.sign = r.sound || r.sound.toList.all (!isSign ·))) = true := by
    decide +kernel
  intro r hr
  simpa [and_assoc] using List.all_eq_true.1 hall r hr

theorem transcribe_transcribe (t : Text) : transcribe (transcribe t) = transcribe t :=
  final_rules.applyAll_applyAll t

end Sampa

/-! ## Formats that transcribe -/

namespace Style

variable {ctx : Context}

/-- The text that a format gives for a text that it transcribes. -/
def sounded (t : Text) : Text :=
  Scheme.document.shield (Sampa.transcribe (Scheme.document.deprotect t))

theorem put_phonetic (t : Text) : put t 'x' = sounded t := by
  unfold put sounded ofSpecifier?
  rfl

theorem inert_sounded (t : Text) : (sounded t).Inert := Scheme.inert_shield _

/-- Transcribing drops the codes that are not known, as far as the run tells. -/
theorem applyAll_phonetic (ctx : Context) (line : Nat) (t : Text) (s : RunState) :
    applyAll ctx line [] ['x'] t s = (do
      let u ← Run.deprotect .document t
      return Scheme.document.shield (Sampa.transcribe u) : Run Text) s := by
  simp [applyAll, ofSpecifier?, apply]

theorem applyAll_phonetic_eq_ok (ctx : Context) (line : Nat) (t : Text) (s : RunState) :
    ∃ s', applyAll ctx line [] ['x'] t s = .ok (sounded t) s' := by
  have hrun : ∃ s', applyAll ctx line [] ['x'] t s = .ok (['x'].foldl put t) s' :=
    applyAll_eq_ok ctx line (by simp [specifiers]) (by decide) (fun _ _ => List.not_mem_nil) t s
  rwa [List.foldl_cons, List.foldl_nil, put_phonetic] at hrun

theorem phonetic_yields (line : Nat) (t : Text) :
    (applyAll ctx line [] ['x'] t).Yields (sounded t) := by
  have hrun : (do
      let u ← Run.deprotect .document t
      return Scheme.document.shield (Sampa.transcribe u) : Run Text).Yields (sounded t) :=
    (Run.Yields.deprotect .document t).bind (.pure _)
  intro s hs
  rw [applyAll_phonetic]
  exact hrun s hs

/-- What has been transcribed is left alone by the next format, and nothing is noted. -/
theorem applyAll_sounded (ctx : Context) (line : Nat) (t : Text) (s : RunState) :
    applyAll ctx line [] ['x'] (sounded t) s = .ok (sounded t) s := by
  have hrestored := Run.deprotect_shielded (a := []) (b := []) List.not_mem_nil List.not_mem_nil
    (Sampa.transcribe (Scheme.document.deprotect t)) s
  rw [List.nil_append, List.append_nil, List.nil_append, List.append_nil] at hrestored
  rw [applyAll_phonetic, sounded, bind_of_ok hrestored, Sampa.transcribe_transcribe]
  rfl

theorem sounded_sounded (t : Text) : sounded (sounded t) = sounded t := by
  unfold sounded
  rw [(Scheme.Restores.shield _).deprotect_eq, Sampa.transcribe_transcribe]

end Style

/-- A format that transcribes a text. -/
def Directive.phonetic (t : Text) : Text := Directive.format.written [['x'], t]

/-- What has been protected has no backslash. -/
theorem Scheme.Protects.notMem {u v : Text} (h : Scheme.Protects u v) : '\\' ∉ v := by
  rw [← h.protect_eq]
  exact Scheme.notMem_protect h.fault?_eq

namespace Directive

variable {ctx : Context} {t : Text}

theorem phonetic_eq (t : Text) :
    phonetic t = ".format\x7bx\x7d\x7b".toList ++ t ++ ['\x7d'] := by
  simp [phonetic, written, Text.blocks, name]

theorem nested_phonetic (h : t.Nested) : (phonetic t).Nested :=
  nested_written _ (List.forall_mem_cons.2 ⟨by decide, List.forall_mem_singleton.2 h⟩)

theorem tidy_phonetic (h : t.Tidy) : (phonetic t).Tidy := by
  refine ⟨notMem_written _ (List.forall_mem_cons.2 ⟨by decide, ?_⟩), nested_phonetic h.nested⟩
  exact List.forall_mem_singleton.2 h.noEscape

/-- A format is protected as its text is. -/
theorem protects_phonetic {u : Text} (h : Scheme.Protects t u) :
    Scheme.Protects (phonetic t) (phonetic u) := by
  have hopening : Scheme.Protects ".format\x7bx\x7d\x7b".toList ".format\x7bx\x7d\x7b".toList :=
    .of_notMem (by decide)
  have hclosing : Scheme.Protects ['\x7d'] ['\x7d'] := .of_notMem (by decide)
  rw [phonetic_eq, phonetic_eq]
  exact (hopening.append h).append hclosing

theorem hasDirective_phonetic (a t b : Text) : (a ++ phonetic t ++ b).hasDirective = true := by
  refine Text.hasDirective_iff.2 ⟨phonetic t ++ b, ?_, ?_⟩
  · rw [List.append_assoc]
    exact List.suffix_append ..
  · unfold phonetic
    rw [directive?_written rfl]
    rfl

/-- A text without directives is transcribed by the stage of formats, whatever stands around. -/
theorem rewrites_phonetic (hnested : t.Nested) (ht : t.hasDirective = false) :
    Rewrites ctx .formats (phonetic t) (Style.sounded t) := by
  refine Rewrites.site (d := .format) rfl ?_ ?_ fun start stop line =>
    Style.phonetic_yields line t
  · exact List.forall_mem_cons.2 ⟨by decide, List.forall_mem_singleton.2 hnested⟩
  · have hname : Text.hasDirective ['x'] = false := Text.hasDirective_of_notMem (by decide)
    simp [hname, ht]

/-- A format waits while the stage resolves the directives in its text. -/
theorem rewrites_phonetic_waiting {u : Text} (hnested : t.Nested) (ht : t.hasDirective = true)
    (h : Rewrites ctx .formats t u) : Rewrites ctx .formats (phonetic t) (phonetic u) := by
  refine Rewrites.waiting (d := .format) [(['x'], ['x']), (t, u)] rfl ?_ ?_ ?_
  · exact List.forall_mem_cons.2 ⟨by decide, List.forall_mem_singleton.2 hnested⟩
  · simp [waits, ht]
  · exact List.forall_mem_cons.2 ⟨.kept (by decide), List.forall_mem_singleton.2 h⟩

/-- Of two formats one inside the other, the stage of formats takes the inner one. -/
theorem rewrites_phonetic_phonetic (hnested : t.Nested) (ht : t.hasDirective = false) :
    Rewrites ctx .formats (phonetic (phonetic t)) (phonetic (Style.sounded t)) := by
  have hinner := hasDirective_phonetic [] t []
  rw [List.nil_append, List.append_nil] at hinner
  exact rewrites_phonetic_waiting (nested_phonetic hnested) hinner (rewrites_phonetic hnested ht)

theorem lacks_phonetic {f : Family} (hf : f ≠ .formats) (h : t.Lacks f) :
    (phonetic t).Lacks f := by
  refine lacks_written rfl (Ne.symm hf) (List.forall_mem_cons.2 ⟨?_, ?_⟩)
  · exact Text.lacks_of_hasDirective (Text.hasDirective_of_notMem (by decide)) f
  · exact List.forall_mem_singleton.2 h

/-- The stages of other families leave both alone. -/
theorem rewrites_phonetic_of_ne {f : Family} (hf : f ≠ .formats) (h : t.Lacks f) :
    Rewrites ctx f (phonetic t) (phonetic t) := by
  have hlacks := lacks_phonetic hf h
  rw [phonetic_eq] at hlacks ⊢
  refine .of_lacks Text.isBoundary_closing fun s d hs hd => ?_
  refine hlacks (s ++ ['\x7d']) d (List.suffix_append_self_iff.2 hs) ?_
  rwa [Text.directive?_append_cons Text.isBoundary_closing]

end Directive

/-! ## Documents with a format that transcribes -/

/-- Texts without full stops between which a document has something else. -/
structure Text.Frame (a b : Text) : Prop where
  noStop : '.' ∉ a ++ b
  noEscape : '\\' ∉ a ++ b
  nested : (a ++ b).Nested

namespace Text.Frame

variable {ctx : Context} {a b u v : Text}

/-- What is put between the two is nested if it is nested itself. -/
theorem nested_between (h : Frame a b) (hu : u.Nested) : (a ++ u ++ b).Nested := by
  have hframe := h.nested
  unfold Nested at hframe ⊢
  rw [level_append] at hframe
  rw [level_append, level_append, Option.bind_assoc]
  simpa only [hu.level, Option.bind_some] using hframe

theorem notMem_between (h : Frame a b) (hu : '\\' ∉ u) : '\\' ∉ a ++ u ++ b := by
  have := h.noEscape
  simp_all

/-- A stage does to what is between the two what it does to it alone. -/
theorem rewrites_between {f : Family} (h : Frame a b) (hu : Rewrites ctx f u v) :
    Rewrites ctx f (a ++ u ++ b) (a ++ v ++ b) := by
  have hstop := h.noStop
  rw [List.mem_append, not_or] at hstop
  exact ((Rewrites.kept hstop.1).append hu).append (.kept hstop.2)

/-- A pass transcribes. -/
theorem pass_yields (h : Frame a b) (hu : u.Tidy) (hv : v.Tidy)
    (hidle : ∀ f, f ≠ .formats → Rewrites ctx f u u ∧ Rewrites ctx f v v)
    (hformats : Rewrites ctx .formats u v) :
    (Preprocess.pass ctx (a ++ u ++ b)).Yields (a ++ v ++ b) :=
  Preprocess.pass_yields (h.notMem_between hu.noEscape) (h.nested_between hu.nested)
    (h.notMem_between hv.noEscape) (h.nested_between hv.nested)
    (fun f hf => h.rewrites_between (hidle f hf).1) (h.rewrites_between hformats)
    (fun f hf => h.rewrites_between (hidle f hf).2)

end Text.Frame

namespace Preprocess

variable {ctx : Context} {t u v w : Text} {n : Nat}

/-- So many passes lead from a buffer to one without directives. -/
inductive Resolves (ctx : Context) : Nat → Text → Text → Prop where
  | done {u : Text} (resolved : u.hasDirective = false) : Resolves ctx 0 u u
  | pass {n : Nat} {u v w : Text} (directive : u.hasDirective = true)
      (yields : (Preprocess.pass ctx u).Yields v) (behind : Resolves ctx n v w) :
      Resolves ctx (n + 1) u w

theorem converge_of_resolves (h : Resolves ctx n u w) {fuel : Nat} {s : RunState}
    (hs : s.pending = []) (hfuel : n ≤ fuel)
    (hpasses : ctx.settings.maxPasses = 0 ∨ s.passes + n ≤ ctx.settings.maxPasses) :
    ∃ s', converge ctx fuel u s = .ok w s' := by
  induction h generalizing fuel s with
  | done hresolved =>
    rw [converge_of_resolved hresolved]
    exact ⟨s, rfl⟩
  | pass hdirective hyields _ ih =>
    obtain ⟨fuel, rfl⟩ := Nat.exists_eq_add_of_le' (Nat.le_trans (Nat.succ_pos _) hfuel)
    obtain ⟨s₁, hpass, hs₁⟩ := hyields s.nextPass hs
    have hcount : s₁.passes = s.passes + 1 := hs₁.passes
    obtain ⟨s₂, hrest⟩ := ih (hs₁.pending.trans hs) (Nat.le_of_succ_le_succ hfuel) (by omega)
    exact ⟨s₂, (converge_eq_ok_iff hdirective).2 ⟨by omega, _, s₁, hpass, hrest⟩⟩

theorem preprocess_of_resolves (hprotects : Scheme.Protects t u) (hnested : u.Nested)
    (h : Resolves ctx n u w)
    (hpasses : ctx.settings.maxPasses = 0 ∨ n ≤ ctx.settings.maxPasses)
    (hpatience : ctx.settings.maxPasses = 0 → n ≤ ctx.patience) :
    ∃ s, preprocess ctx t = .ok w s := by
  obtain ⟨s₁, hs₁, hsource⟩ := source_of_converge ctx (s := {}) rfl hprotects.fault?_eq
    (by rw [hprotects.protect_eq]; exact hnested.braces_eq)
  have hfuel : n ≤ fuel ctx := by
    unfold fuel
    split
    · exact hpatience ‹_›
    · omega
  have hcount : s₁.passes = 0 := hs₁.passes
  rw [hprotects.protect_eq] at hsource
  obtain ⟨s₂, hconverge⟩ := converge_of_resolves h hs₁.pending hfuel (by omega)
  obtain ⟨s₃, -, hresult⟩ := hsource _ _ hconverge
  exact ⟨s₃, hresult⟩

/-- One pass transcribes a text between two others. -/
theorem resolves_phonetic {a b : Text} (hframe : Text.Frame a b) (ht : t.Tidy)
    (hresolved : t.hasDirective = false) :
    Resolves ctx 1 (a ++ Directive.phonetic t ++ b) (a ++ Style.sounded t ++ b) := by
  have hinert := Style.inert_sounded t
  have hstop : '.' ∉ a ++ Style.sounded t ++ b := by
    have := hframe.noStop
    have := hinert.notMem (c := '.') rfl
    simp_all
  refine .pass (Directive.hasDirective_phonetic a t b) (hframe.pass_yields ?_ (.of_inert hinert)
    (fun f hf => ⟨?_, .kept (hinert.notMem rfl)⟩)
    (Directive.rewrites_phonetic ht.nested hresolved))
    (.done (Text.hasDirective_of_notMem hstop))
  · exact Directive.tidy_phonetic ht
  · exact Directive.rewrites_phonetic_of_ne hf (Text.lacks_of_hasDirective hresolved f)

/-- With another format around it, it takes one pass more and comes to the same. -/
theorem resolves_phonetic_phonetic {a b : Text} (hframe : Text.Frame a b) (ht : t.Tidy)
    (hresolved : t.hasDirective = false) :
    Resolves ctx 2 (a ++ Directive.phonetic (Directive.phonetic t) ++ b)
      (a ++ Style.sounded t ++ b) := by
  have hinert := Style.inert_sounded t
  have hagain : Resolves ctx 1 _ _ := resolves_phonetic hframe (.of_inert hinert)
    (Text.hasDirective_of_notMem (hinert.notMem rfl))
  rw [Style.sounded_sounded] at hagain
  refine .pass (Directive.hasDirective_phonetic a _ b) (hframe.pass_yields ?_ ?_
    (fun f hf => ⟨?_, ?_⟩) (Directive.rewrites_phonetic_phonetic ht.nested hresolved)) hagain
  · exact Directive.tidy_phonetic (Directive.tidy_phonetic ht)
  · exact Directive.tidy_phonetic (.of_inert hinert)
  · have hlacks := Directive.lacks_phonetic hf (Text.lacks_of_hasDirective hresolved f)
    exact Directive.rewrites_phonetic_of_ne hf hlacks
  · exact Directive.rewrites_phonetic_of_ne hf (Text.lacks_of_hasDirective
      (Text.hasDirective_of_notMem (hinert.notMem rfl)) f)

end Preprocess

/-- Transcribing twice is transcribing once. So a format that transcribes leaves alone what such a
format has given, and one inside another is the same as one: the stage of formats takes the inner
one first, whatever stands around, and then gives for the outer one what it has given for the inner
one; and with no other directive around, the document becomes what it becomes with one. -/
theorem format_phonetic_idempotent (ctx : Context) :
    (∀ t, Sampa.transcribe (Sampa.transcribe t) = Sampa.transcribe t) ∧
    (∀ line t s, ∃ u s', Style.applyAll ctx line [] ['x'] t s = .ok u s' ∧
      ∀ line s, Style.applyAll ctx line [] ['x'] u s = .ok u s) ∧
    (∀ t : Text, t.Nested → t.hasDirective = false →
      ∃ u, Rewrites ctx .formats (Directive.phonetic t) u ∧
        Rewrites ctx .formats (Directive.phonetic (Directive.phonetic t)) (Directive.phonetic u) ∧
        Rewrites ctx .formats (Directive.phonetic u) u) ∧
    ∀ a b a' b' t t' : Text, Scheme.Protects a a' → Scheme.Protects b b' → Scheme.Protects t t' →
      Text.Frame a' b' → t'.Nested → t'.hasDirective = false →
      (ctx.settings.maxPasses = 0 ∨ 2 ≤ ctx.settings.maxPasses) →
      (ctx.settings.maxPasses = 0 → 2 ≤ ctx.patience) →
      ∃ u s s', preprocess ctx (a ++ Directive.phonetic t ++ b) = .ok u s ∧
        preprocess ctx (a ++ Directive.phonetic (Directive.phonetic t) ++ b) = .ok u s' := by
  refine ⟨Sampa.transcribe_transcribe, fun line t s => ?_, fun t hnested hresolved => ?_, ?_⟩
  · obtain ⟨s', hrun⟩ := Style.applyAll_phonetic_eq_ok ctx line t s
    exact ⟨_, s', hrun, fun line s => Style.applyAll_sounded ctx line t s⟩
  · have hinert := Style.inert_sounded t
    have hagain : Rewrites ctx .formats _ _ := Directive.rewrites_phonetic hinert.nested
      (Text.hasDirective_of_notMem (hinert.notMem rfl))
    rw [Style.sounded_sounded] at hagain
    exact ⟨_, Directive.rewrites_phonetic hnested hresolved,
      Directive.rewrites_phonetic_phonetic hnested hresolved, hagain⟩
  · intro a b a' b' t t' ha hb ht hframe hnested hresolved hpasses hpatience
    have htidy : t'.Tidy := ⟨ht.notMem, hnested⟩
    have honce := (ha.append (Directive.protects_phonetic ht)).append hb
    have htwice :=
      (ha.append (Directive.protects_phonetic (Directive.protects_phonetic ht))).append hb
    obtain ⟨s, hs⟩ := Preprocess.preprocess_of_resolves honce
      (hframe.nested_between (Directive.nested_phonetic hnested))
      (Preprocess.resolves_phonetic hframe htidy hresolved) (by omega)
      (fun h => Nat.le_of_succ_le (hpatience h))
    obtain ⟨s', hs'⟩ := Preprocess.preprocess_of_resolves htwice
      (hframe.nested_between (Directive.nested_phonetic (Directive.nested_phonetic hnested)))
      (Preprocess.resolves_phonetic_phonetic hframe htidy hresolved) hpasses hpatience
    exact ⟨_, s, s', hs, hs'⟩

/-- A text with two escape pairs, in a paragraph. -/
theorem format_phonetic_idempotent_escaped :
    (Text.Nested "@#\x27:[;:LB]h@#\x27:[;:BS]".toList ∧
      Text.hasDirective "@#\x27:[;:LB]h@#\x27:[;:BS]".toList = false) ∧
    (Scheme.Protects "main\x7btext\x7b".toList "main\x7btext\x7b".toList ∧
      Scheme.Protects "\x7d\x7d".toList "\x7d\x7d".toList ∧
      Scheme.Protects "\\\x7bh\\\\".toList "@#\x27:[;:LB]h@#\x27:[;:BS]".toList ∧
      Text.Frame "main\x7btext\x7b".toList "\x7d\x7d".toList) ∧
    ∃ u s s',
      preprocess {} "main\x7btext\x7b.format\x7bx\x7d\x7b\\\x7bh\\\\\x7d\x7d\x7d".toList = .ok u s ∧
      preprocess {} ("main\x7btext\x7b.format\x7bx\x7d\x7b.format\x7bx\x7d\x7b".toList ++
        "\\\x7bh\\\\\x7d\x7d\x7d\x7d".toList) = .ok u s' := by
  have hnested : Text.Nested "@#\x27:[;:LB]h@#\x27:[;:BS]".toList := by decide
  have hresolved : Text.hasDirective "@#\x27:[;:LB]h@#\x27:[;:BS]".toList = false :=
    Text.hasDirective_of_notMem (by decide)
  have hopening : Scheme.Protects "main\x7btext\x7b".toList "main\x7btext\x7b".toList :=
    .of_notMem (by decide)
  have hclosing : Scheme.Protects "\x7d\x7d".toList "\x7d\x7d".toList := .of_notMem (by decide)
  have htext : Scheme.Protects "\\\x7bh\\\\".toList "@#\x27:[;:LB]h@#\x27:[;:BS]".toList :=
    Scheme.protects_of_fault? (by decide +kernel)
  have hframe : Text.Frame "main\x7btext\x7b".toList "\x7d\x7d".toList :=
    ⟨by decide, by decide, by decide⟩
  obtain ⟨-, -, -, hdocument⟩ := format_phonetic_idempotent {}
  obtain ⟨u, s, s', hs, hs'⟩ := hdocument _ _ _ _ _ _ hopening hclosing htext hframe hnested
    hresolved (.inr (by decide)) nofun
  exact ⟨⟨hnested, hresolved⟩, ⟨hopening, hclosing, htext, hframe⟩, u, s, s', hs, hs'⟩

end Bracemark
