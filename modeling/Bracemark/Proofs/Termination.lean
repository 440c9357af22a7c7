import Bracemark.Proofs.History
import Bracemark.Proofs.NormalForm
import Bracemark.Proofs.Uncounted

/-!
# Progress and termination

A pass that succeeds has resolved a directive (`Preprocess.attempted_of_pass`). The last directive
of a buffer has none in its blocks, so it does not wait: in the stage of its family it is a site,
unless an earlier stage has changed the buffer, and that takes a site too.

A definition, a link, a format and a code point give a text with fewer full stops than what is
written in their place, as the full stop of the keyword is gone (`Resolve.count_of_gives`). So a
run that resolves nothing else begins no more passes than its protected source has full stops, and
ends before a bound that is not smaller (`preprocess_terminates`).
-/

namespace Bracemark

/-! ## The last directive of a buffer -/

namespace Text

/-- The last directive of a text has none behind it. -/
theorem exists_last_directive {t : Text} (h : t.hasDirective = true) :
    ∃ d rest, '.' :: rest <:+ t ∧ directive? ('.' :: rest) = some d ∧
      hasDirective rest = false := by
  induction t with
  | nil => cases h
  | cons c rest ih =>
    cases hrest : hasDirective rest with
    | true =>
      obtain ⟨d, rest', hsuffix, hd⟩ := ih hrest
      exact ⟨d, rest', hsuffix.trans (List.suffix_cons c rest), hd⟩
    | false =>
      obtain ⟨s, hs, hsome⟩ := hasDirective_iff.1 h
      rcases List.suffix_cons_iff.1 hs with rfl | hs
      · obtain ⟨d, hd⟩ := Option.isSome_iff_exists.1 hsome
        obtain ⟨rfl, -⟩ := eq_of_directive? hd
        exact ⟨d, rest, List.suffix_rfl, hd, hrest⟩
      · rw [hasDirective_iff.2 ⟨s, hs, hsome⟩] at hrest
        cases hrest

/-- A keyword is read in front of a brace as it is at the end of a text. -/
theorem directive?_append_closing {s : Text} (h : (directive? s).isSome) (post : Text) :
    (directive? (s ++ '\x7d' :: post)).isSome := by
  cases s with
  | nil => cases h
  | cons c s =>
    obtain ⟨d, hd⟩ := Option.isSome_iff_exists.1 h
    obtain ⟨rfl, -⟩ := eq_of_directive? hd
    rw [directive?_stop] at h
    rwa [List.cons_append, directive?_stop, takeWhile_append_cons rfl]

/-- A directive in a block is a directive of the text. -/
theorem Spaced.hasDirective {us : List Text} {w : Text} (h : Spaced us w) {u : Text}
    (hu : u ∈ us) (hd : u.hasDirective = true) (v : Text) : (w ++ v).hasDirective = true := by
  have hplace : ∃ pre post, w = pre ++ u ++ '\x7d' :: post := by
    induction h with
    | nil => cases hu
    | @cons gap u' rest us _ _ _ ih =>
      rcases List.mem_cons.1 hu with rfl | hu
      · exact ⟨gap ++ ['\x7b'], rest, by simp⟩
      · obtain ⟨pre, post, rfl⟩ := ih hu
        exact ⟨gap ++ '\x7b' :: u' ++ '\x7d' :: pre, post, by simp⟩
  obtain ⟨pre, post, rfl⟩ := hplace
  obtain ⟨s, ⟨front, rfl⟩, hs⟩ := hasDirective_iff.1 hd
  rw [hasDirective_iff]
  refine ⟨s ++ '\x7d' :: (post ++ v), ⟨pre ++ front, ?_⟩, directive?_append_closing hs _⟩
  simp only [List.append_assoc, List.cons_append]

end Text

namespace Stretch

variable {family : Family} {t : Text}

theorem step_of_kept {c x : Char} {rest : Text} (h : (step family c rest).1 = .kept x) :
    step family c rest = (.kept c, 0) := by
  unfold step at h ⊢
  split at h
  · rfl
  split at h
  · rename_i hfamily
    rw [if_pos hfamily]
    split at h
    · cases h
    · split at h
      · rename_i hwaits
        simp only [hwaits, if_true]
      · cases h
  · rename_i hfamily
    rw [if_neg hfamily]

/-- Where everything is kept, the scan comes to every character. -/
theorem step_of_suffix (h : ∀ w ∈ ofText family t, ∃ c, w = .kept c) {c : Char} {rest : Text}
    (hs : c :: rest <:+ t) : step family c rest = (.kept c, 0) := by
  induction t with
  | nil => cases List.suffix_nil.1 hs
  | cons x t ih =>
    rw [ofText, segment_zero_cons] at h
    obtain ⟨⟨y, hy⟩, htail⟩ := List.forall_mem_cons.1 h
    have hx := step_of_kept hy
    rw [hx, List.drop_zero] at htail
    rcases List.suffix_cons_iff.1 hs with he | hs
    · cases he
      exact hx
    · exact ih htail hs

/-- The last directive of a buffer does not wait, so the scan for its family keeps not all. -/
theorem exists_not_kept (h : t.hasDirective = true) :
    ∃ f, ¬∀ w ∈ ofText f t, ∃ c, w = .kept c := by
  obtain ⟨d, rest, hsuffix, hd, hrest⟩ := Text.exists_last_directive h
  refine ⟨d.family, fun hkept => ?_⟩
  have hstep := step_of_suffix hkept hsuffix
  unfold step at hstep
  rw [hd] at hstep
  simp only [if_true] at hstep
  split at hstep
  · cases hstep
  rename_i arguments after hread
  split at hstep
  · -- a directive in one of its blocks would stand behind it
    rename_i hwaits
    obtain ⟨-, hwaits⟩ := Bool.and_eq_true_iff.1 hwaits
    obtain ⟨u, hu, hdirective⟩ := List.any_eq_true.1 hwaits
    obtain ⟨-, w, hw, hdrop⟩ := Text.spaced_of_readBlocks hread
    have hinside := hw.hasDirective hu hdirective after
    rw [← hdrop] at hinside
    obtain ⟨s, hs, hsome⟩ := Text.hasDirective_iff.1 hinside
    rw [Text.hasDirective_iff.2 ⟨s, hs.trans (List.drop_suffix _ _), hsome⟩] at hrest
    cases hrest
  · cases hstep

theorem flatten_of_siteCount {P : Directive → List Text → Text → Prop} {ws : List Stretch}
    {vs : List Text} (h : List.Forall₂ (Becomes P) ws vs) (hcount : siteCount ws = 0) :
    vs.flatten = ws.flatMap written ∧ ∀ w ∈ ws, ∃ c, w = .kept c := by
  induction h with
  | nil => exact ⟨rfl, nofun⟩
  | @cons w v ws vs hw _ ih =>
    cases w with
    | site d us w => cases hcount
    | fault f => cases hw
    | kept c =>
      obtain rfl : v = [c] := hw
      obtain ⟨hflatten, hkept⟩ := ih hcount
      refine ⟨?_, List.forall_mem_cons.2 ⟨⟨c, rfl⟩, hkept⟩⟩
      rw [List.flatten_cons, hflatten, List.flatMap_cons, written]

end Stretch

/-! ## Progress -/

namespace Preprocess

variable {ctx : Context} {f : Family} {fs : List Family} {t u : Text} {s s' : RunState}

/-- A family that takes up nothing leaves its buffer as it is. -/
theorem eq_of_family (h : Resolve.family ctx f t s = .ok u s')
    (hnone : stageAttempts ctx f t s = []) :
    u = t ∧ ∀ w ∈ Stretch.ofText f t, ∃ c, w = .kept c := by
  obtain ⟨-, vs, hvs, rfl, hlength⟩ := becomes_of_family (fun _ => True) (fun _ _ _ => True) h
    (fun _ _ _ _ => trivial) trivial fun _ _ _ _ _ _ _ => ⟨trivial, trivial⟩
  rw [hnone] at hlength
  obtain ⟨hflatten, hkept⟩ := Stretch.flatten_of_siteCount hvs hlength.symm
  exact ⟨hflatten.trans (Stretch.flatMap_written_of_becomes hvs), hkept⟩

/-- Stages with a directive of theirs in front of them take up a site. -/
theorem attempted_of_stages (h : fs.foldlM (stage ctx) t s = .ok u s') (ht : '\\' ∉ t)
    (hlast : .replacements ∉ fs.dropLast) (hf : f ∈ fs)
    (hkept : ¬∀ w ∈ Stretch.ofText f t, ∃ c, w = .kept c) : stagesAttempts ctx fs t s ≠ [] := by
  induction fs generalizing t s with
  | nil => cases hf
  | cons g fs ih =>
    intro hnil
    rw [List.foldlM_cons] at h
    obtain ⟨v, s₁, hstage, hrest⟩ := bind_eq_ok.1 h
    rw [stagesAttempts, hstage, List.append_eq_nil_iff] at hnil
    obtain ⟨hnone, hothers⟩ := hnil
    obtain ⟨v', s₂, hbare, -, rfl, -, -⟩ := eq_of_stage hstage
    obtain ⟨w, s₃, hfamily, -⟩ := family_of_bareStage hbare
    obtain ⟨rfl, hidle⟩ := eq_of_family hfamily hnone
    rcases List.mem_cons.1 hf with rfl | hf
    · exact hkept hidle
    · -- there is a stage behind this one, so this one does nothing but resolve its family
      have hne : fs ≠ [] := List.ne_nil_of_mem hf
      rw [List.dropLast_cons_of_ne_nil hne, List.mem_cons, not_or] at hlast
      obtain ⟨hg, hlast⟩ := hlast
      rw [bareStage_of_ne (Ne.symm hg), hfamily] at hbare
      cases hbare
      rw [Scheme.protect_of_notMem ht] at hrest hothers
      exact ih hrest ht hlast hf hkept hothers

theorem isSome_of_stages (h : fs.foldlM (stage ctx) t s = .ok u s') :
    ∀ a ∈ stagesAttempts ctx fs t s, a.text?.isSome := by
  induction fs generalizing t s with
  | nil => exact nofun
  | cons f fs ih =>
    rw [List.foldlM_cons] at h
    obtain ⟨v, s₁, hstage, h⟩ := bind_eq_ok.1 h
    rw [stagesAttempts, hstage]
    obtain ⟨v', s₂, hbare, -⟩ := eq_of_stage hstage
    obtain ⟨w, s₃, hfamily, -⟩ := family_of_bareStage hbare
    obtain ⟨edits, s₄, hsites, -⟩ := bind_eq_ok.1 hfamily
    exact List.forall_mem_append.2 ⟨Resolve.isSome_of_attempts hsites, ih h⟩

/-- A pass over a buffer with a directive resolves one, if it succeeds. -/
theorem attempted_of_pass (h : pass ctx t s = .ok u s') (ht : '\\' ∉ t)
    (hdirective : t.hasDirective = true) : ∃ a ∈ passAttempts ctx t s, a.text?.isSome := by
  obtain ⟨f, hkept⟩ := Stretch.exists_not_kept hdirective
  have hf : f ∈ Family.all := by cases f <;> decide
  obtain ⟨a, ha⟩ := List.exists_mem_of_ne_nil _
    (attempted_of_stages h ht (by decide) hf hkept)
  exact ⟨a, ha, isSome_of_stages h a ha⟩

end Preprocess

/-! ## Counting full stops -/

/-- Whether the text of a directive may hold more full stops than what is written in its place. -/
def Directive.expands : Directive → Bool
  | .useMacro | .includeFile | .importTable | .replaceAll => true
  | .defineMacro | .link | .format | .codePoint => false

theorem Text.Inert.count_stop {t : Text} (h : t.Inert) : t.count '.' = 0 :=
  List.count_eq_zero.2 (h.notMem rfl)

theorem Style.count_formatted_le (spec t : Text) :
    (formatted spec t).count '.' ≤ t.count '.' := by
  refine formatted_induction (P := fun u => u.count '.' ≤ t.count '.') (fun u c hu => ?_) spec
    (Nat.le_refl _)
  rcases put_cases u c with hput | ⟨a, b, ha, hb, hput⟩
  · rw [hput.count_stop]
    exact Nat.zero_le _
  · rw [hput, List.count_append, List.count_append, ha.count_stop, hb.count_stop]
    omega

/-- Protection adds no full stop: a code holds none. -/
theorem Scheme.count_protect_le (t : Text) :
    (document.protect t).count '.' ≤ t.count '.' := by
  have hpiece (p : Piece) : (document.protectPiece p).count '.' ≤ p.written.count '.' := by
    cases p with
    | escaped c =>
      rw [protectPiece]
      split
      · rename_i g hg
        rw [(coded_of_tag? hg).inert.count_stop]
        exact Nat.zero_le _
      · exact Nat.le_refl _
    | plain c => exact Nat.le_refl _
    | dangling => exact Nat.le_refl _
  have hwritten (ps : List Piece) :
      (ps.flatMap document.protectPiece).count '.' ≤ (ps.flatMap Piece.written).count '.' := by
    induction ps with
    | nil => exact Nat.le_refl _
    | cons p ps ih =>
      rw [List.flatMap_cons, List.flatMap_cons, List.count_append, List.count_append]
      exact Nat.add_le_add (hpiece p) ih
  have h := hwritten (Piece.ofText t)
  rwa [Piece.flatMap_written] at h

namespace Resolve

variable {ctx : Context} {site : Site} {s s' : RunState} {v w : Text}

theorem count_linkText (text url : Text) :
    (linkText text url).count '.' = url.count '.' + text.count '.' := by
  obtain ⟨a, b, c, ha, hb, hc, hlink⟩ := linkText_eq
  simp only [hlink, List.count_append, ha.count_stop, hb.count_stop, hc.count_stop,
    Nat.zero_add, Nat.add_zero]

/-- All other directives give a text with no more full stops than there are in its blocks. -/
theorem count_of_gives (h : Gives ctx site s v s') (hexpands : site.directive.expands = false)
    (harity : site.arguments.length = site.directive.arity) :
    v.count '.' ≤ (site.arguments.map (List.count '.')).sum := by
  unfold Gives at h
  cases hd : site.directive with
  | defineMacro =>
    simp only [hd] at h
    rw [h.1]
    exact Nat.zero_le _
  | link =>
    simp only [hd] at h
    rw [hd] at harity
    obtain ⟨text, url, harguments⟩ := List.length_eq_two.1 harity
    rw [h.1, count_linkText, Site.first, Site.second, harguments]
    simp only [List.headD_cons, List.tail_cons, List.map_cons, List.map_nil, List.sum_cons,
      List.sum_nil]
    omega
  | format =>
    simp only [hd] at h
    rw [hd] at harity
    obtain ⟨spec, body, harguments⟩ := List.length_eq_two.1 harity
    have := Style.count_formatted_le spec body
    rw [h.1, Site.first, Site.second, harguments]
    simp only [List.headD_cons, List.tail_cons, List.map_cons, List.map_nil, List.sum_cons,
      List.sum_nil]
    omega
  | codePoint =>
    simp only [hd] at h
    obtain ⟨-, c, -, hv⟩ := h
    rw [hv, (Scheme.inert_shield _).count_stop]
    exact Nat.zero_le _
  | _ =>
    rw [hd] at hexpands
    cases hexpands

end Resolve

/-- What is counted for each site adds up. -/
theorem Stretch.count_of_becomes {ws : List Stretch} {vs : List Text}
    (h : List.Forall₂ (Becomes fun _ us v => v.count '.' ≤ (us.map (List.count '.')).sum) ws vs)
    (hshaped : ∀ d us w, .site d us w ∈ ws → Shaped d us w) :
    vs.flatten.count '.' + siteCount ws ≤ (ws.flatMap written).count '.' := by
  induction h with
  | nil => exact Nat.le_refl _
  | @cons w v ws vs hw _ ih =>
    have hothers := ih fun d us w hmem => hshaped d us w (List.mem_cons_of_mem _ hmem)
    rw [List.flatten_cons, List.flatMap_cons, List.count_append, List.count_append]
    cases w with
    | fault f => cases hw
    | kept c =>
      obtain rfl : v = [c] := hw
      simp only [written, siteCount]
      omega
    | site d us w =>
      have hsite : v.count '.' ≤ (us.map (List.count '.')).sum := hw
      have hwritten := (hshaped d us w List.mem_cons_self).count_stop
      simp only [written, siteCount]
      omega

namespace Preprocess

variable {ctx : Context} {f : Family} {fs : List Family} {t u : Text} {s s' : RunState}

/-- Putting the text of a directive that does not expand in the place of its site lowers the number
of full stops, whatever already stands behind the site. -/
theorem count_of_attempts {a : Attempt} (h : a ∈ stageAttempts ctx f t s) {v : Text}
    (hv : a.text? = some v) (hexpands : a.site.directive.expands = false) (behind : Text) :
    (Edit.apply (t.take a.site.stop ++ behind) ⟨a.site.start, a.site.stop, v⟩).count '.' <
      (t.take a.site.stop ++ behind).count '.' := by
  obtain ⟨-, u, w, v', rfl, hstart, hstop, hshaped⟩ := shaped_of_attempts h
  obtain ⟨s₁, s₂, hgives⟩ := Resolve.gives_of_attempts h hv
  have hcount := Resolve.count_of_gives hgives hexpands hshaped.arity
  have hwritten := hshaped.count_stop
  rw [Edit.apply, hstart, hstop, List.take_left, List.drop_left, List.append_assoc u w behind,
    List.take_left]
  simp only [List.count_append]
  omega

/-- A stage in which no directive expands lowers the number of full stops by one for every
site. -/
theorem count_of_stage (h : stage ctx t f s = .ok u s') (hs : s.pending = [])
    (hexpands : ∀ a ∈ stageAttempts ctx f t s, a.site.directive.expands = false) :
    u.count '.' + (stageAttempts ctx f t s).length ≤ t.count '.' := by
  obtain ⟨v, s₁, hbare, -, rfl, -, -⟩ := eq_of_stage h
  obtain ⟨v', s₂, hfamily, hrest⟩ := family_of_bareStage hbare
  have hpending : s₂.pending = [] := by
    refine pending_of_family hfamily hs fun a ha _ hd => ?_
    have := hexpands a ha
    rw [hd] at this
    cases this
  obtain ⟨rfl, -⟩ := hrest hpending
  have hsite (a) (ha : a ∈ stageAttempts ctx f t s) (s v s') (_ : True)
      (hgives : Resolve.Gives ctx a.site s v s') :
      v.count '.' ≤ (a.site.arguments.map (List.count '.')).sum ∧ True := by
    obtain ⟨-, _, _, _, -, -, -, hshaped⟩ := shaped_of_attempts ha
    exact ⟨Resolve.count_of_gives hgives (hexpands a ha) hshaped.arity, trivial⟩
  obtain ⟨-, vs, hvs, rfl, hlength⟩ := becomes_of_family (fun _ => True)
    (fun _ us v => v.count '.' ≤ (us.map (List.count '.')).sum) hfamily
    (fun _ _ _ _ => trivial) trivial hsite
  have hprotect := Scheme.count_protect_le vs.flatten
  have hcount := Stretch.count_of_becomes hvs fun d us w hmem => (Stretch.shaped_of_mem hmem).2
  have hwritten := (Stretch.flatMap_written_prefix f t).sublist.count_le '.'
  omega

theorem count_of_stages (h : fs.foldlM (stage ctx) t s = .ok u s') (hs : s.pending = [])
    (hexpands : ∀ a ∈ stagesAttempts ctx fs t s, a.site.directive.expands = false) :
    u.count '.' + (stagesAttempts ctx fs t s).length ≤ t.count '.' := by
  induction fs generalizing t s with
  | nil =>
    cases h
    exact Nat.le_refl _
  | cons f fs ih =>
    rw [List.foldlM_cons] at h
    obtain ⟨v, s₁, hstage, h⟩ := bind_eq_ok.1 h
    rw [stagesAttempts, hstage] at hexpands ⊢
    obtain ⟨hfirst, hothers⟩ := List.forall_mem_append.1 hexpands
    have hcount := count_of_stage hstage hs hfirst
    have hrest := ih h (pending_of_stage hstage hs) hothers
    rw [List.length_append]
    simp only [onward] at hrest ⊢
    omega

end Preprocess

/-! ## Runs that end -/

/-- Whether a run has ended because it has come to its bound on passes. -/
def Failure.exhausted : Failure → Bool
  | .outOfPatience => true
  | .diagnostic d => match d.cause with
    | .notConverged _ => true
    | _ => false
  | _ => false

namespace Preprocess

variable {ctx : Context} {f : Family} {fs : List Family} {t u : Text} {s s' : RunState}
  {e : Failure}

theorem exhausted_escapeDiagnostic (file t : Text) (f : EscapeFault) :
    (Failure.diagnostic (Run.escapeDiagnostic file t f)).exhausted = false := by
  unfold Run.escapeDiagnostic Failure.exhausted
  cases f.character? <;> rfl

theorem exhausted_of_refuses {site : Site} (h : Resolve.Refuses ctx site e) :
    e.exhausted = false := by
  cases h with
  | unreadable hd he =>
    cases he with
    | refused => rcases hd with ⟨-, rfl⟩ | ⟨-, rfl⟩ <;> rfl
    | nul | encoding => rfl
  | unanchored hd hcontents he =>
    cases he with
    | escape => exact exhausted_escapeDiagnostic ..
    | block => rfl
  | unformatted hd he => cases he <;> rfl
  | _ => rfl

theorem exhausted_of_unsettled (h : Unsettled ctx t e) : e.exhausted = false := by
  cases h with
  | escape => exact exhausted_escapeDiagnostic ..
  | unbalanced => rfl

/-- The bound on passes is no concern of a stage. -/
theorem exhausted_of_fails (h : Fails ctx f t s e) : e.exhausted = false := by
  cases h with
  | fault => rfl
  | refused ha hnone h => exact exhausted_of_refuses h
  | unsubstituted hf hfamily hsub h => cases h <;> rfl
  | unsettled hbare h => exact exhausted_of_unsettled h

theorem exhausted_of_stages (h : fs.foldlM (stage ctx) t s = .error e s') :
    e.exhausted = false := by
  induction fs generalizing t s with
  | nil => cases h
  | cons f fs ih =>
    rw [List.foldlM_cons] at h
    rcases bind_eq_error.1 h with h | ⟨v, s₁, -, h⟩
    · exact exhausted_of_fails (fails_of_stage h)
    · exact ih h

theorem count_pos {t : Text} (h : t.hasDirective = true) : 0 < t.count '.' := by
  refine List.count_pos_iff.2 ?_
  by_contra hnone
  rw [Text.hasDirective_of_notMem hnone] at h
  cases h

/-- Every pass that begins has a full stop of the buffer to itself. -/
theorem converges_cases {fuel : Nat} {as : List Attempt}
    {r : EStateM.Result Failure RunState Text} (h : Converges ctx fuel t s as r)
    (hs : s.pending = []) (ht : t.Settled)
    (hexpands : ∀ a ∈ as, a.text?.isSome → a.site.directive.expands = false) :
    (∃ v s', r = .ok v s' ∧ s'.passes ≤ s.passes + t.count '.') ∨
    (∃ e s', r = .error e s' ∧ s'.passes ≤ s.passes + t.count '.' ∧
      (t.count '.' ≤ fuel →
        ctx.settings.maxPasses = 0 ∨ s.passes + t.count '.' ≤ ctx.settings.maxPasses →
        e.exhausted = false)) := by
  induction h with
  | @resolved _ t s => exact .inl ⟨t, s, rfl, Nat.le_add_right _ _⟩
  | exhausted hdirective =>
    have hpos := count_pos hdirective
    exact .inr ⟨_, _, rfl, Nat.le_add_right _ _, fun hfuel => by omega⟩
  | refused hdirective =>
    have hpos := count_pos hdirective
    refine .inr ⟨_, _, rfl, ?_, ?_⟩
    · simp only
      omega
    · omega
  | @failed _ t s s₁ e hdirective _ hpass =>
    have hpos := count_pos hdirective
    have hcount : s₁.passes = s.passes + 1 := (pass_uncounted ctx t).of_error hpass
    exact .inr ⟨e, s₁, rfl, by omega, fun _ _ => exhausted_of_stages hpass⟩
  | @pass _ t v s s₁ _ _ hdirective _ hpass _ ih =>
    obtain ⟨hfirst, hothers⟩ := List.forall_mem_append.1 hexpands
    have hcount : s₁.passes = s.passes + 1 := (pass_uncounted ctx t).of_ok hpass
    -- a directive has been resolved, and none that expands
    obtain ⟨a, ha, -⟩ := attempted_of_pass hpass ht.noEscape hdirective
    have hstops := count_of_stages hpass hs fun a ha =>
      hfirst a ha (isSome_of_stages hpass a ha)
    have hlower : v.count '.' + 1 ≤ t.count '.' := by
      have hlength := List.length_pos_of_mem ha
      unfold passAttempts at hlength
      omega
    rcases ih (pending_of_stages hpass hs) (settled_of_stages ht hpass) hothers with
      ⟨w, s', hw, hle⟩ | ⟨e, s', hw, hle, he⟩
    · exact .inl ⟨w, s', hw, by omega⟩
    · exact .inr ⟨e, s', hw, by omega, fun hfuel hbound => he (by omega) (by omega)⟩

end Preprocess

/-- A pass over a protected buffer with a directive resolves one if it succeeds. A definition, a
link, a format and a code point lower the number of full stops of the buffer in which they are
resolved. And so a run that resolves nothing else begins no more passes than its protected source
has full stops, and does not come to a bound that is not below that. -/
theorem preprocess_terminates (ctx : Context) :
    (∀ t s u s', '\\' ∉ t → t.hasDirective = true → Preprocess.pass ctx t s = .ok u s' →
      ∃ a ∈ Preprocess.passAttempts ctx t s, a.text?.isSome) ∧
    (∀ f t s, ∀ a ∈ Preprocess.stageAttempts ctx f t s, ∀ v behind, a.text? = some v →
      a.site.directive.expands = false →
      (Edit.apply (t.take a.site.stop ++ behind) ⟨a.site.start, a.site.stop, v⟩).count '.' <
        (t.take a.site.stop ++ behind).count '.') ∧
    ∀ t stops, (Scheme.document.protect t).count '.' = stops →
      (∀ d, d.expands = true → ¬Resolves ctx t d) →
      ∃ s, s.passes ≤ stops ∧ ((∃ v, preprocess ctx t = .ok v s) ∨
        ∃ e, preprocess ctx t = .error e s ∧
          (ctx.settings.maxPasses = 0 ∧ stops ≤ ctx.patience ∨
            0 < ctx.settings.maxPasses ∧ stops ≤ ctx.settings.maxPasses →
            e.exhausted = false)) := by
  refine ⟨fun t s u s' ht hdirective h => Preprocess.attempted_of_pass h ht hdirective,
    fun f t s a ha v behind hv hexpands => Preprocess.count_of_attempts ha hv hexpands behind, ?_⟩
  intro t stops hstops hnone
  unfold preprocess
  rw [EStateM.run, Preprocess.source_eq]
  rcases Preprocess.settle_cases ctx t {} with ⟨s₁, hsettle, hs₁, hfault, hbraces⟩ | ⟨e, s₁, hsettle, he⟩
  · rw [bind_of_ok hsettle]
    have hpasses : s₁.passes = 0 := hs₁.passes
    have hexpands (a) (ha : a ∈ Preprocess.convergeAttempts ctx (Preprocess.fuel ctx)
        (Scheme.document.protect t) s₁) (hsome : a.text?.isSome) :
        a.site.directive.expands = false := by
      refine Bool.eq_false_iff.2 fun hd => hnone a.site.directive hd ⟨a, ?_, rfl, hsome⟩
      rw [history, historyFrom, hsettle]
      exact ha
    rcases Preprocess.converges_cases (Preprocess.converges ..) hs₁.pending
        ⟨Scheme.notMem_protect hfault, hbraces⟩ hexpands with
      ⟨v, s₂, hv, hle⟩ | ⟨e, s₂, hv, hle, he⟩
    · rw [bind_of_ok hv]
      exact ⟨_, by simp only; omega, .inl ⟨v, rfl⟩⟩
    · rw [bind_of_error hv]
      refine ⟨s₂, by omega, .inr ⟨e, rfl, fun hbound => he ?_ (by omega)⟩⟩
      unfold Preprocess.fuel
      split <;> omega
  · have hpasses := (Preprocess.settle_uncounted ctx t).of_error hsettle
    rw [bind_of_error hsettle]
    exact ⟨s₁, by rw [hpasses]; exact Nat.zero_le _,
      .inr ⟨e, rfl, fun _ => Preprocess.exhausted_of_unsettled he⟩⟩

theorem preprocess_terminates_link :
    (∃ a ∈ Preprocess.passAttempts {} ".link\x7ba\x7d\x7bu.v\x7d".toList {}, a.text?.isSome) ∧
    (Edit.apply (".link\x7ba\x7d\x7bu.v\x7d".toList ++ ['.']) ⟨0, 13,
        "<a href=\"u.v\">a</a>".toList⟩).count '.' <
      (".link\x7ba\x7d\x7bu.v\x7d".toList ++ ['.']).count '.' ∧
    ∃ s, s.passes ≤ 2 ∧ ((∃ v, preprocess {} ".link\x7ba\x7d\x7bu.v\x7d".toList = .ok v s) ∨
      ∃ e, preprocess {} ".link\x7ba\x7d\x7bu.v\x7d".toList = .error e s ∧
        e.exhausted = false) := by
  obtain ⟨s, hpass⟩ := Run.exists_of_value?
    (r := Preprocess.pass {} ".link\x7ba\x7d\x7bu.v\x7d".toList {})
    (a := "<a href=\"u.v\">a</a>".toList) (by decide +kernel)
  have hattempt : (⟨⟨.link, 0, 13, 1, [['a'], ['u', '.', 'v']]⟩,
      some "<a href=\"u.v\">a</a>".toList⟩ : Attempt) ∈
      Preprocess.stageAttempts {} .links ".link\x7ba\x7d\x7bu.v\x7d".toList {} := by
    decide +kernel
  have hhistory : ((history {} ".link\x7ba\x7d\x7bu.v\x7d".toList).all fun a =>
      !a.site.directive.expands) = true := by decide +kernel
  refine ⟨?_, ?_, ?_⟩
  · exact (preprocess_terminates {}).1 _ _ _ s (by decide) (by decide +kernel) hpass
  · exact (preprocess_terminates {}).2.1 _ _ _ _ hattempt _ ['.'] rfl rfl
  · obtain ⟨s, hle, hresult⟩ := (preprocess_terminates {}).2.2
      ".link\x7ba\x7d\x7bu.v\x7d".toList 2 (by decide +kernel) (by
        rintro d hd ⟨a, ha, rfl, -⟩
        have := List.all_eq_true.1 hhistory a ha
        rw [hd] at this
        cases this)
    refine ⟨s, hle, hresult.imp_right ?_⟩
    rintro ⟨e, he, hbound⟩
    exact ⟨e, he, hbound (.inr ⟨by decide, by decide⟩)⟩

end Bracemark
