import Bracemark.Proofs.History
import Bracemark.Proofs.Inclusion

/-!
# Splices

A family leaves a buffer as it is but for spans that stand one behind the other, and puts into the
place of each span the text of the site that stands there (`Resolve.family_splices`). The edits are
applied from the last to the first, and as their spans are in order (`Edit.Ordered`), that is one
walk through the buffer from its start to its end (`Text.weave`).

What the scan passes over is in no span. It resolves every keyword of its family that it comes to,
but for a format with a directive in one of its blocks (`Stretch.waits_of_kept`).
-/

namespace Bracemark

/-! ## Edits from the start to the end -/

/-- What stands in a text from an offset on, with the spans of edits replaced. -/
def Text.weave (t : Text) : (start : Nat) → List Edit → Text
  | start, [] => t.drop start
  | start, e :: edits => t.slice start e.start ++ e.replacement ++ t.weave e.stop edits

/-- The spans of edits stand one behind the other, from an offset on and up to a limit. -/
def Edit.InLine (limit : Nat) : (start : Nat) → List Edit → Prop
  | start, [] => start ≤ limit
  | start, e :: edits => start ≤ e.start ∧ e.start ≤ e.stop ∧ InLine limit e.stop edits

namespace Edit.InLine

variable {limit start : Nat} {edits : List Edit}

theorem le_limit (h : InLine limit start edits) : start ≤ limit := by
  induction edits generalizing start with
  | nil => exact h
  | cons e edits ih =>
    obtain ⟨hstart, hle, hrest⟩ := h
    have := ih hrest
    omega

theorem foldr_eq {t : Text} (h : InLine t.length start edits) :
    edits.foldr (fun e t => e.apply t) t = t.take start ++ t.weave start edits := by
  induction edits generalizing start with
  | nil => exact (List.take_append_drop start t).symm
  | cons e edits ih =>
    obtain ⟨hstart, hle, hrest⟩ := h
    have hstop : (t.take e.stop).length = e.stop := List.length_take_of_le hrest.le_limit
    -- the edits behind this one have left the text as it is up to where this one stops
    have htake : (t.take e.stop ++ t.weave e.stop edits).take e.start = t.take e.start := by
      rw [List.take_append_of_le_length (by omega), List.take_take, Nat.min_eq_left hle]
    have hdrop : (t.take e.stop ++ t.weave e.stop edits).drop e.stop = t.weave e.stop edits :=
      List.drop_left' hstop
    have hgap : t.take start ++ t.slice start e.start = t.take e.start := by
      rw [Text.slice, ← Nat.min_eq_left hstart, ← List.take_take, Nat.min_eq_left hstart,
        List.take_append_drop]
    rw [List.foldr_cons, ih hrest, apply, htake, hdrop, Text.weave, ← List.append_assoc,
      ← List.append_assoc, hgap]

end Edit.InLine

/-- The spans of edits stand one behind the other, from an offset on and up to a limit, and none is
empty. -/
def Edit.Ordered (limit : Nat) : (start : Nat) → List Edit → Prop
  | start, [] => start ≤ limit
  | start, e :: edits => start ≤ e.start ∧ e.start < e.stop ∧ Ordered limit e.stop edits

namespace Edit.Ordered

variable {limit start : Nat} {edits : List Edit}

theorem mono {earlier : Nat} (h : Ordered limit start edits) (hle : earlier ≤ start) :
    Ordered limit earlier edits := by
  cases edits with
  | nil => exact Nat.le_trans hle h
  | cons e edits => exact ⟨Nat.le_trans hle h.1, h.2⟩

theorem le_start (h : Ordered limit start edits) : ∀ e ∈ edits, start ≤ e.start := by
  induction edits generalizing start with
  | nil => exact nofun
  | cons e edits ih =>
    obtain ⟨hstart, hlt, hrest⟩ := h
    refine List.forall_mem_cons.2 ⟨hstart, fun x hx => ?_⟩
    have := ih hrest x hx
    omega

theorem pairwise (h : Ordered limit start edits) :
    edits.Pairwise fun d e => d.start < e.start := by
  induction edits generalizing start with
  | nil => exact .nil
  | cons e edits ih =>
    obtain ⟨-, hlt, hrest⟩ := h
    exact List.pairwise_cons.2 ⟨fun x hx =>
      Nat.lt_of_lt_of_le hlt (hrest.le_start x hx), ih hrest⟩

theorem inLine (h : Ordered limit start edits) : InLine limit start edits := by
  induction edits generalizing start with
  | nil => exact h
  | cons e edits ih => exact ⟨h.1, Nat.le_of_lt h.2.1, ih h.2.2⟩

/-- Edits in order are spliced in from the start to the end. -/
theorem splice_eq {t : Text} (h : Ordered t.length 0 edits) : t.splice edits = t.weave 0 edits := by
  rw [Text.splice_of_pairwise h.pairwise, h.inLine.foldr_eq]
  rfl

end Edit.Ordered

/-! ## Where a site ends -/

namespace Text

/-- A part that begins in front of a character and does not hold it ends in front of it too. -/
theorem length_le_of_notMem {b : Char} {u k rest w v : Text} (hb : b ∉ k)
    (hle : u.length ≤ w.length) (h : u ++ k ++ rest = w ++ b :: v) : (u ++ k).length ≤ w.length := by
  by_contra hlt
  have hw : w ++ [b] <+: u ++ k := by
    refine List.prefix_of_prefix_length_le ⟨v, ?_⟩ ⟨rest, h⟩ ?_
    · rw [List.append_assoc, List.singleton_append]
    · rw [List.length_append, List.length_singleton]
      omega
  obtain ⟨y, rfl⟩ : u <+: w := List.prefix_of_prefix_length_le (List.prefix_append u k)
    ((List.prefix_append w [b]).trans hw) hle
  rw [List.append_assoc] at hw
  exact hb (((List.prefix_append_right_inj u).1 hw).subset
    (List.mem_append_right y (List.mem_singleton_self b)))

theorem Spaced.exists_append {us : List Text} {w : Text} (h : Spaced us w) (hus : us ≠ []) :
    ∃ x, w = x ++ ['\x7d'] := by
  induction h with
  | nil => exact absurd rfl hus
  | @cons gap u rest us _ _ hrest ih =>
    cases hrest with
    | nil => exact ⟨gap ++ '\x7b' :: u, by simp⟩
    | cons =>
      obtain ⟨x, hx⟩ := ih (by simp)
      exact ⟨gap ++ '\x7b' :: (u ++ '\x7d' :: x), by rw [hx]; simp⟩

end Text

/-- A site ends with the brace that closes its last argument. -/
theorem Stretch.Shaped.exists_append {d : Directive} {us : List Text} {w : Text}
    (h : Shaped d us w) : ∃ x, w = x ++ ['\x7d'] := by
  obtain ⟨b, hb, rfl⟩ := h.blocks
  obtain ⟨x, rfl⟩ := hb.exists_append h.ne_nil
  exact ⟨'.' :: (d.name.toList ++ x), by simp⟩

/-! ## Sites in order -/

/-- The sites `sites` are resolved one after the other, from `s` to `s'`, and each edit puts the
text of its site into the place of the site. -/
inductive Resolve.InOrder (ctx : Context) :
    (sites : List Site) → List Edit → (s s' : RunState) → Prop where
  | nil (s : RunState) : InOrder ctx [] [] s s
  | cons {site : Site} {sites : List Site} {edits : List Edit} {v : Text} {s s₁ s' : RunState}
      (h : Resolve.site ctx site s = .ok v s₁) (more : InOrder ctx sites edits s₁ s') :
      InOrder ctx (site :: sites) (⟨site.start, site.stop, v⟩ :: edits) s s'

theorem Resolve.InOrder.length_eq {ctx : Context} {sites : List Site} {edits : List Edit}
    {s s' : RunState} (h : InOrder ctx sites edits s s') : edits.length = sites.length := by
  induction h with
  | nil => rfl
  | cons _ _ ih => rw [List.length_cons, List.length_cons, ih]

/-- The span of a site is that of an edit. -/
theorem Resolve.InOrder.exists_edit {ctx : Context} {sites : List Site} {edits : List Edit}
    {s s' : RunState} (h : InOrder ctx sites edits s s') {site : Site} (hsite : site ∈ sites) :
    ∃ v, ⟨site.start, site.stop, v⟩ ∈ edits := by
  induction h with
  | nil => cases hsite
  | cons _ _ ih =>
    rcases List.mem_cons.1 hsite with rfl | hsite
    · exact ⟨_, List.mem_cons_self⟩
    · obtain ⟨v, hv⟩ := ih hsite
      exact ⟨v, List.mem_cons_of_mem _ hv⟩

/-- A site of a family stands in a buffer: at its start is the keyword, and what stands between its
start and its stop is the keyword with the blocks of its arguments. -/
structure Site.Stands (f : Family) (buffer : Text) (site : Site) : Prop where
  family : site.directive.family = f
  keyword : site.directive.token site.start ∈ Lexer.directive.tokens buffer
  shaped : Stretch.Shaped site.directive site.arguments (buffer.slice site.start site.stop)
  line : site.line = buffer.lineAt site.start

/-- The keyword of a format, with the blocks behind it, one of which holds a directive. -/
structure Token.Waits (buffer : Text) (t : Token) : Prop where
  format : t.directive? = some .format
  blocks : ∃ us b rest, buffer.drop t.stop = b ++ rest ∧ Text.Spaced us b ∧
    us.length = Directive.format.arity ∧ ∃ u ∈ us, u.hasDirective = true

namespace Stretch

variable {family : Family} {buffer : Text}

/-- The sites among stretches are resolved in order, and their spans are in order too. -/
theorem inOrder_of_sites {ctx : Context} {ws : List Stretch} {start : Nat} {edits : List Edit}
    {s s' : RunState} (hroom : ∀ d us, .site d us [] ∉ ws)
    (h : Resolve.sites ctx buffer (located buffer start ws) s = .ok edits s') :
    ∃ sites, located buffer start ws = sites.map .ok ∧ Resolve.InOrder ctx sites edits s s' ∧
      Edit.Ordered (start + (ws.flatMap written).length) start edits := by
  induction ws generalizing start s edits with
  | nil =>
    cases h
    exact ⟨[], rfl, .nil _, Nat.le_refl start⟩
  | cons w ws ih =>
    have hroom' : ∀ d us, .site d us [] ∉ ws := fun d us hmem =>
      hroom d us (List.mem_cons_of_mem w hmem)
    rw [List.flatMap_cons, List.length_append, ← Nat.add_assoc]
    cases w with
    | fault f => cases h
    | kept c =>
      obtain ⟨sites, hlocated, hinOrder, hordered⟩ := ih hroom' h
      exact ⟨sites, hlocated, hinOrder, hordered.mono (Nat.le_succ start)⟩
    | site d us w =>
      obtain ⟨v, s₁, hsite, h⟩ := bind_eq_ok.1 h
      obtain ⟨others, s₂, hothers, h⟩ := bind_eq_ok.1 h
      cases h
      obtain ⟨sites, hlocated, hinOrder, hordered⟩ := ih hroom' hothers
      have hw : 0 < w.length := by
        refine List.length_pos_iff.2 ?_
        rintro rfl
        exact hroom d us List.mem_cons_self
      exact ⟨_ :: sites, by rw [located, hlocated, List.map_cons], .cons hsite hinOrder,
        Nat.le_refl start, Nat.lt_add_of_pos_right hw, hordered⟩

/-- What is at an offset of a sound text is kept there, or it is in a site. -/
theorem kept_or_within (hsound : Sound family buffer) {u v : Text} {c : Char}
    (h : buffer = u ++ c :: v) :
    step family c v = (.kept c, 0) ∨
      ∃ before d us w behind, ofText family buffer = before ++ .site d us w :: behind ∧
        (before.flatMap written).length ≤ u.length ∧
        u.length < (before.flatMap written).length + w.length := by
  induction buffer using segment_induction (step family) generalizing u with
  | nil => cases u <;> cases h
  | cons x rest ih =>
    obtain ⟨hhead, hrest⟩ := sound_cons_iff.1 hsound
    have hwhole : ofText family (x :: rest) = (step family x rest).1 ::
        ofText family (rest.drop (step family x rest).2) := segment_zero_cons ..
    cases hw : (step family x rest).1 with
    | fault f => exact absurd hw (hhead f)
    | kept y =>
      have hstep := step_of_kept hw
      rw [hstep, List.drop_zero] at ih hrest hwhole
      cases u with
      | nil =>
        cases h
        exact .inl hstep
      | cons z u =>
        obtain ⟨rfl, hbehind⟩ := List.cons.inj (h.trans (List.cons_append ..))
        refine (ih hrest hbehind).imp_right ?_
        rintro ⟨before, d, us, w, behind, hofText, hle, hlt⟩
        refine ⟨.kept x :: before, d, us, w, behind, by rw [hwhole, hofText]; rfl, ?_, ?_⟩
        all_goals
          simp only [List.flatMap_cons, written, List.length_append, List.length_cons,
            List.length_nil]
          omega
    | site d us w =>
      have hwritten : w ++ rest.drop (step family x rest).2 = x :: rest := by
        rcases step_written family x rest with hwritten | ⟨f, hf⟩
        · rw [hw, written] at hwritten
          rw [hwritten, List.cons_append, List.take_append_drop]
        · exact absurd (by rw [hf]) (hhead f)
      rw [hw] at hwhole
      by_cases hlt : u.length < w.length
      · exact .inr ⟨[], d, us, w, _, hwhole, Nat.zero_le _, by simpa using hlt⟩
      · -- the site is all in front of the offset
        obtain ⟨u', rfl⟩ : w <+: u := List.prefix_of_prefix_length_le
          ⟨_, hwritten⟩ ⟨_, h.symm⟩ (Nat.not_lt.1 hlt)
        have hbehind : rest.drop (step family x rest).2 = u' ++ c :: v := by
          rw [h, List.append_assoc] at hwritten
          exact List.append_cancel_left hwritten
        refine (ih hrest hbehind).imp_right ?_
        rintro ⟨before, d', us', w', behind, hofText, hle, hlt⟩
        refine ⟨.site d us w :: before, d', us', w', behind, by rw [hwhole, hofText]; rfl, ?_, ?_⟩
        all_goals
          simp only [List.flatMap_cons, written, List.length_append]
          omega

/-- A keyword of the family is kept only if it waits. -/
theorem waits_of_kept {c : Char} {rest : Text} {d : Directive}
    (hd : Text.directive? (c :: rest) = some d) (hfamily : d.family = family)
    (h : step family c rest = (.kept c, 0)) :
    d = .format ∧ ∃ us b after, rest.drop d.name.length = b ++ after ∧ Text.Spaced us b ∧
      us.length = d.arity ∧ ∃ u ∈ us, u.hasDirective = true := by
  unfold step at h
  simp only [hd, if_pos hfamily] at h
  split at h
  · cases h
  rename_i us after hread
  split at h
  · rename_i hwaits
    obtain ⟨hwaits, hany⟩ := Bool.and_eq_true_iff.1 hwaits
    obtain ⟨hlength, b, hb, hdrop⟩ := Text.spaced_of_readBlocks hread
    refine ⟨?_, us, b, after, hdrop, hb, hlength, List.any_eq_true.1 hany⟩
    cases d <;> first | rfl | cases hwaits
  · cases h

/-- A site among stretches is located behind what is written in front of it. -/
theorem mem_located (buffer : Text) (start : Nat) (before : List Stretch) (d : Directive)
    (us : List Text) (w : Text) (behind : List Stretch) :
    .ok ⟨d, start + (before.flatMap written).length,
        start + (before.flatMap written).length + w.length,
        buffer.lineAt (start + (before.flatMap written).length), us⟩ ∈
      located buffer start (before ++ .site d us w :: behind) := by
  induction before generalizing start with
  | nil => exact List.mem_cons_self
  | cons b before ih =>
    rw [List.cons_append, located_cons, List.flatMap_cons, List.length_append, ← Nat.add_assoc]
    exact List.mem_append_right _ (ih _)

/-- A keyword of the family is all in one site, or it waits. -/
theorem within_or_waits (hsound : Sound family buffer) {token : Token} {d : Directive}
    (hmem : token ∈ Lexer.directive.tokens buffer) (hd : token.directive? = some d)
    (hfamily : d.family = family) :
    (∃ before d' us w behind, ofText family buffer = before ++ .site d' us w :: behind ∧
      (before.flatMap written).length ≤ token.start ∧
      token.stop ≤ (before.flatMap written).length + w.length) ∨ token.Waits buffer := by
  obtain ⟨x, v, hbuffer, hv, rfl⟩ := Lexer.mem_tokens_iff.1 ⟨hmem, hd⟩
  obtain ⟨rest, rfl⟩ := Text.eq_append_of_directive? hv
  have hlength : (x ++ '.' :: d.name.toList).length = (d.token x.length).stop := by
    rw [d.token_stop, List.length_append, List.length_cons, String.length_toList]
  have hsplit : buffer = x ++ '.' :: d.name.toList ++ rest := by
    rw [hbuffer, List.append_assoc, List.cons_append]
  rcases kept_or_within hsound hbuffer with hkept | ⟨before, d', us, w, behind, hws, hle, hlt⟩
  · obtain ⟨rfl, us, b, after, hdrop, hb, harity, hany⟩ := waits_of_kept hv hfamily hkept
    refine .inr ⟨rfl, us, b, after, ?_, hb, harity, hany⟩
    rw [hsplit, ← hlength, List.drop_left, ← hdrop, ← String.length_toList, List.drop_left]
  · -- the last character of the site is a brace, and there is none in a keyword
    obtain ⟨y, rfl⟩ := (shaped_of_mem (hws ▸ List.mem_append_right before
      List.mem_cons_self)).2.exists_append
    have hbrace : '\x7d' ∉ '.' :: d.name.toList := d.notMem_keyword rfl (by decide)
    have hwritten := flatMap_written hsound
    rw [hws, List.flatMap_append, List.flatMap_cons, written, List.append_assoc y,
      List.singleton_append, ← List.append_assoc] at hwritten
    refine .inl ⟨before, d', us, _, behind, hws, hle, ?_⟩
    rw [List.length_append, List.length_singleton] at hlt ⊢
    have hstop := Text.length_le_of_notMem hbrace (by rw [List.length_append]; omega)
      (hsplit.symm.trans hwritten.symm)
    rw [hlength, List.length_append] at hstop
    omega

end Stretch

/-- What the scan finds stands in the buffer. -/
theorem Site.stands_of_scan {f : Family} {buffer : Text} {site : Site}
    (h : .ok site ∈ Site.scan f buffer) : site.Stands f buffer := by
  obtain ⟨hfamily, u, w, v, rfl, hstart, hstop, hshaped⟩ := Site.shaped_of_scan h
  rw [Site.scan_eq_located] at h
  obtain ⟨-, -, -, -, -, -, hline⟩ := Stretch.mem_of_mem_located h
  have hkeyword := (Lexer.mem_tokens_iff.2
    ⟨u, w ++ v, List.append_assoc u w v, hshaped.directive?_eq v, rfl⟩).1
  refine ⟨hfamily, ?_, ?_, hline⟩
  · rwa [hstart]
  · rwa [hstart, hstop, List.length_append, Text.slice_append]

/-- Where a family is resolved, the buffer is left as it is but for spans in order, and each span is
a site of the family whose text takes its place. The sites are resolved once each, in order. A
keyword of the family that is in no span is that of a format with a directive in a block. -/
theorem Resolve.family_splices {ctx : Context} {f : Family} {buffer u : Text} {s s' : RunState}
    (h : Resolve.family ctx f buffer s = .ok u s') :
    ∃ sites edits s₁, Resolve.InOrder ctx sites edits s s₁ ∧
      s' = (if sites = [] then s₁ else
        { s₁ with progress := s₁.progress.push (.resolved sites.length f) }) ∧
      Edit.Ordered buffer.length 0 edits ∧ u = buffer.weave 0 edits ∧
      (∀ site ∈ sites, site.Stands f buffer) ∧
      ∀ token ∈ Lexer.directive.tokens buffer, ∀ d, token.directive? = some d → d.family = f →
        (∃ e ∈ edits, e.start ≤ token.start ∧ token.stop ≤ e.stop) ∨ token.Waits buffer := by
  obtain ⟨s₀, hresolve, -⟩ := Resolve.resolve_of_family h
  have hsound : Stretch.Sound f buffer := Stretch.fault_notMem_of_resolve hresolve
  obtain ⟨edits, s₁, hsites, hnote⟩ := bind_eq_ok.1 h
  have hscan := Site.scan_eq_located f buffer
  rw [hscan] at hsites
  obtain ⟨sites, hlocated, hinOrder, hordered⟩ :=
    Stretch.inOrder_of_sites (Stretch.site_nil_notMem buffer) hsites
  rw [Nat.zero_add, Stretch.flatMap_written hsound] at hordered
  have hstands : ∀ site ∈ sites, site.Stands f buffer := fun site hsite =>
    Site.stands_of_scan (hscan.trans hlocated ▸ List.mem_map_of_mem hsite)
  refine ⟨sites, edits, s₁, hinOrder, ?_, hordered, ?_, hstands, fun token hmem d hd hfamily => ?_⟩
  · rw [← hinOrder.length_eq]
    cases hinOrder with
    | nil => cases hnote; rfl
    | cons => cases hnote; rfl
  · rw [← hordered.splice_eq]
    split at hnote <;> cases hnote <;> rfl
  refine (Stretch.within_or_waits hsound hmem hd hfamily).imp_left ?_
  rintro ⟨before, d', us, w, behind, hws, hle, hstop⟩
  have hsite := Stretch.mem_located buffer 0 before d' us w behind
  rw [← hws, hlocated, Nat.zero_add] at hsite
  obtain ⟨site, hsite, heq⟩ := List.mem_map.1 hsite
  cases heq
  obtain ⟨v, hedit⟩ := hinOrder.exists_edit hsite
  exact ⟨_, hedit, hle, hstop⟩

/-- The inner one of two formats is resolved, and the outer one waits. -/
theorem Resolve.family_splices_nested :
    ∃ s', Resolve.family {} .formats ".format\x7bb\x7d\x7b.format\x7bi\x7d\x7bx\x7d\x7d".toList {} =
        .ok ".format\x7bb\x7d\x7b<i>x</i>\x7d".toList s' ∧
      ∃ edits, Edit.Ordered 25 0 edits ∧
        ".format\x7bb\x7d\x7b<i>x</i>\x7d".toList =
          Text.weave ".format\x7bb\x7d\x7b.format\x7bi\x7d\x7bx\x7d\x7d".toList 0 edits ∧
        ((∃ e ∈ edits, e.start ≤ 0 ∧ 7 ≤ e.stop) ∨ (Directive.format.token 0).Waits
          ".format\x7bb\x7d\x7b.format\x7bi\x7d\x7bx\x7d\x7d".toList) := by
  obtain ⟨s', hs'⟩ := Run.exists_of_value?
    (r := Resolve.family {} .formats ".format\x7bb\x7d\x7b.format\x7bi\x7d\x7bx\x7d\x7d".toList {})
    (a := ".format\x7bb\x7d\x7b<i>x</i>\x7d".toList) (by decide +kernel)
  obtain ⟨-, edits, -, -, -, hordered, hweave, -, hkeywords⟩ := Resolve.family_splices hs'
  exact ⟨s', hs', edits, hordered, hweave,
    hkeywords (Directive.format.token 0) (by decide +kernel) .format rfl rfl⟩

end Bracemark
