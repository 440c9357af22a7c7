import Bracemark.Proofs.Boundaries
import Bracemark.Proofs.Following
import Bracemark.Proofs.Keywords
import Bracemark.Proofs.Locality
import Bracemark.Proofs.Nesting

/-!
# Inclusion

Where a file is included and where its text is written in place, a pass gives the same
(`Preprocess.pass_include`). The two buffers differ in one line while macros are resolved, which
passes over the line in both; in the next stage the directive becomes the text. The directives in
front of the line find their blocks in front of it, so they do not tell the two apart.
-/

namespace Bracemark

/-- A text between two others, each on lines of its own. -/
def Text.stack (u m v : Text) : Text := u ++ '\n' :: (m ++ '\n' :: v)

/-! ## Keywords that a text lacks -/

namespace Text

variable {t u : Text} {f : Family}

theorem Lacks.append_of_notMem (ht : t.Lacks f) (hu : '.' ∉ u) : (u ++ t).Lacks f := by
  intro s d hs hd
  have hstop : ∀ x ∈ u, x ≠ '.' := fun x hx heq => hu (heq ▸ hx)
  exact ht s d (suffix_of_directive? hstop hs (by rw [hd]; rfl)) hd

theorem lacks_blocks {us : List Text} (h : ∀ u ∈ us, u.Lacks f) : (blocks us).Lacks f := by
  induction us with
  | nil => exact lacks_nil f
  | cons u us ih =>
    obtain ⟨hu, hus⟩ := List.forall_mem_cons.1 h
    have hblock : (u ++ '\x7d' :: blocks us).Lacks f := hu.append_cons isBoundary_closing (ih hus)
    rw [blocks_cons]
    exact hblock.append_of_notMem (u := ['\x7b']) (by decide)

end Text

/-- A directive of another family brings no keyword of a family that its blocks lack. -/
theorem Directive.lacks_written {d : Directive} {us : List Text} {f : Family}
    (harity : us.length = d.arity) (hd : d.family ≠ f) (h : ∀ u ∈ us, u.Lacks f) :
    (d.written us).Lacks f := by
  refine Text.lacks_cons_iff.2 ⟨fun d' hd' => ?_,
    (Text.lacks_blocks h).append_of_notMem (d.notMem_name rfl)⟩
  have hkeyword := directive?_written harity []
  rw [List.append_nil, written, hd'] at hkeyword
  cases hkeyword
  exact hd

namespace Piece

variable {ps : List Piece} {f : Family}

/-- Protection leaves words as they are. -/
theorem takeWhile_protect (h : ∀ p ∈ ps, Scheme.document.Knows p) :
    (ps.flatMap Scheme.document.protectPiece).takeWhile isWord =
      (ps.flatMap written).takeWhile isWord := by
  induction ps with
  | nil => rfl
  | cons p ps ih =>
    obtain ⟨hp, hps⟩ := List.forall_mem_cons.1 h
    rw [List.flatMap_cons, List.flatMap_cons]
    cases p with
    | plain c =>
      have hrest := ih hps
      simp only [Scheme.protectPiece, written, List.singleton_append, List.takeWhile_cons]
      rw [hrest]
    | escaped c =>
      obtain ⟨g, hg⟩ := Option.isSome_iff_exists.1 hp
      simp only [Scheme.protectPiece, hg]
      rfl
    | dangling => cases hp

/-- Protection brings no keyword. -/
theorem lacks_protect (h : ∀ p ∈ ps, Scheme.document.Knows p)
    (hlacks : Text.Lacks (ps.flatMap written) f) :
    Text.Lacks (ps.flatMap Scheme.document.protectPiece) f := by
  induction ps with
  | nil => exact Text.lacks_nil f
  | cons p ps ih =>
    obtain ⟨hp, hps⟩ := List.forall_mem_cons.1 h
    rw [List.flatMap_cons] at hlacks ⊢
    cases p with
    | plain c =>
      obtain ⟨hhead, hrest⟩ := Text.lacks_cons_iff.1 hlacks
      refine Text.lacks_cons_iff.2 ⟨fun d hd => hhead d ?_, ih hps hrest⟩
      unfold Text.directive? at hd ⊢
      simp only [List.append_eq, List.nil_append] at hd ⊢
      rwa [takeWhile_protect hps] at hd
    | escaped c =>
      obtain ⟨g, hg⟩ := Option.isSome_iff_exists.1 hp
      have hrest := ih hps (hlacks.suffix (List.suffix_append _ _))
      simp only [Scheme.protectPiece, hg]
      exact hrest.append_of_notMem ((Scheme.coded_of_tag? hg).inert.notMem rfl)
    | dangling => cases hp

end Piece

theorem Text.Lacks.protect {t : Text} {f : Family} (h : t.Lacks f)
    (hfault : Scheme.document.fault? t = none) : (Scheme.document.protect t).Lacks f := by
  rw [← Piece.flatMap_written t] at h
  exact Piece.lacks_protect (Scheme.fault?_document_eq_none_iff.1 hfault) h

/-! ## Files without further files -/

namespace Include

theorem fileBlocks_of_lacks {t : Text} (hincludes : t.Lacks .includes)
    (htables : t.Lacks .tables) : fileBlocks t = [] := by
  unfold fileBlocks
  rw [List.flatten_eq_nil_iff]
  intro found hfound
  obtain ⟨token, rest, hsuffix, rfl⟩ := exists_suffix_of_mem_segment hfound
  have hmem : token ∈ Lexer.directive.tokens t := hsuffix.subset List.mem_cons_self
  have hother : namesFile token = false := by
    rw [namesFile, Bool.or_eq_false_iff, decide_eq_false_iff_not, decide_eq_false_iff_not]
    constructor
    · intro hkind
      obtain ⟨u, v, ht, hd, -⟩ := Lexer.mem_tokens_iff.1 ⟨hmem, show token.directive? =
        some .includeFile by rw [Token.directive?, hkind]⟩
      exact hincludes v _ ⟨u, ht.symm⟩ hd rfl
    · intro hkind
      obtain ⟨u, v, ht, hd, -⟩ := Lexer.mem_tokens_iff.1 ⟨hmem, show token.directive? =
        some .importTable by rw [Token.directive?, hkind]⟩
      exact htables v _ ⟨u, ht.symm⟩ hd rfl
  unfold step
  rw [hother]
  rfl

/-- The text of the file that a name in the document leads to. -/
def contents? (ctx : Context) (name : Text) : Option Text :=
  text? ctx ⟨.includeFile, 0, 0, 0, [name]⟩

theorem text?_eq (ctx : Context) (site : Site) : text? ctx site = contents? ctx site.first := rfl

/-- A file in which no file is named is included as it stands. -/
theorem site_yields {ctx : Context} {site : Site} {contents : Text}
    (hsite : site.directive = .includeFile) (htext : contents? ctx site.first = some contents)
    (hfault : Scheme.document.fault? contents = none)
    (hblocks : fileBlocks (Scheme.document.protect contents) = []) :
    (Resolve.site ctx site).Yields (Scheme.document.protect contents) := by
  intro s _
  unfold Resolve.site
  rw [hsite]
  simp only
  rcases readFile_cases ctx site .unreadableInclude s with
    ⟨contents', s₁, htext', hread, hs₁⟩ | ⟨hnone, -⟩
  · rw [text?_eq, htext] at htext'
    cases htext'
    rw [bind_of_ok hread]
    rcases anchor_cases ctx (path ctx site) contents s₁ with
      ⟨-, s₂, hanchor, hs₂⟩ | ⟨e, s₂, -, hunanchored⟩
    · have hanchored : anchored ctx (path ctx site) (Scheme.document.protect contents) =
          Scheme.document.protect contents := by
        unfold anchored
        rw [hblocks]
        rfl
      rw [hanchored] at hanchor
      exact ⟨s₂, hanchor, hs₁.trans hs₂⟩
    · cases hunanchored with
      | escape h =>
        rw [hfault] at h
        cases h
      | block _ h =>
        rw [hblocks] at h
        cases h
  · rw [text?_eq, htext] at hnone
    cases hnone

end Include

/-! ## One line between two texts -/

namespace Text

variable {u m v : Text}

theorem braces_stack (u m v : Text) : (stack u m v).braces =
    (u.braces.1 + (m.braces.1 + v.braces.1), u.braces.2 + (m.braces.2 + v.braces.2)) := by
  rw [stack, braces_append_cons, braces_append_cons]

theorem hasDirective_stack (u m v : Text) :
    (stack u m v).hasDirective = (u.hasDirective || (m.hasDirective || v.hasDirective)) := by
  rw [stack, hasDirective_append_cons isBoundary_newline,
    hasDirective_append_cons isBoundary_newline]

end Text

namespace Scheme

variable {u m v : Text}

theorem fault?_stack : document.fault? (.stack u m v) = none ↔
    document.fault? u = none ∧ document.fault? m = none ∧ document.fault? v = none := by
  rw [Text.stack, fault?_append_cons_iff rfl, fault?_append_cons_iff rfl]

theorem protect_stack (hu : document.fault? u = none) (hm : document.fault? m = none)
    (hv : document.fault? v = none) : document.protect (.stack u m v) =
      .stack (document.protect u) (document.protect m) (document.protect v) := by
  rw [Text.stack, protect_append_cons hu ((fault?_append_cons_iff rfl).2 ⟨hm, hv⟩),
    protect_append_cons hm hv]
  rfl

end Scheme

/-- A directive at the beginning of the next line is no block. -/
theorem Directive.blocked_written (d : Directive) (us : List Text) (post : Text) :
    Text.Blocked ('\n' :: (d.written us ++ post)) := by
  intro rest h
  rw [List.dropWhile_cons_of_pos (by decide), written, List.cons_append,
    List.dropWhile_cons_of_neg (by decide)] at h
  cases h

namespace Stretch

variable {ctx : Context} {family : Family} {buffer u : Text} {s s' : RunState}

/-- Where everything is resolved, every directive has found its blocks. -/
theorem fault_notMem_of_resolve {start : Nat} {ws : List Stretch}
    (h : resolve ctx buffer start ws s = .ok u s') (f : BlockFault) : .fault f ∉ ws := by
  induction ws generalizing start s s' u with
  | nil => exact List.not_mem_nil
  | cons w ws ih =>
    cases w with
    | kept c =>
      obtain ⟨x, s₁, hrest, -⟩ := bind_eq_ok.1 h
      simp [ih hrest]
    | site d us w =>
      obtain ⟨x, s₁, -, h⟩ := bind_eq_ok.1 h
      obtain ⟨y, s₂, hrest, -⟩ := bind_eq_ok.1 h
      simp [ih hrest]
    | fault f => cases h

/-- The stretches of a line between two texts are resolved between theirs, wherever the line is
cut. -/
theorem resolve_stack_eq_ok {n v x : Text} {ws : List Stretch} (hu : Sound family u)
    (hcut : Cuts (step family) (n ++ ['\n']) ws) :
    resolve ctx buffer 0 (ofText family (.stack u n v)) s = .ok x s' ↔
      ∃ y line z a b, resolve ctx buffer 0 (ofText family u) s = .ok y a ∧
        resolve ctx buffer (u.length + 1) ws a = .ok line b ∧
        resolve ctx buffer (u.length + 1 + (ws.flatMap written).length) (ofText family v) b =
          .ok z s' ∧ x = y ++ '\n' :: (line ++ z) := by
  have hline : ofText family (n ++ '\n' :: v) = ws ++ ofText family v := by
    have hline := hcut v
    rwa [List.append_assoc, List.singleton_append] at hline
  have hofText : ofText family (.stack u n v) =
      ofText family u ++ ([.kept '\n'] ++ (ws ++ ofText family v)) := by
    rw [Text.stack, ofText_append_cons Text.isBoundary_newline hu, hline]
    rfl
  rw [hofText, resolve_append_eq_ok, flatMap_written hu, Nat.zero_add]
  constructor
  · rintro ⟨y, _, a, hy, hrest, rfl⟩
    obtain ⟨_, _, _, hbreak, hrest, rfl⟩ := resolve_append_eq_ok.1 hrest
    cases hbreak
    obtain ⟨line, z, b, hline, hz, rfl⟩ := resolve_append_eq_ok.1 hrest
    exact ⟨y, line, z, a, b, hy, hline, hz, rfl⟩
  · rintro ⟨y, line, z, a, b, hy, hline, hz, rfl⟩
    refine ⟨y, _, a, hy, ?_, rfl⟩
    exact resolve_append_eq_ok.2 ⟨['\n'], _, a, rfl,
      resolve_append_eq_ok.2 ⟨line, z, b, hline, hz, rfl⟩, rfl⟩

/-- A flat block of a directive of another family brings no keyword into a sound text. -/
theorem lacks_of_sound_written {d : Directive} {t post : Text} (hd : d.family ≠ family)
    (ht : t.Flat) (h : Sound family (d.written [t] ++ post)) : t.Lacks family := by
  rw [Directive.written_cons, List.cons_append, List.cons_append] at h
  have hkept : ∀ rest, step family '.' (d.name.toList ++ '\x7b' :: rest) = (.kept '.', 0) := by
    intro rest
    unfold step
    rw [d.directive?_keyword rest]
    exact if_neg hd
  rw [List.append_assoc, List.cons_append] at h
  have hrest := (sound_cons_iff.1 h).2
  rw [hkept, List.drop_zero] at hrest
  have hname : '.' ∉ d.name.toList ++ ['\x7b'] := by cases d <;> decide
  have hbehind : Sound family (t ++ '\x7d' :: (Text.blocks [] ++ post)) := by
    intro f hf
    refine hrest f ?_
    have hcut := cuts_kept family (fun x hx => ne_of_mem_of_not_mem hx hname)
      (t ++ '\x7d' :: (Text.blocks [] ++ post))
    rw [List.append_assoc] at hcut
    unfold ofText
    simp only [List.append_assoc, List.cons_append, List.nil_append] at hcut ⊢
    rw [hcut]
    exact List.mem_append_right _ hf
  have hclosed : Text.Blocked ('\x7d' :: (Text.blocks [] ++ post)) := by
    intro rest heq
    rw [List.dropWhile_cons_of_neg (by decide)] at heq
    cases heq
  exact lacks_of_sound (fun x hx => (ht x hx).1)
    (sound_of_append_cons Text.isBoundary_closing ht.tidy.nested.closes hclosed hbehind)

end Stretch

namespace Preprocess

variable {ctx : Context} {f : Family} {u v m m' k k' w x : Text} {s s' t : RunState}

theorem sound_of_stage (h : stage ctx u f s = .ok x s') : Stretch.Sound f u := by
  obtain ⟨w, s₁, hbare, -⟩ := eq_of_stage h
  obtain ⟨y, s₂, hfamily, -⟩ := family_of_bareStage hbare
  obtain ⟨s₃, hresolve, -⟩ := Resolve.resolve_of_family hfamily
  exact Stretch.fault_notMem_of_resolve hresolve

/-- If a family rewrites one line and another, each in its own way, then it gives the same around
both: what stands in front closes its blocks in front, and what stands behind looks ahead. -/
theorem family_stack (hf : f ≠ .replacements) (hsound : Stretch.Sound f u)
    (hm : Rewrites ctx f (m ++ ['\n']) (m' ++ ['\n']))
    (hk : Rewrites ctx f (k ++ ['\n']) (k' ++ ['\n'])) (hs : s.pending = []) (hst : s.Agrees t)
    (h : Resolve.family ctx f (.stack u m v) s = .ok x s') :
    ∃ y z, x = .stack y m' z ∧ (∃ s₁, Resolve.family ctx f u s = .ok y s₁) ∧
      ∃ t', Resolve.family ctx f (.stack u k v) t = .ok (.stack y k' z) t' ∧ s'.Agrees t' := by
  have hnone (t) : ∀ us w, .site .replaceAll us w ∉ Stretch.ofText f t := by
    intro us w hmem
    exact hf (Stretch.shaped_of_mem hmem).1.symm
  have hstack (n z y : Text) : y ++ '\n' :: (n ++ ['\n'] ++ z) = .stack y n z := by
    rw [Text.stack, List.append_assoc, List.singleton_append]
  obtain ⟨ms, hmcut, hmres⟩ := hm
  obtain ⟨ks, hkcut, hkres⟩ := hk
  obtain ⟨s₁, hresolve, hs₁⟩ := Resolve.resolve_of_family h
  obtain ⟨y, line, z, a, b, hy, hline, hz, hx⟩ :=
    (Stretch.resolve_stack_eq_ok hsound hmcut).1 hresolve
  obtain ⟨a', hy', haa'⟩ := (Stretch.resolve_follows ctx _ u 0 0 (.inl (hnone u))).of_ok
    (.refl s) hy
  obtain ⟨a₁, hfamily, ha₁⟩ := Resolve.family_of_resolve hy'
  have ha : a.pending = [] := by
    rw [← haa'.pending, ← ha₁.pending]
    refine pending_of_family hfamily hs fun attempt hattempt _ heq => hf ?_
    have hfamily := (shaped_of_attempts hattempt).1
    rw [heq] at hfamily
    exact hfamily.symm
  obtain ⟨b', hline', hb⟩ := hmres _ _ a ha
  rw [hline] at hline'
  cases hline'
  rw [hstack] at hx
  -- the other line is resolved from where the first one was
  obtain ⟨t₁, hyt, ht₁⟩ := (Stretch.resolve_follows ctx _ (.stack u k v) 0 0
    (.inl (hnone u))).of_ok hst hy
  obtain ⟨t₂, hkt, ht₂⟩ := hkres (.stack u k v) (u.length + 1) t₁ (ht₁.pending.trans ha)
  have hab : b.Agrees t₂ := (RunState.Agrees.of_alike hb).symm.trans (ht₁.trans (.of_alike ht₂))
  obtain ⟨t₃, hzt, ht₃⟩ := (Stretch.resolve_follows ctx _ (.stack u k v) _
    (u.length + 1 + (ks.flatMap Stretch.written).length) (.inl (hnone v))).of_ok hab hz
  obtain ⟨t₄, hfamily', ht₄⟩ := Resolve.family_of_resolve
    ((Stretch.resolve_stack_eq_ok hsound hkcut).2 ⟨y, _, z, t₁, t₂, hyt, hkt, hzt, rfl⟩)
  rw [hstack] at hfamily'
  refine ⟨y, z, hx, ⟨a₁, hfamily⟩, t₄, hfamily', ?_⟩
  exact (RunState.Agrees.of_alike hs₁).symm.trans (ht₃.trans (.of_alike ht₄))

/-- The stage of a family over one line and over another that it rewrites to settled lines. -/
theorem stage_stack (hf : f ≠ .replacements) (hsound : Stretch.Sound f u)
    (hm : Rewrites ctx f (m ++ ['\n']) (m' ++ ['\n']))
    (hk : Rewrites ctx f (k ++ ['\n']) (k' ++ ['\n'])) (hm' : m'.Settled) (hk' : k'.Settled)
    (hs : s.pending = []) (hst : s.Agrees t) (h : stage ctx (.stack u m v) f s = .ok x s') :
    ∃ y z, x = .stack (Scheme.document.protect y) m' z ∧
      (∃ s₁, Resolve.family ctx f u s = .ok y s₁) ∧
      ∃ t', stage ctx (.stack u k v) f t = .ok (.stack (Scheme.document.protect y) k' z) t' ∧
        s'.Agrees t' := by
  obtain ⟨w, s₁, hbare, hs₁, rfl, hfault, hbraces⟩ := eq_of_stage h
  rw [bareStage_of_ne hf] at hbare
  obtain ⟨y, z, rfl, hfamily, t₁, ht, hagrees⟩ := family_stack hf hsound hm hk hs hst hbare
  obtain ⟨hy, -, hz⟩ := Scheme.fault?_stack.1 hfault
  have hprotect {n : Text} (hn : n.Settled) : Scheme.document.protect (.stack y n z) =
      .stack (Scheme.document.protect y) n (Scheme.document.protect z) := by
    rw [Scheme.protect_stack hy (Scheme.fault?_of_notMem hn.noEscape) hz,
      Scheme.protect_of_notMem hn.noEscape]
  rw [hprotect hm', Text.braces_stack] at hbraces
  obtain ⟨t₂, hstage, ht₂⟩ := stage_of_family ht (fun heq => absurd heq hf)
    (Scheme.fault?_stack.2 ⟨hy, Scheme.fault?_of_notMem hk'.noEscape, hz⟩) (by
      rw [hprotect hk', Text.braces_stack]
      have := hm'.balanced
      have := hk'.balanced
      simp only at hbraces ⊢
      omega)
  rw [hprotect hk'] at hstage
  refine ⟨y, Scheme.document.protect z, hprotect hm', hfamily, t₂, hstage, ?_⟩
  exact (RunState.Agrees.of_alike hs₁).symm.trans (hagrees.trans (.of_alike ht₂))

/-! ## One pass -/

/-- A pass over a buffer with an included file goes like one over the text of the file. -/
theorem pass_include {c : Text} (hu : u.Tidy) (hmacros : s.macros.Tidy) (hname : w.Flat)
    (hcontents : Include.contents? ctx w = some c) (hfault : Scheme.document.fault? c = none)
    (hc : (Scheme.document.protect c).Settled)
    (hlacks : ∀ f ∈ [.macros, .includes, .tables], (Scheme.document.protect c).Lacks f)
    (hs : s.pending = []) (hst : s.Agrees t)
    (h : pass ctx (.stack u (Directive.includeFile.written [w]) v) s = .ok x s') :
    ∃ t', pass ctx (.stack u (Scheme.document.protect c) v) t = .ok x t' ∧ s'.Agrees t' := by
  have hline : (Directive.includeFile.written [w]).Settled := by
    refine ⟨Directive.notMem_written _ ?_, (Directive.nested_written _ ?_).braces_eq⟩
    · exact List.forall_mem_singleton.2 hname.tidy.noEscape
    · exact List.forall_mem_singleton.2 hname.tidy.nested
  have hblocked := Directive.includeFile.blocked_written [w] ('\n' :: v)
  have hkept {m : Text} {f : Family} (hm : m.Lacks f) : Rewrites ctx f (m ++ ['\n']) (m ++ ['\n']) :=
    .of_lacks Text.isBoundary_newline hm
  obtain ⟨x₁, s₁, hstage₁, h⟩ := bind_eq_ok.1 h
  obtain ⟨x₂, s₂, hstage₂, h⟩ := bind_eq_ok.1 h
  -- macros: both lines stay
  have hsound := sound_of_stage hstage₁
  have husound := Stretch.sound_of_append_cons Text.isBoundary_newline hu.nested.closes
    hblocked hsound
  have hbehind := (Stretch.sound_append_cons_iff Text.isBoundary_newline husound).1 hsound
  have hwlacks : w.Lacks .macros := Stretch.lacks_of_sound_written (by decide) hname hbehind
  have hlinelacks : (Directive.includeFile.written [w]).Lacks .macros :=
    Directive.lacks_written rfl (by decide) (List.forall_mem_singleton.2 hwlacks)
  obtain ⟨y, z, rfl, ⟨a, hfamily⟩, t₁, ht₁, hagrees₁⟩ := stage_stack (by decide) husound
    (hkept hlinelacks) (hkept (hlacks _ (by decide))) hline hc hs hst hstage₁
  have hy : y.Tidy := by
    refine (tidy_of_family hfamily hu hmacros fun attempt hattempt => ?_).1
    have hmem := (shaped_of_attempts hattempt).1
    refine Site.readsTidy_of_ne ctx ⟨fun heq => ?_, fun heq => ?_⟩
    · rw [heq] at hmem
      cases hmem
    · rw [heq] at hmem
      cases hmem
  rw [Scheme.protect_of_notMem hy.noEscape] at hstage₂ ht₁
  -- includes: the directive becomes the text
  have hysound := Stretch.sound_of_append_cons Text.isBoundary_newline hy.nested.closes
    (Directive.includeFile.blocked_written [w] _) (sound_of_stage hstage₂)
  have hblocks : Include.fileBlocks (Scheme.document.protect c) = [] :=
    Include.fileBlocks_of_lacks (hlacks _ (by decide)) (hlacks _ (by decide))
  have hsite : Rewrites ctx Directive.includeFile.family (Directive.includeFile.written [w])
      (Scheme.document.protect c) :=
    .site rfl (List.forall_mem_singleton.2 hname.tidy.nested) rfl fun start stop line =>
      Include.site_yields rfl hcontents hfault hblocks
  have hbreak : Rewrites ctx Directive.includeFile.family ['\n'] ['\n'] := .kept (by decide)
  have hs₁ := pending_of_stage hstage₁ hs
  obtain ⟨y', z', rfl, -, t₂, ht₂, hagrees₂⟩ := stage_stack (by decide) hysound
    (hsite.append hbreak) (hkept (hlacks _ (by decide))) hc hc hs₁ hagrees₁ hstage₂
  -- and from there on the buffers are the same
  obtain ⟨t', hrest, hagrees⟩ := (stages_follow ctx _ _).of_ok hagrees₂ h
  exact ⟨t', (bind_of_ok ht₁).trans ((bind_of_ok ht₂).trans hrest), hagrees⟩

/-! ## All passes -/

/-- Passes do not look at warnings and progress. -/
theorem alike_of_converges {fuel : Nat} {as : List Attempt}
    {r : EStateM.Result Failure RunState Text} (h : Converges ctx fuel u s as r)
    (hr : r = .ok x s') (hst : s.Alike t) :
    ∃ t', converge ctx fuel u t = .ok x t' ∧ s'.Alike t' := by
  induction h generalizing t with
  | resolved hdirective =>
    cases hr
    rw [converge_of_resolved hdirective]
    exact ⟨t, rfl, hst⟩
  | exhausted | refused | failed => cases hr
  | @pass _ u v s s₁ _ _ hdirective hbound hpass _ ih =>
    have hagrees : s.nextPass.Agrees t.nextPass := ⟨hst.macros, hst.pending⟩
    obtain ⟨t₁, ht₁, hagrees₁⟩ := (stages_follow ctx Family.all u).of_ok hagrees hpass
    have hcount : t₁.passes = s₁.passes := by
      rw [(pass_uncounted ctx u).of_ok hpass, (pass_uncounted ctx u).of_ok ht₁]
      exact congrArg (· + 1) hst.passes
    obtain ⟨t', ht', halike⟩ := ih hr ⟨hagrees₁.macros, hagrees₁.pending, hcount⟩
    refine ⟨t', (converge_eq_ok_iff hdirective).2 ⟨?_, v, t₁, ht₁, ht'⟩, halike⟩
    rw [hst.passes]
    exact hbound

/-- The passes over a buffer with an included file go like those over the text of the file. If
the text leaves nothing to resolve, there are none of those. -/
theorem converge_include {fuel : Nat} {c : Text} (hu : u.Tidy) (hmacros : s.macros.Tidy)
    (hname : w.Flat) (hcontents : Include.contents? ctx w = some c)
    (hfault : Scheme.document.fault? c = none) (hc : (Scheme.document.protect c).Settled)
    (hlacks : ∀ f ∈ [.macros, .includes, .tables], (Scheme.document.protect c).Lacks f)
    (hwhole : (Text.stack u (Scheme.document.protect c) v).Settled) (hs : s.pending = [])
    (hst : s.Alike t)
    (h : converge ctx fuel (.stack u (Directive.includeFile.written [w]) v) s = .ok x s') :
    ∃ t', converge ctx fuel (.stack u (Scheme.document.protect c) v) t = .ok x t' ∧
      t'.macros = s'.macros := by
  have hdirective : (Text.stack u (Directive.includeFile.written [w]) v).hasDirective = true := by
    have hline : (Directive.includeFile.written [w]).hasDirective = true := by
      refine Text.hasDirective_iff.2 ⟨_, List.suffix_rfl, ?_⟩
      have hkeyword := Directive.includeFile.directive?_keyword (w ++ '\x7d' :: Text.blocks [])
      rw [Directive.written, Text.blocks_cons, hkeyword]
      rfl
    rw [Text.hasDirective_stack, hline]
    simp
  cases fuel with
  | zero =>
    rw [converge_zero hdirective] at h
    cases h
  | succ fuel =>
    obtain ⟨hbound, y, s₁, hpass, hrest⟩ := (converge_eq_ok_iff hdirective).1 h
    have hagrees : s.nextPass.Agrees t.nextPass := ⟨hst.macros, hst.pending⟩
    have hnext : s.nextPass.macros.Tidy := hmacros
    have hpending : s.nextPass.pending = [] := hs
    obtain ⟨t₁, ht₁, hagrees₁⟩ :=
      pass_include hu hnext hname hcontents hfault hc hlacks hpending hagrees hpass
    cases hresolved : (Text.stack u (Scheme.document.protect c) v).hasDirective with
    | true =>
      have hcount : t₁.passes = s₁.passes := by
        rw [(pass_uncounted ctx _).of_ok hpass, (pass_uncounted ctx _).of_ok ht₁]
        exact congrArg (· + 1) hst.passes
      obtain ⟨t', ht', halike⟩ :=
        alike_of_converges (converges ..) hrest ⟨hagrees₁.macros, hagrees₁.pending, hcount⟩
      refine ⟨t', (converge_eq_ok_iff hresolved).2 ⟨?_, y, t₁, ht₁, ht'⟩, halike.macros⟩
      rw [hst.passes]
      exact hbound
    | false =>
      obtain ⟨-, t₂, hidle, ht₂⟩ :=
        pass_of_resolved ctx hwhole hresolved (hagrees.pending.trans hpending)
      rw [ht₁] at hidle
      cases hidle
      rw [converge_of_resolved hresolved] at hrest ⊢
      cases hrest
      refine ⟨t, rfl, ?_⟩
      rw [← hagrees₁.macros, ht₂.macros]
      rfl

end Preprocess

/-! ## Sources -/

/-- Where a source that includes a file has a result, it has the same with the text of the file
written in place of the directive, and defines the same macros. The source in front closes its
blocks. The text can be protected, holds as many opening as closing braces, and has no keyword
that concerns macros or files (if it has none as it is written, protection brings none:
`Text.Lacks.protect`). -/
theorem preprocess_include {ctx : Context} {u v w c x : Text} {s : RunState}
    (hu : (Scheme.document.protect u).Nested) (hname : w.Flat)
    (hcontents : Include.contents? ctx w = some c) (hfault : Scheme.document.fault? c = none)
    (hbraces : (Scheme.document.protect c).braces.1 = (Scheme.document.protect c).braces.2)
    (hlacks : ∀ f ∈ [.macros, .includes, .tables], (Scheme.document.protect c).Lacks f)
    (h : preprocess ctx (u ++ '\n' :: (Directive.includeFile.written [w] ++ '\n' :: v)) =
      .ok x s) :
    ∃ t, preprocess ctx (u ++ '\n' :: (c ++ '\n' :: v)) = .ok x t ∧ t.macros = s.macros := by
  have hline : '\\' ∉ Directive.includeFile.written [w] :=
    Directive.notMem_written _ (List.forall_mem_singleton.2 hname.tidy.noEscape)
  have hlinefault : Scheme.document.fault? (Directive.includeFile.written [w]) = none :=
    Scheme.fault?_of_notMem hline
  have hlinebraces := (Directive.includeFile.nested_written
    (List.forall_mem_singleton.2 hname.tidy.nested)).braces_eq
  have h : preprocess ctx (.stack u (Directive.includeFile.written [w]) v) = .ok x s := h
  obtain ⟨hwholefault, hwholebraces, s₁, s₂, -, hs₁, hconverge, hs₂⟩ :=
    Preprocess.converge_of_source h
  obtain ⟨hufault, -, hvfault⟩ := Scheme.fault?_stack.1 hwholefault
  have hprotect := Scheme.protect_stack hufault hlinefault hvfault
  rw [Scheme.protect_of_notMem hline] at hprotect
  have hprotect' := Scheme.protect_stack hufault hfault hvfault
  rw [hprotect] at hconverge hwholebraces
  -- the lines have as many braces of one kind as of the other, so both sources are settled
  have hfault' := Scheme.fault?_stack.2 ⟨hufault, hfault, hvfault⟩
  have hbraces' : (Scheme.document.protect (.stack u c v)).braces.1 =
      (Scheme.document.protect (.stack u c v)).braces.2 := by
    rw [Text.braces_stack] at hwholebraces
    rw [hprotect', Text.braces_stack]
    simp only at hwholebraces ⊢
    omega
  have hwhole : (Scheme.document.protect (.stack u c v)).Settled :=
    ⟨Scheme.notMem_protect hfault', hbraces'⟩
  obtain ⟨t₁, ht₁, hsource⟩ := Preprocess.source_of_converge ctx (s := {}) rfl hfault' hbraces'
  have hmacros : s₁.macros.Tidy := by
    rw [hs₁.macros]
    exact nofun
  have hst : s₁.Alike t₁ := ⟨ht₁.macros.trans hs₁.macros.symm,
    ht₁.pending.trans hs₁.pending.symm, ht₁.passes.trans hs₁.passes.symm⟩
  rw [hprotect'] at hwhole hsource
  obtain ⟨t₂, ht₂, hsame⟩ := Preprocess.converge_include
    ⟨Scheme.notMem_protect hufault, hu⟩ hmacros hname hcontents hfault
    ⟨Scheme.notMem_protect hfault, hbraces⟩ hlacks hwhole hs₁.pending hst hconverge
  obtain ⟨t, ht, hrun⟩ := hsource _ _ ht₂
  exact ⟨t, hrun, by rw [ht.macros, hsame, hs₂.macros]⟩

/-- A run that sees one file. -/
def Context.ofFile (name contents : Text) : Context where
  files := { files := [([name], contents.flatMap Encoding.Utf8.encodeChar)] }

/-- The file replaces a letter that a macro brings. -/
theorem preprocess_include_replacement :
    ∃ s t, preprocess (.ofFile ['f'] ".replace_all\x7bb\x7d\x7bx\x7d".toList)
        ".define_macro\x7bm\x7d\x7bb\x7d\n.include\x7bf\x7d\n.macro\x7bm\x7d".toList =
          .ok "\n\nx".toList s ∧
      preprocess (.ofFile ['f'] ".replace_all\x7bb\x7d\x7bx\x7d".toList)
        ".define_macro\x7bm\x7d\x7bb\x7d\n.replace_all\x7bb\x7d\x7bx\x7d\n.macro\x7bm\x7d".toList =
          .ok "\n\nx".toList t ∧ t.macros = s.macros := by
  have hfault : Scheme.document.fault? ".replace_all\x7bb\x7d\x7bx\x7d".toList = none := by
    decide +kernel
  have hlacks : ∀ f ∈ [Family.macros, .includes, .tables],
      Text.Lacks ".replace_all\x7bb\x7d\x7bx\x7d".toList f := by decide +kernel
  have hname : Text.Flat ['f'] := List.forall_mem_singleton.2 (by decide)
  obtain ⟨s, hs⟩ := Run.exists_of_value?
    (r := preprocess (.ofFile ['f'] ".replace_all\x7bb\x7d\x7bx\x7d".toList)
      ".define_macro\x7bm\x7d\x7bb\x7d\n.include\x7bf\x7d\n.macro\x7bm\x7d".toList)
    (a := "\n\nx".toList) (by decide +kernel)
  obtain ⟨t, ht, hmacros⟩ := preprocess_include (u := ".define_macro\x7bm\x7d\x7bb\x7d".toList)
    (v := ".macro\x7bm\x7d".toList) (by decide +kernel) hname (by decide +kernel) hfault
    (by decide +kernel) (fun f hf => (hlacks f hf).protect hfault) hs
  exact ⟨s, t, hs, ht, hmacros⟩

end Bracemark
