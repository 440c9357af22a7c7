import Bracemark.Proofs.Citations
import Bracemark.Proofs.Failures
import Bracemark.Proofs.Logs
import Bracemark.Proofs.Nesting
import Bracemark.Proofs.Strictness

/-!
# Lines of a source

Offsets count the characters of a protected text, in which every escape pair has grown to a code.
Still the lines that diagnostics and nodes have are lines of the source, up to the first directive
that is resolved (`diagnostics_cite_source`).

The macro stage of the first pass is the one stage that scans the protected source itself. What it
finds there is at places of the source (`Place.of_site`, `Place.of_fault`), and resolving stops at
the first thing found that fails (`Resolve.exists_of_sites`). The stage protects its result once
more, but as it makes no backslash that brings no further error with a line
(`Preprocess.notMem_of_macros`). The log shows which errors these are: no macro stage is done before
them.

Where there is no directive, what is parsed is the protected source too.
-/

namespace Bracemark

/-! ## Directives at places -/

namespace Text.Place

variable {t : Text} {family : Family}

/-- Where the protected text has a keyword, the source has it too. -/
theorem of_directive? {x rest : Text} {c : Char} {d : Directive}
    (h : Scheme.document.fault? t = none) (ht : Scheme.document.protect t = x ++ c :: rest)
    (hd : directive? (c :: rest) = some d) :
    ∃ u v, Place t u ('.' :: d.name.toList ++ v) x.length ∧
      Place t (u ++ '.' :: d.name.toList) v (x.length + (d.name.length + 1)) ∧
      Scheme.document.protect v = rest.drop d.name.length := by
  obtain ⟨rfl, hname, -⟩ := eq_of_directive? hd
  have hat : '@' ∉ '.' :: d.name.toList := d.notMem_keyword rfl (by decide)
  have hdrop : rest = d.name.toList ++ rest.drop d.name.length := by
    rw [← String.length_toList, ← hname, drop_length_takeWhile, List.takeWhile_append_dropWhile]
  obtain ⟨u, v, hplace, hv⟩ := (Place.start h).seek ht rfl
  rw [hdrop, ← List.cons_append] at hv
  obtain ⟨v, rfl, hbehind, hv⟩ := hplace.advance hv hat
  rw [Nat.zero_add] at hplace hbehind
  rw [List.length_cons, String.length_toList] at hbehind
  exact ⟨u, v, hplace, hbehind, hv⟩

/-- The keyword of a site is at a place. -/
theorem of_site {site : Site} (h : Scheme.document.fault? t = none)
    (hsite : .ok site ∈ Site.scan family (Scheme.document.protect t)) :
    ∃ u v, Place t u ('.' :: site.directive.name.toList ++ v) site.start ∧
      site.line = t.lineAt u.length := by
  rw [Site.scan_eq_located] at hsite
  obtain ⟨before, w, behind, hws, hstart, -, hline⟩ := Stretch.mem_of_mem_located hsite
  obtain ⟨c, rest, ht, hstep⟩ := Stretch.exists_of_append hws
  obtain ⟨u, v, hplace, -⟩ := of_directive? h ht (Stretch.site_of_step hstep).1
  rw [← Nat.zero_add (List.length _), ← hstart] at hplace
  refine ⟨u, v, hplace, ?_⟩
  rw [hline, hplace.lineAt_eq]

/-- What a fault of a scan is about is at a place. -/
theorem of_fault {f : BlockFault} (h : Scheme.document.fault? t = none)
    (hfault : .error f ∈ Site.scan family (Scheme.document.protect t)) :
    ∃ u v, Place t u v f.offset ∧ Offends Lexer.directive v f.problem := by
  rw [Site.scan_eq_located] at hfault
  obtain ⟨before, w, behind, hws, hw⟩ := Stretch.exists_of_mem_located hfault
  cases w with
  | kept c => cases hw
  | site d us w => cases List.mem_singleton.1 hw
  | fault f =>
    cases List.mem_singleton.1 hw
    obtain ⟨c, rest, ht, hstep⟩ := Stretch.exists_of_append hws
    obtain ⟨d, hd, -, hread⟩ := Stretch.fault_of_step hstep
    obtain ⟨u, v, hkeyword, hbehind, hv⟩ := of_directive? h ht hd
    rw [← hv] at hread
    rw [Nat.zero_add]
    exact of_readBlocks Lexer.structural_directive ⟨u, v, hkeyword⟩ hbehind hread

end Text.Place

/-! ## The first stage of the first pass -/

namespace Resolve

variable {ctx : Context} {buffer : Text} {s s' : RunState} {e : Failure}

/-- Why resolving fails at what the scan has found. -/
inductive Fails (ctx : Context) (buffer : Text) : Except BlockFault Site → RunState →
    Failure → RunState → Prop where
  | fault (f : BlockFault) (s : RunState) : Fails ctx buffer (.error f) s
      (.diagnostic (.ofBlockFault .directive ctx.path buffer f)) s
  | site {site : Site} {s s' : RunState} {e : Failure}
      (h : Resolve.site ctx site s = .error e s') : Fails ctx buffer (.ok site) s e s'

/-- Resolving stops at the first thing found that fails, behind what is resolved. -/
theorem exists_of_sites {found : List (Except BlockFault Site)}
    (h : sites ctx buffer found s = .error e s') :
    ∃ before r behind edits s₁, found = before ++ r :: behind ∧
      sites ctx buffer before s = .ok edits s₁ ∧ Fails ctx buffer r s₁ e s' := by
  induction found generalizing s with
  | nil => cases h
  | cons r found ih =>
    cases r with
    | error f =>
      cases h
      exact ⟨[], .error f, found, [], _, rfl, rfl, .fault f _⟩
    | ok site =>
      rcases bind_eq_error.1 h with hsite | ⟨text, s₁, hsite, h⟩
      · exact ⟨[], .ok site, found, [], s, rfl, rfl, .site hsite⟩
      rcases bind_eq_error.1 h with hrest | ⟨others, s₂, -, h⟩
      · obtain ⟨before, r, behind, edits, s₂, rfl, hbefore, hfails⟩ := ih hrest
        refine ⟨.ok site :: before, r, behind, ⟨site.start, site.stop, text⟩ :: edits, s₂, rfl, ?_,
          hfails⟩
        rw [sites, bind_of_ok hsite, bind_of_ok hbefore]
        rfl
      · cases h

end Resolve

namespace Preprocess

variable {ctx : Context} {t u : Text} {s s' : RunState} {e : Failure}

/-- A site of the macro stage gives the body of a macro, or defines one. -/
theorem notMem_of_gives {site : Site} {v : Text} (h : Resolve.Gives ctx site s v s')
    (hfamily : site.directive.family = .macros) (harguments : ∀ u ∈ site.arguments, '\\' ∉ u)
    (hs : ∀ entry ∈ s.macros, '\\' ∉ entry.2) :
    '\\' ∉ v ∧ ∀ entry ∈ s'.macros, '\\' ∉ entry.2 := by
  have hsecond := Site.forall_second (P := ('\\' ∉ ·)) List.not_mem_nil harguments
  unfold Resolve.Gives at h
  cases hd : site.directive with
  | defineMacro =>
    simp only [hd] at h
    obtain ⟨rfl, hmacros, -⟩ := h
    rw [hmacros, Macros.define, List.forall_mem_cons]
    exact ⟨List.not_mem_nil, hsecond, fun entry hentry => hs entry (List.mem_of_mem_filter hentry)⟩
  | useMacro =>
    simp only [hd] at h
    obtain ⟨hbody, halike⟩ := h
    rw [halike.macros]
    exact ⟨hs _ (Macros.mem_of_body? hbody), hs⟩
  | includeFile | importTable | link | format | codePoint | replaceAll =>
    rw [hd] at hfamily
    cases hfamily

/-- The macro stage makes no backslash where its buffer and the macros have none. -/
theorem notMem_of_macros (h : Resolve.family ctx .macros t s = .ok u s') (ht : '\\' ∉ t)
    (hs : ∀ entry ∈ s.macros, '\\' ∉ entry.2) : '\\' ∉ u := by
  have hsite : ∀ a ∈ stageAttempts ctx .macros t s, ∀ (s : RunState) v s',
      (∀ entry ∈ s.macros, '\\' ∉ entry.2) → Resolve.Gives ctx a.site s v s' →
      '\\' ∉ v ∧ ∀ entry ∈ s'.macros, '\\' ∉ entry.2 := by
    intro a ha s v s' hs hgives
    obtain ⟨hfamily, x, w, y, rfl, -, -, hshaped⟩ := shaped_of_attempts ha
    refine notMem_of_gives hgives hfamily (fun u hu hmem => ht ?_) hs
    have := hshaped.subset u hu hmem
    simp [this]
  obtain ⟨-, vs, hvs, rfl, -⟩ := becomes_of_family
    (fun s => ∀ entry ∈ s.macros, '\\' ∉ entry.2) (fun _ _ v => '\\' ∉ v) h
    (fun s s' halike hs => by rwa [halike.macros]) hs hsite
  rw [← Stretch.flatMap_written_of_becomes hvs] at ht
  generalize Stretch.ofText .macros t = ws at hvs ht
  clear hsite h
  induction hvs with
  | nil => exact List.not_mem_nil
  | @cons w v ws vs hw _ ih =>
    rw [List.flatMap_cons, List.mem_append, not_or] at ht
    rw [List.flatten_cons, List.mem_append, not_or]
    refine ⟨?_, ih ht.2⟩
    cases w with
    | kept c =>
      obtain rfl : v = [c] := hw
      exact ht.1
    | site d us w => exact hw
    | fault f => exact hw.elim

theorem mem_progress_of_stage {f : Family} (h : stage ctx t f s = .ok u s') :
    .stageDone f u.length ∈ s'.progress := by
  rw [stage_eq] at h
  obtain ⟨v, s₁, -, h⟩ := bind_eq_ok.1 h
  obtain ⟨w, s₂, -, h⟩ := bind_eq_ok.1 h
  cases h
  exact Array.mem_push_self

/-- An error of the macro stage that has a line comes from what the scan has found. -/
theorem sites_of_stage {d : Diagnostic} {line : Nat}
    (h : stage ctx t .macros s = .error (.diagnostic d) s') (hline : d.line? = some line)
    (ht : '\\' ∉ t) (hs : s.macros = []) :
    Resolve.sites ctx t (Site.scan .macros t) s = .error (.diagnostic d) s' := by
  rcases failure_of_stage h with hbare | ⟨v, s₁, hbare, hunsettled⟩
  · rw [bareStage_of_ne (by decide)] at hbare
    rcases bind_eq_error.1 hbare with hsites | ⟨edits, s₁, -, hmore⟩
    · exact hsites
    · simp only at hmore
      split at hmore <;> cases hmore
  · -- the result of the stage has no backslash, and a fault of its braces has no line
    rw [bareStage_of_ne (by decide)] at hbare
    have hv := notMem_of_macros hbare ht (by rw [hs]; exact nofun)
    cases hunsettled with
    | escape hfault =>
      rw [Scheme.fault?_of_notMem hv] at hfault
      cases hfault
    | unbalanced => cases hline

/-- An error that has a line and comes before any stage is done comes from what the scan for macros
has found in the first buffer. -/
theorem sites_of_converge {fuel : Nat} {d : Diagnostic} {line : Nat}
    (h : converge ctx fuel t s = .error (.diagnostic d) s') (hline : d.line? = some line)
    (ht : '\\' ∉ t) (hs : s.macros = []) (hprogress : ∀ n, .stageDone .macros n ∉ s'.progress) :
    ∃ s₀, s₀.macros = [] ∧
      Resolve.sites ctx t (Site.scan .macros t) s₀ = .error (.diagnostic d) s' := by
  cases hdirective : t.hasDirective with
  | false =>
    rw [converge_of_resolved hdirective] at h
    cases h
  | true =>
    cases fuel with
    | zero =>
      rw [converge_zero hdirective] at h
      cases h
    | succ fuel =>
      rw [converge_of_hasDirective hdirective] at h
      by_cases hbound : ctx.settings.maxPasses = 0 ∨ s.passes < ctx.settings.maxPasses
      · rw [bind_of_ok (beginPass_eq ctx hbound), pass, Family.all, List.foldlM_cons,
          bind_assoc] at h
        rcases bind_eq_error.1 h with hstage | ⟨v, s₁, hstage, hmore⟩
        · refine ⟨_, ?_, sites_of_stage hstage hline ht ?_⟩ <;> exact hs
        · have hunaware (fs : List Family) :
              Run.Unaware (do converge ctx fuel (← fs.foldlM (stage ctx) v)) :=
            (Run.Unaware.foldlM (stage_unaware ctx) v).bind (converge_unaware ctx fuel)
          obtain ⟨more, hlog⟩ := (hunaware _).exists_progress hmore
          have hdone := mem_progress_of_stage hstage
          refine absurd ?_ (hprogress v.length)
          rw [hlog]
          exact Array.mem_append_left _ hdone
      · rw [bind_of_error (beginPass_eq_error ctx (by omega) (by omega))] at h
        cases h
        cases hline

/-- The macro stage of the first pass of a source comes to `r` in the state `s`: what the scan has
found in front of it is resolved. -/
def ComesTo (ctx : Context) (t : Text) (r : Except BlockFault Site) (s : RunState) : Prop :=
  ∃ before behind edits s₀, s₀.macros = [] ∧
    Site.scan .macros (Scheme.document.protect t) = before ++ r :: behind ∧
    Resolve.sites ctx (Scheme.document.protect t) before s₀ = .ok edits s

/-- What a diagnostic of a source is about stands behind `u`, at the beginning of `v`: a backslash
behind text that is accepted, the keyword of a macro that is not defined, or what is wrong with a
block that the scan for macros looks for. -/
inductive Blames (ctx : Context) (t u v : Text) : Cause → Prop where
  | escapeAtEnd (accepted : Scheme.document.fault? u = none) (backslash : v = ['\\']) :
      Blames ctx t u v .escapeAtEnd
  | inescapable {c : Char} {rest : Text} (accepted : Scheme.document.fault? u = none)
      (backslash : v = '\\' :: c :: rest) (unknown : Scheme.document.tag? c = none) :
      Blames ctx t u v (.inescapable c)
  | undefinedMacro {site : Site} {s : RunState} (comes : ComesTo ctx t (.ok site) s)
      (undefined : s.macros.body? site.first.trim = none) (place : Text.Place t u v site.start)
      (keyword : ".macro".toList <+: v) : Blames ctx t u v (.undefinedMacro site.first.trim)
  | block {f : BlockFault} {s : RunState} (comes : ComesTo ctx t (.error f) s)
      (place : Text.Place t u v f.offset) (offends : Text.Offends Lexer.directive v f.problem) :
      Blames ctx t u v (.block f.problem)

/-- A diagnostic that has the line in the source of what it is about. -/
def Cites (ctx : Context) (t : Text) (d : Diagnostic) : Prop :=
  ∃ u v, t = u ++ v ∧ d = ⟨.directive, ctx.path, some (t.lineAt u.length), d.cause⟩ ∧
    Blames ctx t u v d.cause

variable {d : Diagnostic}

/-- A macro that is not defined is the one reason for which the macro stage refuses a site. -/
theorem undefined_of_site {site : Site} (h : Resolve.site ctx site s = .error e s')
    (hfamily : site.directive.family = .macros) :
    site.directive = .useMacro ∧ s.macros.body? site.first.trim = none ∧
      e = .diagnostic ⟨.directive, ctx.path, some site.line, .undefinedMacro site.first.trim⟩ := by
  unfold Resolve.site at h
  cases hd : site.directive with
  | defineMacro =>
    simp only [hd] at h
    cases h
  | useMacro =>
    simp only [hd] at h
    replace h := (bind_of_ok rfl).symm.trans h
    cases hbody : s.macros.body? site.first.trim with
    | some body =>
      simp only [hbody] at h
      cases h
    | none =>
      simp only [hbody] at h
      cases h
      exact ⟨rfl, rfl, rfl⟩
  | includeFile | importTable | link | format | codePoint | replaceAll =>
    rw [hd] at hfamily
    cases hfamily

theorem cites_of_sites {s₀ : RunState} (ht : Scheme.document.fault? t = none)
    (hs : s₀.macros = [])
    (h : Resolve.sites ctx (Scheme.document.protect t)
      (Site.scan .macros (Scheme.document.protect t)) s₀ = .error (.diagnostic d) s') :
    Cites ctx t d := by
  obtain ⟨before, r, behind, edits, s₁, hscan, hbefore, hfails⟩ := Resolve.exists_of_sites h
  have hcomes : ComesTo ctx t r s₁ := ⟨before, behind, edits, s₀, hs, hscan, hbefore⟩
  have hmem : r ∈ Site.scan .macros (Scheme.document.protect t) := by
    rw [hscan]
    exact List.mem_append_right _ List.mem_cons_self
  cases hfails with
  | fault f =>
    obtain ⟨u, v, hplace, hoffends⟩ := Text.Place.of_fault ht hmem
    refine ⟨u, v, hplace.split, ?_, .block hcomes hplace hoffends⟩
    rw [← hplace.lineAt_eq]
    rfl
  | @site site _ _ _ hsite =>
    obtain ⟨u, v, hplace, hline⟩ := Text.Place.of_site ht hmem
    obtain ⟨huse, hundefined, he⟩ := undefined_of_site hsite (Site.shaped_of_scan hmem).1
    cases he
    rw [huse] at hplace
    refine ⟨u, _, hplace.split, ?_, .undefinedMacro hcomes hundefined hplace ?_⟩
    · rw [← hline]
    · exact List.prefix_append _ v

theorem cites_of_fault {f : EscapeFault} (h : Scheme.document.fault? t = some f) :
    Cites ctx t (Run.escapeDiagnostic ctx.path t f) := by
  have hfault : Scheme.document.faultFrom 0 (Piece.ofText t) = some f := h
  obtain ⟨u, v, rfl, hoffset, hu, hv⟩ := Scheme.exists_of_faultFrom hfault
  rw [Nat.zero_add] at hoffset
  refine ⟨u, v, rfl, ?_, ?_⟩
  · rw [← hoffset]
    rfl
  · unfold Run.escapeDiagnostic
    rcases hv with ⟨hnone, hv⟩ | ⟨c, rest, hsome, hunknown, hv⟩
    · rw [hnone]
      exact .escapeAtEnd hu hv
    · rw [hsome]
      exact .inescapable hu hv hunknown

/-- A diagnostic with a line that ends a run before any stage is done has the line of what it is
about in the source. -/
theorem cites_of_source {line : Nat} (h : source ctx t s = .error (.diagnostic d) s')
    (hline : d.line? = some line) (hs : s.macros = [])
    (hprogress : ∀ n, .stageDone .macros n ∉ s'.progress) : Cites ctx t d := by
  rw [source_eq] at h
  rcases settle_cases ctx t s with ⟨s₁, hsettle, halike, hfault, -⟩ | ⟨e, s₁, hsettle, hunsettled⟩
  · rw [bind_of_ok hsettle] at h
    rcases bind_eq_error.1 h with hconverge | ⟨v, s₂, -, hmore⟩
    · obtain ⟨s₀, hs₀, hsites⟩ := sites_of_converge hconverge hline (Scheme.notMem_protect hfault)
        (halike.macros.trans hs) hprogress
      exact cites_of_sites hfault hs₀ hsites
    · cases hmore
  · rw [bind_of_error hsettle] at h
    cases h
    cases hunsettled with
    | escape hfault => exact cites_of_fault hfault
    | unbalanced => cases hline

/-- A source without directives is protected and settled, and that is all. -/
theorem source_of_resolved (ctx : Context) (s : RunState)
    (h : t.hasDirective = false ∨ (Scheme.document.protect t).hasDirective = false) :
    (∃ e s', source ctx t s = .error e s' ∧ Unsettled ctx t e) ∨
    (Scheme.document.fault? t = none ∧
      ∃ s', source ctx t s = .ok (Scheme.document.protect t) s') := by
  rw [source_eq]
  rcases settle_cases ctx t s with ⟨s₁, hsettle, -, hfault, -⟩ | ⟨e, s₁, hsettle, hunsettled⟩
  · have hresolved := h.elim (Text.hasDirective_protect hfault) id
    rw [bind_of_ok hsettle, converge_of_resolved hresolved]
    exact .inr ⟨hfault, _, rfl⟩
  · exact .inl ⟨e, s₁, bind_of_error hsettle, hunsettled⟩

end Preprocess

/-! ## Lines of parse errors and of nodes -/

/-- A compilation of a source without directives fails where the source is settled, or where its
protected text is parsed, or it has the tree of its protected text. -/
theorem compile_of_resolved (ctx : Context) {t : Text}
    (h : t.hasDirective = false ∨ (Scheme.document.protect t).hasDirective = false) :
    (∃ e, (compile ctx t).result = .error e ∧ (compile ctx t).tree? = none ∧
      Preprocess.Unsettled ctx t e) ∨
    Scheme.document.fault? t = none ∧
      ((∃ f, (Document.parse ctx.settings.collapse (Scheme.document.protect t)).1 = .error f ∧
        (compile ctx t).result =
          .error (.diagnostic (f.diagnostic ctx.path (Scheme.document.protect t))) ∧
        (compile ctx t).tree? = none) ∨
      ∃ tree html,
        (Document.parse ctx.settings.collapse (Scheme.document.protect t)).1 = .ok tree ∧
        (compile ctx t).result = .ok html ∧ (compile ctx t).tree? = some tree) := by
  rcases Preprocess.source_of_resolved ctx { progress := #[.preprocessing] } h with
    ⟨e, s, hsource, hunsettled⟩ | ⟨hfault, s, hsource⟩
  · obtain ⟨hresult, htree⟩ := compile_of_error hsource
    exact .inl ⟨e, hresult, htree, hunsettled⟩
  · exact .inr ⟨hfault, compile_of_ok hsource⟩

/-- A diagnostic with a line that ends preprocessing before any macro stage is done has the line in
the source of what it is about: of the backslash, of the keyword of a macro, of the token found in
place of a block, or of the keyword if nothing is found, or of the brace that is not closed. In a
source without directives every parse error has the line of the token that it is about, and every
node below the root the line of its word. -/
theorem diagnostics_cite_source (ctx : Context) (t : Text) :
    (∀ d line s, preprocess ctx t = .error (.diagnostic d) s → d.line? = some line →
      (∀ n, .stageDone .macros n ∉ s.progress) → Preprocess.Cites ctx t d) ∧
    (t.hasDirective = false ∨ (Scheme.document.protect t).hasDirective = false →
      (∀ d, (compile ctx t).result = .error (.diagnostic d) → d.area = .parse →
        ∃ f u v, (Document.parse ctx.settings.collapse (Scheme.document.protect t)).1 = .error f ∧
          Text.Place t u v f.offset ∧ Document.Misread v f.cause ∧
          d = ⟨.parse, ctx.path, some (t.lineAt u.length), f.cause⟩) ∧
      ∀ tree, (compile ctx t).tree? = some tree →
        Document.Cites t (Lexer.document.tokens (Scheme.document.protect t)) tree.children) := by
  refine ⟨?_, fun hresolved => ⟨?_, ?_⟩⟩
  · intro d line s h hline hprogress
    exact Preprocess.cites_of_source h hline rfl hprogress
  · intro d h harea
    rcases compile_of_resolved ctx hresolved with ⟨e, hresult, -, hunsettled⟩ |
      ⟨hfault, ⟨f, hparse, hresult, -⟩ | ⟨tree, html, -, hresult, -⟩⟩
    · rw [hresult] at h
      cases h
      cases hunsettled <;> cases harea
    · rw [hresult] at h
      cases h
      obtain ⟨u, v, hplace, hmisread⟩ := Document.exists_place_of_parse hfault hparse
      refine ⟨f, u, v, hparse, hplace, hmisread, ?_⟩
      rw [← hplace.lineAt_eq]
      rfl
    · rw [hresult] at h
      cases h
  · intro tree h
    rcases compile_of_resolved ctx hresolved with ⟨e, -, htree, -⟩ |
      ⟨hfault, ⟨f, -, -, htree⟩ | ⟨tree', html, hparse, -, htree⟩⟩
    · rw [htree] at h
      cases h
    · rw [htree] at h
      cases h
    · rw [htree] at h
      cases h
      exact Document.cites_of_derives hfault (List.Subset.refl _)
        (Document.parse_eq_ok_iff.1 hparse).children

/-- Behind an escaped brace and a line feed: a macro that is not defined, a tag without a block, and
a node. -/
theorem diagnostics_cite_source_escaped :
    (∃ s d, preprocess {} "\\\x7b\n.macro\x7ba\x7d".toList = .error (.diagnostic d) s ∧
      d = ⟨.directive, "<input>".toList, some 2, .undefinedMacro ['a']⟩ ∧
      Preprocess.Cites {} "\\\x7b\n.macro\x7ba\x7d".toList d) ∧
    (∃ (f : Document.ParseFault) (u v : Text),
      (compile {} "main\x7b\\\x7b\ntext x\x7d".toList).result = .error (.diagnostic
        ⟨.parse, "<input>".toList, some 2, .block (.expected "text".toList (.word ['x']))⟩) ∧
      Text.Place "main\x7b\\\x7b\ntext x\x7d".toList u v f.offset ∧
      Document.Misread v f.cause) ∧
    ∃ tree, (compile {} "main\x7b\\\x7b\ntext\x7bx\x7d\x7d".toList).tree? = some tree ∧
      Document.Cites "main\x7b\\\x7b\ntext\x7bx\x7d\x7d".toList (Lexer.document.tokens
        (Scheme.document.protect "main\x7b\\\x7b\ntext\x7bx\x7d\x7d".toList)) tree.children := by
  refine ⟨?_, ?_, ?_⟩
  · obtain ⟨s, hs⟩ := Run.exists_of_failure?
      (r := preprocess {} "\\\x7b\n.macro\x7ba\x7d".toList)
      (e := .diagnostic ⟨.directive, "<input>".toList, some 2, .undefinedMacro ['a']⟩)
      (by decide +kernel)
    have hprogress : (Run.final (preprocess {} "\\\x7b\n.macro\x7ba\x7d".toList)).progress =
        #[.protectedEscapes 1 "document", .passStarted 1] := by decide +kernel
    rw [hs] at hprogress
    have hnone : ∀ n, .stageDone .macros n ∉ s.progress := by
      intro n
      rw [show s.progress = _ from hprogress]
      simp
    exact ⟨s, _, hs, rfl, (diagnostics_cite_source {} _).1 _ 2 s hs rfl hnone⟩
  · have hresult : (compile {} "main\x7b\\\x7b\ntext x\x7d".toList).result = .error (.diagnostic
        ⟨.parse, "<input>".toList, some 2, .block (.expected "text".toList (.word ['x']))⟩) := by
      decide +kernel
    obtain ⟨f, u, v, -, hplace, hmisread, -⟩ :=
      ((diagnostics_cite_source {} _).2 (.inl (by decide +kernel))).1 _ hresult rfl
    exact ⟨f, u, v, hresult, hplace, hmisread⟩
  · have hsome : (compile {} "main\x7b\\\x7b\ntext\x7bx\x7d\x7d".toList).tree?.isSome := by
      decide +kernel
    obtain ⟨tree, htree⟩ := Option.isSome_iff_exists.1 hsome
    exact ⟨tree, htree,
      ((diagnostics_cite_source {} _).2 (.inl (by decide +kernel))).2 tree htree⟩

end Bracemark
