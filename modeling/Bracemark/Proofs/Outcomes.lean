import Bracemark.Proofs.Inline

/-!
# What becomes of a site

Resolving a site gives a text or fails, and this module says once what each can be. Behind a
success the text of the site and what has changed in the run are known (`Resolve.Gives`), and
behind a failure its cause (`Resolve.Refuses`); nothing else happens (`Resolve.gives_of_ok`,
`Resolve.refuses_of_error`).

The text of an included file needs the path of the file only: `Include.anchored` is what the
paths in it are pinned to, as a function of the text.
-/

namespace Bracemark

/-! ## Files -/

namespace Include

variable {ctx : Context} {site : Site} {s s' : RunState}

/-- The path that the first block of a site names. -/
def path (ctx : Context) (site : Site) : Path :=
  resolve ctx (Text.trim (Scheme.document.deprotect site.first))

/-- The text of the file that the first block of a site names. -/
def text? (ctx : Context) (site : Site) : Option Text :=
  match ctx.files.read (path ctx site), Encoding.ofName? ctx.settings.sourceEncoding with
  | .ok bytes, some encoding => (encoding.decode bytes).toOption.map Text.unixLines
  | _, _ => none

/-- Why a file that a site names is not read. -/
inductive Unreadable (ctx : Context) (site : Site) (cause : Text → Cause) : Failure → Prop where
  | refused : Unreadable ctx site cause (.diagnostic ⟨.directive, ctx.path, some site.line,
      cause (Text.trim (Scheme.document.deprotect site.first))⟩)
  | nul (h : ctx.files.read (path ctx site) = .error .embeddedNul) :
      Unreadable ctx site cause (.file .embeddedNul)
  | encoding (h : Encoding.ofName? ctx.settings.sourceEncoding = none) :
      Unreadable ctx site cause (.unknownEncoding ctx.settings.sourceEncoding)

/-- A site reads the text of its file, and at most notes progress; or there is none. -/
theorem readFile_cases (ctx : Context) (site : Site) (cause : Text → Cause) (s : RunState) :
    (∃ contents s', text? ctx site = some contents ∧
      readFile ctx site cause s = .ok (path ctx site, contents) s' ∧ s.Alike s') ∨
    (text? ctx site = none ∧
      ∃ e s', readFile ctx site cause s = .error e s' ∧ Unreadable ctx site cause e) := by
  obtain ⟨s₁, hname, hs₁⟩ := Run.deprotect_eq_ok .document site.first s
  unfold readFile text?
  rw [bind_of_ok hname]
  simp only [← path.eq_1]
  cases hread : ctx.files.read (path ctx site) with
  | error e =>
    refine .inr ⟨rfl, ?_⟩
    cases e with
    | embeddedNul => exact ⟨_, _, rfl, .nul hread⟩
    | _ => exact ⟨_, _, rfl, .refused⟩
  | ok bytes =>
    cases hencoding : Encoding.ofName? ctx.settings.sourceEncoding with
    | none => exact .inr ⟨rfl, _, _, rfl, .encoding hencoding⟩
    | some encoding =>
      simp only
      cases hdecode : encoding.decode bytes with
      | error e => exact .inr ⟨rfl, _, _, rfl, .refused⟩
      | ok text => exact .inl ⟨_, _, rfl, rfl, hs₁.macros, hs₁.pending, hs₁.passes⟩

/-- The edit that pins the path in a block. -/
def pinned? (ctx : Context) (file : Path) (text : Text) (b : Block) : Option Edit :=
  let name := Path.ofText (Text.trim (Scheme.document.deprotect (b.interior text)))
  if (b.interior text).hasDirective || name.isAbsolute then none
  else some ⟨b.start, b.stop, Scheme.document.shield (pinned ctx.files file name)⟩

/-- A protected text with the paths in its blocks pinned. -/
def anchored (ctx : Context) (file : Path) (text : Text) : Text :=
  text.splice ((fileBlocks text).filterMap fun
    | .ok b => pinned? ctx file text b
    | .error _ => none)

theorem pin_eq_ok (ctx : Context) (file : Path) (text : Text) (b : Block) (s : RunState) :
    ∃ s', pin ctx file text b s = .ok (pinned? ctx file text b) s' ∧ s.Alike s' := by
  unfold pin pinned?
  simp only
  cases hdirective : (b.interior text).hasDirective with
  | true => exact ⟨s, rfl, .refl s⟩
  | false =>
    obtain ⟨s', hname, hs'⟩ := Run.deprotect_eq_ok .document (b.interior text) s
    simp only [Bool.false_eq_true, if_false, Bool.false_or]
    refine ⟨s', (bind_of_ok hname).trans ?_, hs'⟩
    split <;> rfl

/-- The paths of a list of blocks are pinned one by one, or there is a fault in the list. -/
theorem pins_cases (ctx : Context) (file : Path) (text : Text)
    (bs : List (Except BlockFault Block)) (s : RunState) :
    (∃ s', pins ctx file text bs s = .ok (bs.filterMap fun
        | .ok b => pinned? ctx file text b
        | .error _ => none) s' ∧ s.Alike s') ∨
    (∃ f s', .error f ∈ bs ∧ pins ctx file text bs s =
      .error (.diagnostic (.ofBlockFault .directive file.toText text f)) s') := by
  induction bs generalizing s with
  | nil => exact .inl ⟨s, rfl, .refl s⟩
  | cons b bs ih =>
    cases b with
    | error f => exact .inr ⟨f, s, List.mem_cons_self, rfl⟩
    | ok b =>
      obtain ⟨s₁, hpin, hs₁⟩ := pin_eq_ok ctx file text b s
      rcases ih s₁ with ⟨s₂, hpins, hs₂⟩ | ⟨f, s₂, hf, hpins⟩
      · refine .inl ⟨s₂, (bind_of_ok hpin).trans ((bind_of_ok hpins).trans ?_), hs₁.trans hs₂⟩
        cases hedit : pinned? ctx file text b <;> simp [hedit] <;> rfl
      · exact .inr ⟨f, s₂, List.mem_cons_of_mem _ hf,
          (bind_of_ok hpin).trans (bind_of_error hpins)⟩

/-- Why the text of an included file is not put in. -/
inductive Unanchored (file : Path) (contents : Text) : Failure → Prop where
  | escape {f : EscapeFault} (h : Scheme.document.fault? contents = some f) :
      Unanchored file contents (.diagnostic (Run.escapeDiagnostic file.toText contents f))
  | block {f : BlockFault} (hfault : Scheme.document.fault? contents = none)
      (h : .error f ∈ fileBlocks (Scheme.document.protect contents)) :
      Unanchored file contents (.diagnostic (.ofBlockFault .directive file.toText
        (Scheme.document.protect contents) f))

theorem anchor_cases (ctx : Context) (file : Path) (contents : Text) (s : RunState) :
    (Scheme.document.fault? contents = none ∧ ∃ s', anchor ctx file contents s =
      .ok (anchored ctx file (Scheme.document.protect contents)) s' ∧ s.Alike s') ∨
    (∃ e s', anchor ctx file contents s = .error e s' ∧ Unanchored file contents e) := by
  unfold anchor
  rcases Run.protect_cases .document file.toText contents s with
    ⟨f, hf, hprotect⟩ | ⟨hfault, s₁, hprotect, hs₁⟩
  · exact .inr ⟨_, _, bind_of_error hprotect, .escape hf⟩
  rcases pins_cases ctx file (Scheme.document.protect contents)
    (fileBlocks (Scheme.document.protect contents)) s₁ with ⟨s₂, hpins, hs₂⟩ | ⟨f, s₂, hf, hpins⟩
  · refine .inl ⟨hfault, s₂, (bind_of_ok hprotect).trans ?_, hs₁.trans hs₂⟩
    rw [bind_of_ok hpins]
    rfl
  · exact .inr ⟨_, _, (bind_of_ok hprotect).trans (bind_of_error hpins), .block hfault hf⟩

theorem tableMarkup_eq_ok (file contents : Text) (s : RunState) :
    ∃ s', tableMarkup file contents s = .ok (Table.convert contents) s' ∧ s.Alike s' := by
  unfold tableMarkup
  rcases Run.protect_cases .table file contents s with ⟨f, hf, -⟩ | ⟨-, s₁, hprotect, hs₁⟩
  · cases hf
  obtain ⟨s₂, hmarkup, hs₂⟩ := Run.deprotect_eq_ok .table
    (Table.markup (Table.rows (Scheme.table.protect contents))) s₁
  refine ⟨s₂, (bind_of_ok hprotect).trans ?_, hs₁.trans hs₂⟩
  rw [bind_of_ok hmarkup]
  rfl

end Include

/-! ## Formats -/

namespace Style

/-- Why a format is refused. -/
inductive Unformatted (ctx : Context) (line : Nat) : Failure → Prop where
  | redundant (c : Char) (h : ctx.settings.strict = true) :
      Unformatted ctx line (.diagnostic ⟨.directive, ctx.path, some line, .redundantSpecifier c⟩)
  | invalid (c : Char) (h : c ∉ specifiers) :
      Unformatted ctx line (.diagnostic ⟨.directive, ctx.path, some line, .invalidSpecifier c⟩)

theorem mem_specifiers_of_ofSpecifier? {c : Char} {style : Style}
    (h : ofSpecifier? c = some style) : c ∈ specifiers := by
  unfold ofSpecifier? at h
  split at h <;> first | decide | cases h

/-- A style can be applied to every text, in every state of a run. -/
theorem apply_eq_ok {c : Char} {style : Style} (h : ofSpecifier? c = some style) (t : Text)
    (s : RunState) : ∃ s', style.apply t s = .ok (put t c) s' ∧ s.Alike s' := by
  unfold put
  rw [h]
  cases style with
  | element name => exact ⟨s, rfl, .refl s⟩
  | phonetic =>
    obtain ⟨s', hs', halike⟩ := Run.deprotect_eq_ok .document t s
    exact ⟨s', bind_of_ok hs', halike⟩

/-- A format gives the text in its styles, those seen before aside, or it is refused. -/
theorem applyAll_cases (ctx : Context) (line : Nat) (seen spec t : Text) (s : RunState) :
    (∃ s', applyAll ctx line seen spec t s =
        .ok ((spec.filter fun c => !seen.contains c).eraseDups.foldl put t) s' ∧ s.Alike s' ∧
      ∀ c ∈ spec, c ∈ seen ∨ c ∈ specifiers) ∨
    (∃ e s', applyAll ctx line seen spec t s = .error e s' ∧ Unformatted ctx line e) := by
  induction spec generalizing seen t s with
  | nil => exact .inl ⟨s, rfl, .refl s, nofun⟩
  | cons c rest ih =>
    rw [applyAll]
    cases hseen : seen.contains c with
    | true =>
      have hc : c ∈ seen := List.contains_iff_mem.1 hseen
      rw [List.filter_cons_of_neg (by rw [hseen]; exact Bool.false_ne_true)]
      simp only [if_true]
      unfold repeated
      cases hstrict : ctx.settings.strict with
      | true => exact .inr ⟨_, _, rfl, .redundant c hstrict⟩
      | false =>
        have hwarn : ∃ s₁, Run.warn ctx line (.redundantSpecifier c) s = .ok () s₁ ∧ s.Alike s₁ :=
          ⟨_, rfl, rfl, rfl, rfl⟩
        obtain ⟨s₁, hwarn, hs₁⟩ := hwarn
        simp only [Bool.false_eq_true, if_false]
        rw [bind_of_ok hwarn]
        rcases ih seen t s₁ with ⟨s₂, hrest, hs₂, hmem⟩ | ⟨e, s₂, hrest, he⟩
        · exact .inl ⟨s₂, hrest, hs₁.trans hs₂, List.forall_mem_cons.2 ⟨.inl hc, hmem⟩⟩
        · exact .inr ⟨e, s₂, hrest, he⟩
    | false =>
      rw [List.filter_cons_of_pos (by rw [hseen]; rfl), List.eraseDups_cons, List.foldl_cons,
        filter_seen_cons]
      simp only [Bool.false_eq_true, if_false]
      cases hstyle : ofSpecifier? c with
      | none =>
        refine .inr ⟨_, _, rfl, .invalid c fun hc => ?_⟩
        obtain ⟨style, hsome⟩ := exists_ofSpecifier? hc
        cases hstyle.symm.trans hsome
      | some style =>
        obtain ⟨s₁, happly, hs₁⟩ := apply_eq_ok hstyle t s
        simp only
        rw [bind_of_ok happly]
        rcases ih (c :: seen) (put t c) s₁ with ⟨s₂, hrest, hs₂, hmem⟩ | ⟨e, s₂, hrest, he⟩
        · refine .inl ⟨s₂, hrest, hs₁.trans hs₂, List.forall_mem_cons.2
            ⟨.inr (mem_specifiers_of_ofSpecifier? hstyle), fun d hd => ?_⟩⟩
          rcases hmem d hd with hd | hd
          · rcases List.mem_cons.1 hd with rfl | hd
            · exact .inr (mem_specifiers_of_ofSpecifier? hstyle)
            · exact .inl hd
          · exact .inr hd
        · exact .inr ⟨e, s₂, hrest, he⟩

/-- A format of styles that are named once gives the text in them, also in strict mode. -/
theorem applyAll_eq_ok (ctx : Context) (line : Nat) {seen spec : Text}
    (hspec : ∀ c ∈ spec, c ∈ specifiers) (hnodup : spec.Nodup) (hseen : ∀ c ∈ spec, c ∉ seen)
    (t : Text) (s : RunState) :
    ∃ s', applyAll ctx line seen spec t s = .ok (spec.foldl put t) s' := by
  induction spec generalizing seen t s with
  | nil => exact ⟨s, rfl⟩
  | cons c rest ih =>
    obtain ⟨hc, hrest⟩ := List.forall_mem_cons.1 hspec
    obtain ⟨hcseen, hrestseen⟩ := List.forall_mem_cons.1 hseen
    obtain ⟨hcrest, hnodup⟩ := List.nodup_cons.1 hnodup
    obtain ⟨style, hstyle⟩ := exists_ofSpecifier? hc
    obtain ⟨s₁, happly, -⟩ := apply_eq_ok hstyle t s
    have hfresh : ∀ d ∈ rest, d ∉ c :: seen := fun d hd =>
      List.not_mem_cons_of_ne_of_not_mem (fun heq => hcrest (heq ▸ hd)) (hrestseen d hd)
    obtain ⟨s₂, hs₂⟩ := ih hrest hnodup hfresh (put t c) s₁
    refine ⟨s₂, ?_⟩
    rw [applyAll, if_neg (mt List.contains_iff_mem.1 hcseen)]
    simp only [hstyle]
    rw [bind_of_ok happly, hs₂, List.foldl_cons]

end Style

/-! ## Sites -/

namespace Resolve

/-- What the text of a resolved site is, and what resolving it changes in the run. -/
def Gives (ctx : Context) (site : Site) (s : RunState) (v : Text) (s' : RunState) : Prop :=
  match site.directive with
  | .defineMacro => v = [] ∧ s'.macros = s.macros.define site.first.trim site.second ∧
      s'.pending = s.pending ∧ s'.passes = s.passes
  | .useMacro => s.macros.body? site.first.trim = some v ∧ s.Alike s'
  | .includeFile => s.Alike s' ∧ ∃ contents, Include.text? ctx site = some contents ∧
      Scheme.document.fault? contents = none ∧
      v = Include.anchored ctx (Include.path ctx site) (Scheme.document.protect contents)
  | .importTable => s.Alike s' ∧ ∃ contents, Include.text? ctx site = some contents ∧
      v = Table.convert contents
  | .link => v = linkText site.first site.second ∧ s.Alike s'
  | .format => v = Style.formatted site.first site.second ∧
      (∀ c ∈ site.first, c ∈ Style.specifiers) ∧ s.Alike s'
  | .codePoint => s.Alike s' ∧ ∃ c, codePoint? site.first.trim = some c ∧
      v = Scheme.document.shield [c]
  | .replaceAll => v = [] ∧ s'.macros = s.macros ∧ s'.passes = s.passes ∧
      ∃ pattern, Pattern.ofText (Scheme.document.deprotect site.first) = .ok pattern ∧
        s'.pending = s.pending ++ [⟨pattern, Scheme.document.deprotect site.second, site.line⟩]

/-- Why a site is not resolved. -/
inductive Refuses (ctx : Context) (site : Site) : Failure → Prop where
  | undefined (h : site.directive = .useMacro) :
      Refuses ctx site (.diagnostic ⟨.directive, ctx.path, some site.line,
        .undefinedMacro site.first.trim⟩)
  | unreadable {e : Failure} {cause : Text → Cause}
      (h : site.directive = .includeFile ∧ cause = .unreadableInclude ∨
        site.directive = .importTable ∧ cause = .unreadableTable)
      (he : Include.Unreadable ctx site cause e) : Refuses ctx site e
  | unanchored {e : Failure} {contents : Text} (h : site.directive = .includeFile)
      (hcontents : Include.text? ctx site = some contents)
      (he : Include.Unanchored (Include.path ctx site) contents e) : Refuses ctx site e
  | unformatted {e : Failure} (h : site.directive = .format)
      (he : Style.Unformatted ctx site.line e) : Refuses ctx site e
  | codePoint (h : site.directive = .codePoint) :
      Refuses ctx site (.diagnostic ⟨.directive, ctx.path, some site.line,
        .invalidCodePoint site.first.trim⟩)
  | pattern (f : Pattern.Fault) (h : site.directive = .replaceAll) :
      Refuses ctx site (.diagnostic ⟨.directive, ctx.path, some site.line,
        .invalidPattern (Scheme.document.deprotect site.first) f⟩)
  | patternError {e : Pattern.Error} (h : site.directive = .replaceAll)
      (he : Pattern.ofText (Scheme.document.deprotect site.first) = .error e)
      (hfault : ∀ f, e ≠ .fault f) : Refuses ctx site (.pattern e)

variable {ctx : Context} {site : Site} {s s' : RunState}

/-- A site is resolved, and then what it gives is known, or it is refused for a known reason. -/
theorem site_cases (ctx : Context) (site : Site) (s : RunState) :
    (∃ v s', Resolve.site ctx site s = .ok v s' ∧ Gives ctx site s v s') ∨
    (∃ e s', Resolve.site ctx site s = .error e s' ∧ Refuses ctx site e) := by
  unfold Resolve.site Gives
  cases hd : site.directive with
  | defineMacro => exact .inl ⟨_, _, rfl, rfl, rfl, rfl, rfl⟩
  | useMacro =>
    cases hbody : s.macros.body? site.first.trim with
    | some body =>
      refine .inl ⟨body, s, ?_, rfl, .refl s⟩
      refine (bind_of_ok rfl).trans ?_
      simp only [hbody]
      rfl
    | none =>
      refine .inr ⟨_, s, ?_, .undefined hd⟩
      refine (bind_of_ok rfl).trans ?_
      simp only [hbody]
      rfl
  | includeFile =>
    rcases Include.readFile_cases ctx site .unreadableInclude s with
      ⟨contents, s₁, htext, hread, hs₁⟩ | ⟨-, e, s₁, hread, he⟩
    · rcases Include.anchor_cases ctx (Include.path ctx site) contents s₁ with
        ⟨hfault, s₂, hanchor, hs₂⟩ | ⟨e, s₂, hanchor, he⟩
      · exact .inl ⟨_, s₂, (bind_of_ok hread).trans hanchor, hs₁.trans hs₂, contents, htext,
          hfault, rfl⟩
      · exact .inr ⟨e, s₂, (bind_of_ok hread).trans hanchor, .unanchored hd htext he⟩
    · exact .inr ⟨e, s₁, bind_of_error hread, .unreadable (.inl ⟨hd, rfl⟩) he⟩
  | importTable =>
    rcases Include.readFile_cases ctx site .unreadableTable s with
      ⟨contents, s₁, htext, hread, hs₁⟩ | ⟨-, e, s₁, hread, he⟩
    · obtain ⟨s₂, htable, hs₂⟩ :=
        Include.tableMarkup_eq_ok (Include.path ctx site).toText contents s₁
      exact .inl ⟨_, s₂, (bind_of_ok hread).trans htable, hs₁.trans hs₂, contents, htext, rfl⟩
    · exact .inr ⟨e, s₁, bind_of_error hread, .unreadable (.inr ⟨hd, rfl⟩) he⟩
  | link => exact .inl ⟨_, s, rfl, rfl, .refl s⟩
  | format =>
    rcases Style.applyAll_cases ctx site.line [] site.first site.second s with
      ⟨s₁, hformat, hs₁, hmem⟩ | ⟨e, s₁, hformat, he⟩
    · have hall : (site.first.filter fun c => !List.contains [] c) = site.first :=
        List.filter_eq_self.2 fun _ _ => rfl
      rw [hall] at hformat
      exact .inl ⟨_, s₁, hformat, rfl, fun c hc => (hmem c hc).resolve_left nofun, hs₁⟩
    · exact .inr ⟨e, s₁, hformat, .unformatted hd he⟩
  | codePoint =>
    simp only
    cases hc : codePoint? site.first.trim with
    | some c => exact .inl ⟨_, s, rfl, .refl s, c, rfl, rfl⟩
    | none => exact .inr ⟨_, s, rfl, .codePoint hd⟩
  | replaceAll =>
    obtain ⟨s₁, hsource, hs₁⟩ := Run.deprotect_eq_ok .document site.first s
    obtain ⟨s₂, htemplate, hs₂⟩ := Run.deprotect_eq_ok .document site.second s₁
    have halike := hs₁.trans hs₂
    simp only
    rw [bind_of_ok hsource, bind_of_ok htemplate]
    cases hpattern : Pattern.ofText (Scheme.document.deprotect site.first) with
    | ok pattern =>
      exact .inl ⟨_, _, rfl, rfl, halike.macros, halike.passes, pattern, rfl,
        congrArg (· ++ _) halike.pending⟩
    | error e =>
      cases e with
      | fault f => exact .inr ⟨_, s₂, rfl, .pattern f hd⟩
      | _ => exact .inr ⟨_, s₂, rfl, .patternError hd hpattern nofun⟩

theorem gives_of_ok {v : Text} (h : Resolve.site ctx site s = .ok v s') :
    Gives ctx site s v s' := by
  rcases site_cases ctx site s with ⟨v', t, ht, hgives⟩ | ⟨e, t, ht, -⟩
  · rw [ht] at h
    cases h
    exact hgives
  · rw [ht] at h
    cases h

theorem refuses_of_error {e : Failure} (h : Resolve.site ctx site s = .error e s') :
    Refuses ctx site e := by
  rcases site_cases ctx site s with ⟨v, t, ht, -⟩ | ⟨e', t, ht, hrefuses⟩
  · rw [ht] at h
    cases h
  · rw [ht] at h
    cases h
    exact hrefuses

/-- Only a replacement puts a substitution on the list of those that wait. -/
theorem pending_of_gives {v : Text} (h : Gives ctx site s v s')
    (hd : site.directive ≠ .replaceAll) : s'.pending = s.pending := by
  unfold Gives at h
  cases hdirective : site.directive with
  | replaceAll => exact absurd hdirective hd
  | defineMacro =>
    simp only [hdirective] at h
    exact h.2.2.1
  | useMacro | link =>
    simp only [hdirective] at h
    exact h.2.pending
  | format =>
    simp only [hdirective] at h
    exact h.2.2.pending
  | includeFile | importTable | codePoint =>
    simp only [hdirective] at h
    exact h.1.pending

end Resolve

end Bracemark
