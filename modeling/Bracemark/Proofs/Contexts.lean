import Bracemark.Proofs.Passes

/-!
# What a pass reads of its context

A run is given a file, the files around it and its settings. A pass reads the name of the file,
the files and the encoding of sources; strict mode matters to formats only
(`Resolve.site_eq_of_reads`), and the bound on passes to no part of a pass
(`Preprocess.pass_eq_of_reads`). Whether blanks are collapsed matters to no part of preprocessing
(`Preprocess.source_withCollapse`).
-/

namespace Bracemark

namespace Context

/-- The context with strict mode on or off. -/
def withStrict (ctx : Context) (strict : Bool) : Context :=
  { ctx with settings := { ctx.settings with strict } }

/-- The context with another bound on passes; 0 is no bound. -/
def withBound (ctx : Context) (bound : Nat) : Context :=
  { ctx with settings := { ctx.settings with maxPasses := bound } }

/-- The context with blanks collapsed or not. -/
def withCollapse (ctx : Context) (collapse : Bool) : Context :=
  { ctx with settings := { ctx.settings with collapse } }

/-- Two contexts in which the same is read from files and cited in messages. -/
structure ReadsAlike (ctx ctx' : Context) : Prop where
  path : ctx'.path = ctx.path
  files : ctx'.files = ctx.files
  encoding : ctx'.settings.sourceEncoding = ctx.settings.sourceEncoding

theorem readsAlike_withStrict (ctx : Context) (strict strict' : Bool) :
    (ctx.withStrict strict).ReadsAlike (ctx.withStrict strict') := ⟨rfl, rfl, rfl⟩

theorem readsAlike_withBound (ctx : Context) (bound : Nat) :
    ctx.ReadsAlike (ctx.withBound bound) := ⟨rfl, rfl, rfl⟩

theorem readsAlike_withCollapse (ctx : Context) (collapse : Bool) :
    ctx.ReadsAlike (ctx.withCollapse collapse) := ⟨rfl, rfl, rfl⟩

end Context

variable {ctx ctx' : Context}

/-! ## Sites -/

namespace Include

theorem readFile_eq_of_reads (h : ctx.ReadsAlike ctx') (site : Site) (cause : Text → Cause) :
    readFile ctx' site cause = readFile ctx site cause := by
  unfold readFile resolve Context.directory Run.complain
  simp only [h.path, h.files, h.encoding]

theorem pins_eq_of_files (h : ctx'.files = ctx.files) (file : Path) (t : Text)
    (bs : List (Except BlockFault Block)) : pins ctx' file t bs = pins ctx file t bs := by
  induction bs with
  | nil => rfl
  | cons b bs ih =>
    cases b with
    | error f => rfl
    | ok b =>
      have hpin : pin ctx' file t b = pin ctx file t b := by
        unfold pin
        rw [h]
      rw [pins, pins, hpin, ih]

theorem anchor_eq_of_files (h : ctx'.files = ctx.files) (file : Path) (contents : Text) :
    anchor ctx' file contents = anchor ctx file contents := by
  unfold anchor
  simp only [pins_eq_of_files h]

end Include

theorem Style.applyAll_eq_of_strict (hpath : ctx'.path = ctx.path)
    (hstrict : ctx'.settings.strict = ctx.settings.strict) (line : Nat) (seen spec t : Text) :
    applyAll ctx' line seen spec t = applyAll ctx line seen spec t := by
  have hrepeated (c : Char) : repeated ctx' line c = repeated ctx line c := by
    unfold repeated Run.complain Run.warn
    rw [hpath, hstrict]
  have hinvalid (c : Char) : (Run.complain ctx' line (.invalidSpecifier c) : Run Text) =
      Run.complain ctx line (.invalidSpecifier c) := by
    unfold Run.complain
    rw [hpath]
  induction spec generalizing seen t with
  | nil => rfl
  | cons c rest ih =>
    rw [applyAll, applyAll, hrepeated, hinvalid]
    simp only [ih]

namespace Resolve

/-- A site that is no format is resolved alike, whether in strict mode or not. -/
theorem site_eq_of_reads (h : ctx.ReadsAlike ctx') {site : Site}
    (hformat : site.directive ≠ .format ∨ ctx'.settings.strict = ctx.settings.strict) :
    Resolve.site ctx' site = Resolve.site ctx site := by
  unfold Resolve.site
  cases hd : site.directive with
  | includeFile =>
    simp only [Include.readFile_eq_of_reads h, Include.anchor_eq_of_files h.files]
  | importTable => simp only [Include.readFile_eq_of_reads h]
  | format =>
    obtain hstrict := hformat.resolve_left fun hne => hne hd
    exact Style.applyAll_eq_of_strict h.path hstrict ..
  | defineMacro | link => rfl
  | useMacro | codePoint | replaceAll =>
    unfold Run.complain
    simp only [h.path]

theorem sites_eq_of_reads (h : ctx.ReadsAlike ctx')
    (hstrict : ctx'.settings.strict = ctx.settings.strict) (buffer : Text)
    (found : List (Except BlockFault Site)) :
    sites ctx' buffer found = sites ctx buffer found := by
  induction found with
  | nil => rfl
  | cons r rest ih =>
    cases r with
    | error f =>
      rw [sites, sites, h.path]
    | ok site => rw [sites, sites, site_eq_of_reads h (.inr hstrict), ih]

theorem pending_eq_of_path (h : ctx'.path = ctx.path) (t : Text) :
    pending ctx' t = pending ctx t := by
  have hsubstitute : substitute ctx' = substitute ctx := by
    funext t sub
    unfold substitute Run.complain
    rw [h]
  unfold pending
  rw [hsubstitute]

end Resolve

/-! ## Stages -/

namespace Preprocess

theorem settle_eq_of_path (h : ctx'.path = ctx.path) (t : Text) :
    settle ctx' t = settle ctx t := by
  unfold settle verifyBraces Run.complain
  rw [h]

theorem stage_eq_of_reads (h : ctx.ReadsAlike ctx')
    (hstrict : ctx'.settings.strict = ctx.settings.strict) (t : Text) (f : Family) :
    stage ctx' t f = stage ctx t f := by
  have hfamily : Resolve.family ctx' f t = Resolve.family ctx f t := by
    unfold Resolve.family
    rw [Resolve.sites_eq_of_reads h hstrict]
  have hbare : bareStage ctx' f t = bareStage ctx f t := by
    unfold bareStage
    rw [hfamily]
    simp only [Resolve.pending_eq_of_path h.path]
  rw [stage_eq, stage_eq, hbare]
  simp only [settle_eq_of_path h.path]

/-- A pass does not read the bound on passes. -/
theorem pass_eq_of_reads (h : ctx.ReadsAlike ctx')
    (hstrict : ctx'.settings.strict = ctx.settings.strict) (t : Text) :
    pass ctx' t = pass ctx t := by
  have hstage : stage ctx' = stage ctx := by
    funext t f
    exact stage_eq_of_reads h hstrict t f
  unfold pass
  rw [hstage]

theorem converge_withCollapse (ctx : Context) (collapse : Bool) (fuel : Nat) (t : Text) :
    converge (ctx.withCollapse collapse) fuel t = converge ctx fuel t := by
  induction fuel generalizing t with
  | zero => rfl
  | succ fuel ih =>
    have hbegin : beginPass (ctx.withCollapse collapse) = beginPass ctx := rfl
    rw [converge, converge, hbegin, pass_eq_of_reads (ctx.readsAlike_withCollapse collapse) rfl]
    simp only [ih]

/-- Preprocessing does not read whether blanks are collapsed. -/
theorem source_withCollapse (ctx : Context) (collapse : Bool) (t : Text) :
    source (ctx.withCollapse collapse) t = source ctx t := by
  have hconverge : converge (ctx.withCollapse collapse) (fuel (ctx.withCollapse collapse)) =
      converge ctx (fuel ctx) := by
    funext t
    exact converge_withCollapse ctx collapse (fuel ctx) t
  have hverify : verifyBraces (ctx.withCollapse collapse) = verifyBraces ctx := rfl
  unfold source
  rw [hconverge, hverify]
  rfl

end Preprocess

end Bracemark
