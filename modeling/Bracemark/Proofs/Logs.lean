import Bracemark.Compile
import Bracemark.Proofs.Passes

/-!
# An earlier log

A run writes warnings and progress and never reads them. So what was logged before it began stays
in front of what it logs itself, and changes nothing else (`Run.Unaware`): a compilation that goes
on from the state of a job gives what a fresh one gives (`compileFrom_behind`).
-/

namespace Bracemark

/-- The state with the log of something earlier in front of its own. -/
def RunState.behind (warnings : List Diagnostic) (progress : Array Event) (s : RunState) :
    RunState :=
  { s with warnings := warnings ++ s.warnings, progress := progress ++ s.progress }

namespace Run

variable {α β : Type}

/-- A result with another final state. -/
def mapState (g : RunState → RunState) :
    EStateM.Result Failure RunState α → EStateM.Result Failure RunState α
  | .ok a s => .ok a (g s)
  | .error e s => .error e (g s)

/-- A part of a run that an earlier log is of no consequence to. -/
structure Unaware (x : Run α) : Prop where
  eq_behind : ∀ warnings progress s, x (s.behind warnings progress) =
    mapState (·.behind warnings progress) (x s)

namespace Unaware

theorem pure (a : α) : Unaware (Pure.pure a : Run α) := ⟨fun _ _ _ => rfl⟩

theorem throw (e : Failure) : Unaware (throw e : Run α) := ⟨fun _ _ _ => rfl⟩

theorem modify {f : RunState → RunState}
    (hf : ∀ warnings progress s, f (s.behind warnings progress) =
      (f s).behind warnings progress) : Unaware (modify f : Run Unit) := by
  refine ⟨fun warnings progress s => ?_⟩
  exact congrArg (EStateM.Result.ok ()) (hf warnings progress s)

theorem bind {x : Run α} {f : α → Run β} (hx : Unaware x) (hf : ∀ a, Unaware (f a)) :
    Unaware (x >>= f) := by
  refine ⟨fun warnings progress s => ?_⟩
  have hfirst := hx.eq_behind warnings progress s
  cases h : x s with
  | ok a s' =>
    rw [h] at hfirst
    rw [bind_of_ok h, bind_of_ok hfirst]
    exact (hf a).eq_behind warnings progress s'
  | error e s' =>
    rw [h] at hfirst
    rw [bind_of_error h, bind_of_error hfirst]
    rfl

/-- What is done with the state does not depend on the log in it. -/
theorem get_bind {f : RunState → Run β}
    (h : ∀ warnings progress s, f (s.behind warnings progress) = f s) (hf : ∀ s, Unaware (f s)) :
    Unaware (get >>= f) := by
  refine ⟨fun warnings progress s => ?_⟩
  have hget : (get >>= f) (s.behind warnings progress) = f s (s.behind warnings progress) := by
    rw [← h warnings progress s]
    exact bind_of_ok rfl
  rw [hget, (hf s).eq_behind warnings progress s]
  rfl

theorem note (e : Event) : Unaware (Run.note e) :=
  modify (f := fun s => { s with progress := s.progress.push e }) fun _ _ _ => by
    simp [RunState.behind]

theorem warn (ctx : Context) (line : Nat) (cause : Cause) : Unaware (Run.warn ctx line cause) :=
  modify fun _ _ _ => by simp [RunState.behind]

theorem forM {es : List α} {f : α → Run Unit} (h : ∀ e, Unaware (f e)) :
    Unaware (es.forM f) := by
  induction es with
  | nil => exact pure ()
  | cons e es ih => exact (h e).bind fun _ => ih

theorem foldlM {es : List α} {f : β → α → Run β} (h : ∀ b e, Unaware (f b e)) (b : β) :
    Unaware (es.foldlM f b) := by
  induction es generalizing b with
  | nil => exact pure b
  | cons e es ih =>
    rw [List.foldlM_cons]
    exact (h b e).bind ih

theorem protect (scheme : Scheme) (file t : Text) : Unaware (Run.protect scheme file t) := by
  unfold Run.protect
  split
  · exact throw _
  · simp only
    split
    · exact (note _).bind fun _ => pure _
    · exact pure _

theorem deprotect (scheme : Scheme) (t : Text) : Unaware (Run.deprotect scheme t) :=
  (forM fun _ => note _).bind fun _ => pure _

/-- A part of a run that fails has added to the progress log and taken nothing back. -/
theorem exists_progress {x : Run α} (hx : Unaware x) {s s' : RunState} {e : Failure}
    (h : x s = .error e s') : ∃ more, s'.progress = s.progress ++ more := by
  have hs : s = RunState.behind s.warnings s.progress { s with warnings := [], progress := #[] } :=
    by simp [RunState.behind]
  rw [hs, hx.eq_behind, mapState.eq_def] at h
  split at h
  · cases h
  · cases h
    exact ⟨_, rfl⟩

end Unaware

end Run

open Run (Unaware)

variable (ctx : Context)

/-! ## Sites -/

namespace Include

theorem readFile_unaware (site : Site) (cause : Text → Cause) :
    Unaware (readFile ctx site cause) := by
  unfold readFile
  refine (Unaware.deprotect _ _).bind fun _ => ?_
  simp only
  split
  · exact .throw _
  · exact .throw _
  · split
    · exact .throw _
    · split
      · exact .throw _
      · exact (Unaware.note _).bind fun _ => .pure _

theorem pins_unaware (file : Path) (t : Text) (bs : List (Except BlockFault Block)) :
    Unaware (pins ctx file t bs) := by
  induction bs with
  | nil => exact .pure _
  | cons b bs ih =>
    cases b with
    | error f => exact .throw _
    | ok b =>
      have hpin : Unaware (pin ctx file t b) := by
        unfold pin
        simp only
        split
        · exact .pure _
        · refine (Unaware.deprotect _ _).bind fun _ => ?_
          split <;> exact .pure _
      exact hpin.bind fun _ => ih.bind fun _ => .pure _

theorem anchor_unaware (file : Path) (contents : Text) : Unaware (anchor ctx file contents) :=
  (Unaware.protect _ _ _).bind fun _ => (pins_unaware ..).bind fun _ => .pure _

theorem tableMarkup_unaware (file contents : Text) : Unaware (tableMarkup file contents) :=
  (Unaware.protect _ _ _).bind fun _ => (Unaware.deprotect _ _).bind fun _ => .pure _

end Include

theorem Style.applyAll_unaware (line : Nat) (seen spec t : Text) :
    Unaware (applyAll ctx line seen spec t) := by
  induction spec generalizing seen t with
  | nil => exact .pure _
  | cons c rest ih =>
    rw [applyAll]
    split
    · refine Unaware.bind ?_ fun _ => ih seen t
      unfold repeated
      split
      · exact .throw _
      · exact .warn ..
    · split
      · exact .throw _
      · rename_i style _
        refine Unaware.bind ?_ fun _ => ih _ _
        cases style with
        | element name => exact .pure _
        | phonetic => exact (Unaware.deprotect _ _).bind fun _ => .pure _

namespace Resolve

theorem site_unaware (site : Site) : Unaware (Resolve.site ctx site) := by
  unfold Resolve.site
  cases site.directive with
  | defineMacro =>
    exact .bind (.modify fun _ _ _ => rfl) fun _ => (Unaware.note _).bind fun _ => .pure _
  | useMacro =>
    refine .get_bind (fun _ _ _ => rfl) fun s => ?_
    split
    · exact .pure _
    · exact .throw _
  | includeFile =>
    exact (Include.readFile_unaware ..).bind fun _ => Include.anchor_unaware ..
  | importTable =>
    exact (Include.readFile_unaware ..).bind fun _ => Include.tableMarkup_unaware ..
  | link => exact .pure _
  | format => exact Style.applyAll_unaware ..
  | codePoint =>
    simp only
    split
    · exact .pure _
    · exact .throw _
  | replaceAll =>
    refine (Unaware.deprotect _ _).bind fun _ => (Unaware.deprotect _ _).bind fun _ => ?_
    split
    · exact .bind (.modify fun _ _ _ => rfl) fun _ => .pure _
    · exact .throw _
    · exact .throw _

theorem sites_unaware (buffer : Text) (found : List (Except BlockFault Site)) :
    Unaware (sites ctx buffer found) := by
  induction found with
  | nil => exact .pure []
  | cons r rest ih =>
    cases r with
    | error f => exact .throw _
    | ok site => exact (site_unaware ctx site).bind fun _ => ih.bind fun _ => .pure _

theorem family_unaware (f : Family) (t : Text) : Unaware (family ctx f t) := by
  refine (sites_unaware ctx t _).bind fun edits => ?_
  cases edits with
  | nil => exact .pure _
  | cons e es => exact (Unaware.note _).bind fun _ => .pure _

theorem pending_unaware (t : Text) : Unaware (pending ctx t) := by
  have hsubstitute (t : Text) (sub : Substitution) : Unaware (substitute ctx t sub) := by
    unfold substitute
    split
    · exact .pure _
    · exact .throw _
    · exact .throw _
  refine .get_bind (fun _ _ _ => rfl) fun s => ?_
  refine .bind (.modify fun _ _ _ => rfl) fun _ => ?_
  split
  · exact .pure _
  · exact (Unaware.foldlM hsubstitute _).bind fun _ => .pure _

end Resolve

/-! ## Preprocessing -/

namespace Preprocess

theorem settle_unaware (t : Text) : Unaware (settle ctx t) := by
  refine (Unaware.protect _ _ _).bind fun u => Unaware.bind ?_ fun _ => .pure _
  unfold verifyBraces
  simp only
  split
  · exact .pure _
  · exact .throw _

theorem stage_unaware (t : Text) (f : Family) : Unaware (stage ctx t f) := by
  have hbare : Unaware (bareStage ctx f t) := by
    refine (Resolve.family_unaware ctx f t).bind fun v => ?_
    cases f
    case replacements => exact Resolve.pending_unaware ctx v
    all_goals exact .pure _
  rw [stage_eq]
  exact hbare.bind fun _ => (settle_unaware ctx _).bind fun _ =>
    (Unaware.note _).bind fun _ => .pure _

theorem beginPass_unaware : Unaware (beginPass ctx) := by
  unfold beginPass
  refine .bind (.modify fun _ _ _ => rfl) fun _ => .get_bind (fun _ _ _ => rfl) fun s => ?_
  simp only
  split
  · exact (Unaware.throw _).bind fun _ => .note _
  · exact .note _

theorem converge_unaware (fuel : Nat) (t : Text) : Unaware (converge ctx fuel t) := by
  induction fuel generalizing t with
  | zero =>
    rw [converge]
    split
    · exact .throw _
    · exact .pure t
  | succ fuel ih =>
    rw [converge]
    split
    · exact (beginPass_unaware ctx).bind fun _ =>
        (Unaware.foldlM (stage_unaware ctx) t).bind ih
    · exact .pure t

theorem source_unaware (t : Text) : Unaware (source ctx t) := by
  rw [source_eq]
  exact (settle_unaware ctx t).bind fun u => (converge_unaware ctx _ u).bind fun v =>
    .get_bind (fun _ _ _ => rfl) fun _ => (Unaware.note _).bind fun _ => .pure v

end Preprocess

/-! ## Compiling -/

namespace Compile

theorem parse_unaware (markup : Text) : Unaware (parse ctx markup) := by
  unfold parse
  simp only
  refine (Unaware.forM fun _ => .note _).bind fun _ => ?_
  split
  · exact .throw _
  · exact (Unaware.note _).bind fun _ => .pure _

theorem render_unaware (tree : Tree) : Unaware (render ctx tree) := by
  have hgenerate : Unaware (generate ctx tree) := by
    unfold generate
    split
    · exact .throw _
    · exact (Unaware.note _).bind fun _ => .pure _
  exact hgenerate.bind fun _ => (Unaware.deprotect _ _).bind fun _ =>
    (Unaware.note _).bind fun _ => .pure _

end Compile

/-- A compilation that goes on behind an earlier log gives what a fresh one gives. -/
theorem compileFrom_behind (source : Text) (warnings : List Diagnostic) (progress : Array Event)
    (s : RunState) : compileFrom ctx source (s.behind warnings progress) =
      { compileFrom ctx source s with
        state := (compileFrom ctx source s).state.behind warnings progress } := by
  have hsource : Unaware (do Run.note .preprocessing; Preprocess.source ctx source : Run Text) :=
    (Unaware.note _).bind fun _ => Preprocess.source_unaware ctx source
  have hparse (markup : Text) :
      Unaware (do Run.note .parsing; Compile.parse ctx markup : Run Tree) :=
    (Unaware.note _).bind fun _ => Compile.parse_unaware ctx markup
  have hrender (tree : Tree) :
      Unaware (do Run.note .generating; Compile.render ctx tree : Run Text) :=
    (Unaware.note _).bind fun _ => Compile.render_unaware ctx tree
  unfold compileFrom
  simp only [EStateM.run, hsource.eq_behind]
  cases (do Run.note .preprocessing; Preprocess.source ctx source : Run Text) s with
  | error e s => rfl
  | ok markup s =>
    simp only [Run.mapState, (hparse markup).eq_behind]
    cases (do Run.note .parsing; Compile.parse ctx markup : Run Tree) s with
    | error e s => rfl
    | ok tree s =>
      simp only [Run.mapState, (hrender tree).eq_behind]
      cases (do Run.note .generating; Compile.render ctx tree : Run Text) s <;> rfl

/-- Behind the log of a job, a compilation gives what a fresh one gives. -/
theorem result_compileFrom (source : Text) (warnings : List Diagnostic) (progress : Array Event) :
    (compileFrom ctx source { warnings, progress }).result = (compile ctx source).result := by
  have hstart : RunState.behind warnings progress {} = { warnings, progress } := by
    simp [RunState.behind]
  rw [← hstart, compileFrom_behind]
  rfl

end Bracemark
