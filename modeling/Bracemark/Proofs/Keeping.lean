import Bracemark.Proofs.Passes

/-!
# What a run leaves alone

Part of the state of a run is out of reach for most of what a run does
(`Run.Keeps`). Nothing but a format warns, and nothing inside of a stage begins a pass: all
other directives are resolved quietly (`Resolve.site_quiet`), as are waiting substitutions and
what a stage does behind its family.
-/

namespace Bracemark

namespace Run

variable {α β γ δ : Type}

/-- A part of a run that leaves what `p` sees of the state alone, also when it fails. -/
structure Keeps (p : RunState → γ) (x : Run α) : Prop where
  of_ok : ∀ {s a s'}, x s = .ok a s' → p s' = p s
  of_error : ∀ {s e s'}, x s = .error e s' → p s' = p s

namespace Keeps

variable {p : RunState → γ}

/-- What sees less is kept, too. -/
theorem comp {x : Run α} (h : Keeps p x) (g : γ → δ) : Keeps (fun s => g (p s)) x where
  of_ok hx := congrArg g (h.of_ok hx)
  of_error hx := congrArg g (h.of_error hx)

theorem pure (a : α) : Keeps p (Pure.pure a : Run α) where
  of_ok h := by cases h; rfl
  of_error h := nomatch h

theorem throw (e : Failure) : Keeps p (throw e : Run α) where
  of_ok h := nomatch h
  of_error h := by cases h; rfl

theorem get : Keeps p (get : Run RunState) where
  of_ok h := by cases h; rfl
  of_error h := nomatch h

theorem modify {f : RunState → RunState} (hf : ∀ s, p (f s) = p s) :
    Keeps p (modify f : Run Unit) where
  of_ok h := by cases h; exact hf _
  of_error h := nomatch h

theorem bind {x : Run α} {f : α → Run β} (hx : Keeps p x) (hf : ∀ a, Keeps p (f a)) :
    Keeps p (x >>= f) where
  of_ok h := by
    obtain ⟨a, t, ht, h⟩ := bind_eq_ok.1 h
    exact ((hf a).of_ok h).trans (hx.of_ok ht)
  of_error h := by
    rcases bind_eq_error.1 h with h | ⟨a, t, ht, h⟩
    · exact hx.of_error h
    · exact ((hf a).of_error h).trans (hx.of_ok ht)

theorem forM {es : List α} {f : α → Run Unit} (h : ∀ e, Keeps p (f e)) :
    Keeps p (es.forM f) := by
  induction es with
  | nil => exact pure ()
  | cons e es ih => exact (h e).bind fun _ => ih

theorem foldlM {es : List α} {f : β → α → Run β} (h : ∀ b e, Keeps p (f b e)) (b : β) :
    Keeps p (es.foldlM f b) := by
  induction es generalizing b with
  | nil => exact pure b
  | cons e es ih =>
    rw [List.foldlM_cons]
    exact (h b e).bind ih

end Keeps

/-- A part of a run that counts no pass. -/
abbrev Uncounted (x : Run α) : Prop := Keeps (·.passes) x

/-- A part of a run that counts no pass and warns of nothing. -/
abbrev Quiet (x : Run α) : Prop := Keeps (fun s => (s.passes, s.warnings)) x

namespace Quiet

theorem uncounted {x : Run α} (h : Quiet x) : Uncounted x := h.comp Prod.fst

theorem warnings {x : Run α} (h : Quiet x) : Keeps (·.warnings) x := h.comp Prod.snd

theorem note (e : Event) : Quiet (Run.note e) :=
  .modify (f := fun s => { s with progress := s.progress.push e }) fun _ => rfl

theorem protect (scheme : Scheme) (file t : Text) : Quiet (Run.protect scheme file t) := by
  unfold Run.protect
  split
  · exact .throw _
  · simp only
    split
    · exact (note _).bind fun _ => .pure _
    · exact .pure _

theorem deprotect (scheme : Scheme) (t : Text) : Quiet (Run.deprotect scheme t) :=
  (Keeps.forM fun _ => note _).bind fun _ => .pure _

end Quiet

end Run

open Run (Keeps Quiet)

variable (ctx : Context)

namespace Include

theorem readFile_quiet (site : Site) (cause : Text → Cause) :
    Quiet (readFile ctx site cause) := by
  unfold readFile
  refine (Quiet.deprotect _ _).bind fun _ => ?_
  simp only
  split
  · exact .throw _
  · exact .throw _
  · split
    · exact .throw _
    · split
      · exact .throw _
      · exact (Quiet.note _).bind fun _ => .pure _

theorem pins_quiet (file : Path) (t : Text) (bs : List (Except BlockFault Block)) :
    Quiet (pins ctx file t bs) := by
  induction bs with
  | nil => exact .pure _
  | cons b bs ih =>
    cases b with
    | error f => exact .throw _
    | ok b =>
      have hpin : Quiet (pin ctx file t b) := by
        unfold pin
        simp only
        split
        · exact .pure _
        · refine (Quiet.deprotect _ _).bind fun _ => ?_
          split <;> exact .pure _
      exact hpin.bind fun _ => ih.bind fun _ => .pure _

theorem anchor_quiet (file : Path) (contents : Text) : Quiet (anchor ctx file contents) :=
  (Quiet.protect _ _ _).bind fun _ => (pins_quiet ..).bind fun _ => .pure _

theorem tableMarkup_quiet (file contents : Text) : Quiet (tableMarkup file contents) :=
  (Quiet.protect _ _ _).bind fun _ => (Quiet.deprotect _ _).bind fun _ => .pure _

end Include

theorem Style.apply_quiet (t : Text) (style : Style) : Quiet (style.apply t) := by
  cases style with
  | element name => exact .pure _
  | phonetic => exact (Quiet.deprotect _ _).bind fun _ => .pure _

namespace Resolve

/-- Only a format warns. -/
theorem site_quiet {site : Site} (h : site.directive ≠ .format) :
    Quiet (Resolve.site ctx site) := by
  unfold Resolve.site
  split
  · exact .bind (.modify fun _ => rfl) fun _ => (Quiet.note _).bind fun _ => .pure _
  · refine Keeps.get.bind fun _ => ?_
    split
    · exact .pure _
    · exact .throw _
  · exact (Include.readFile_quiet ..).bind fun _ => Include.anchor_quiet ..
  · exact (Include.readFile_quiet ..).bind fun _ => Include.tableMarkup_quiet ..
  · exact .pure _
  · exact absurd ‹_› h
  · simp only
    split
    · exact .pure _
    · exact .throw _
  · refine (Quiet.deprotect _ _).bind fun _ => (Quiet.deprotect _ _).bind fun _ => ?_
    split
    · exact .bind (.modify fun _ => rfl) fun _ => .pure _
    · exact .throw _
    · exact .throw _

theorem pending_quiet (t : Text) : Quiet (pending ctx t) := by
  have hsubstitute (t : Text) (sub : Substitution) : Quiet (substitute ctx t sub) := by
    unfold substitute
    split
    · exact .pure _
    · exact .throw _
    · exact .throw _
  refine Keeps.get.bind fun st => .bind (.modify fun _ => rfl) fun _ => ?_
  split
  · exact .pure _
  · exact (Keeps.foldlM hsubstitute _).bind fun _ => .pure _

end Resolve

theorem Preprocess.settle_quiet (t : Text) : Quiet (settle ctx t) := by
  refine (Quiet.protect _ _ _).bind fun u => Keeps.bind ?_ fun _ => .pure _
  unfold verifyBraces
  simp only
  split
  · exact .pure _
  · exact .throw _

end Bracemark
