import Bracemark.Proofs.Passes

/-!
# Runs that follow one another

A part of a run reads two things from its state: the macros and the substitutions that wait. Two
states with the same of both agree (`RunState.Agrees`), and a part `y` of a run follows `x` if from
a state that agrees it gives what `x` gives, where `x` succeeds (`Run.Follows`).

A site stands at an offset and on a line, which matter to messages and to replacements only. So the
stretches of a buffer, resolved at another place in another buffer, follow themselves as long as
there is no replacement among them (`Stretch.resolve_follows`). On one buffer every stage follows
itself (`Preprocess.stage_follows`).
-/

namespace Bracemark

/-- Two states of a run with the same macros and the same substitutions that wait. -/
structure RunState.Agrees (s t : RunState) : Prop where
  macros : t.macros = s.macros
  pending : t.pending = s.pending

namespace RunState.Agrees

variable {s t u s' t' : RunState}

theorem refl (s : RunState) : s.Agrees s := ⟨rfl, rfl⟩

theorem symm (h : s.Agrees t) : t.Agrees s := ⟨h.macros.symm, h.pending.symm⟩

theorem trans (h : s.Agrees t) (h' : t.Agrees u) : s.Agrees u :=
  ⟨h'.macros.trans h.macros, h'.pending.trans h.pending⟩

theorem of_alike (h : s.Alike t) : s.Agrees t := ⟨h.macros, h.pending⟩

end RunState.Agrees

namespace Run

variable {α β : Type}

/-- From a state that agrees, `y` gives what `x` gives, where `x` succeeds. -/
structure Follows (x y : Run α) : Prop where
  of_ok : ∀ {s t a s'}, s.Agrees t → x s = .ok a s' → ∃ t', y t = .ok a t' ∧ s'.Agrees t'

namespace Follows

theorem pure (a : α) : Follows (Pure.pure a) (Pure.pure a) where
  of_ok hst h := by
    cases h
    exact ⟨_, rfl, hst⟩

/-- What fails is followed by anything. -/
theorem throw (e : Failure) (y : Run α) : Follows (throw e) y where
  of_ok _ h := nomatch h

theorem bind {x y : Run α} {f g : α → Run β} (hx : Follows x y) (hf : ∀ a, Follows (f a) (g a)) :
    Follows (x >>= f) (y >>= g) where
  of_ok hst h := by
    obtain ⟨a, s₁, hxs, h⟩ := bind_eq_ok.1 h
    obtain ⟨t₁, hyt, h₁⟩ := hx.of_ok hst hxs
    obtain ⟨t', hg, h'⟩ := (hf a).of_ok h₁ h
    exact ⟨t', (bind_of_ok hyt).trans hg, h'⟩

/-- What is done with the state depends on no more of it than agrees. -/
theorem get_bind {f g : RunState → Run β} (h : ∀ s t, s.Agrees t → Follows (f s) (g t)) :
    Follows (get >>= f) (get >>= g) where
  of_ok {s t _ _} hst hrun := by
    obtain ⟨st, s₁, hget, hrun⟩ := bind_eq_ok.1 hrun
    cases hget
    obtain ⟨t', hg, h'⟩ := (h s t hst).of_ok hst hrun
    exact ⟨t', (bind_of_ok rfl).trans hg, h'⟩

theorem modify {f g : RunState → RunState} (h : ∀ s t, s.Agrees t → (f s).Agrees (g t)) :
    Follows (modify f : Run Unit) (modify g) where
  of_ok {s t _ _} hst hrun := by
    cases hrun
    exact ⟨g t, rfl, h s t hst⟩

theorem note (e e' : Event) : Follows (Run.note e) (Run.note e') :=
  modify fun _ _ h => ⟨h.macros, h.pending⟩

theorem forM {es : List α} {f g : α → Run Unit} (h : ∀ e, Follows (f e) (g e)) :
    Follows (es.forM f) (es.forM g) := by
  induction es with
  | nil => exact pure ()
  | cons e es ih => exact (h e).bind fun _ => ih

theorem foldlM {es : List α} {f : β → α → Run β} (h : ∀ b e, Follows (f b e) (f b e)) (b : β) :
    Follows (es.foldlM f b) (es.foldlM f b) := by
  induction es generalizing b with
  | nil => exact pure b
  | cons e es ih =>
    rw [List.foldlM_cons]
    exact (h b e).bind ih

theorem protect (scheme : Scheme) (file t : Text) :
    Follows (Run.protect scheme file t) (Run.protect scheme file t) := by
  unfold Run.protect
  split
  · exact throw ..
  · simp only
    split
    · exact (note ..).bind fun _ => pure _
    · exact pure _

theorem deprotect (scheme : Scheme) (t : Text) :
    Follows (Run.deprotect scheme t) (Run.deprotect scheme t) :=
  (forM fun _ => note ..).bind fun _ => pure _

end Follows

end Run

open Run (Follows)

variable (ctx : Context)

/-! ## Sites -/

namespace Include

theorem readFile_follows {site site' : Site} (h : site.first = site'.first)
    (cause : Text → Cause) : Follows (readFile ctx site cause) (readFile ctx site' cause) := by
  unfold readFile
  rw [h]
  refine (Follows.deprotect ..).bind fun _ => ?_
  simp only
  split
  · exact .throw ..
  · exact .throw ..
  · split
    · exact .throw ..
    · split
      · exact .throw ..
      · exact (Follows.note ..).bind fun _ => .pure _

theorem pins_follows (file : Path) (t : Text) (bs : List (Except BlockFault Block)) :
    Follows (pins ctx file t bs) (pins ctx file t bs) := by
  induction bs with
  | nil => exact .pure _
  | cons b bs ih =>
    cases b with
    | error f => exact .throw ..
    | ok b =>
      have hpin : Follows (pin ctx file t b) (pin ctx file t b) := by
        unfold pin
        simp only
        split
        · exact .pure _
        · refine (Follows.deprotect ..).bind fun _ => ?_
          split <;> exact .pure _
      exact hpin.bind fun _ => ih.bind fun _ => .pure _

theorem anchor_follows (file : Path) (contents : Text) :
    Follows (anchor ctx file contents) (anchor ctx file contents) :=
  (Follows.protect ..).bind fun _ => (pins_follows ..).bind fun _ => .pure _

theorem tableMarkup_follows (file contents : Text) :
    Follows (tableMarkup file contents) (tableMarkup file contents) :=
  (Follows.protect ..).bind fun _ => (Follows.deprotect ..).bind fun _ => .pure _

end Include

/-- A format is applied alike on every line. -/
theorem Style.applyAll_follows (line line' : Nat) (seen spec t : Text) :
    Follows (applyAll ctx line seen spec t) (applyAll ctx line' seen spec t) := by
  induction spec generalizing seen t with
  | nil => exact .pure _
  | cons c rest ih =>
    rw [applyAll, applyAll]
    split
    · refine Follows.bind ?_ fun _ => ih seen t
      unfold repeated
      split
      · exact .throw ..
      · exact .modify fun _ _ h => ⟨h.macros, h.pending⟩
    · split
      · exact .throw ..
      · rename_i style _
        refine Follows.bind ?_ fun _ => ih _ _
        cases style with
        | element name => exact .pure _
        | phonetic => exact (Follows.deprotect ..).bind fun _ => .pure _

namespace Resolve

/-- A site gives the same at another place, unless it is a replacement: its line goes with it. -/
theorem site_follows {d : Directive} {line line' : Nat} (h : d ≠ .replaceAll ∨ line = line')
    (start stop start' stop' : Nat) (us : List Text) :
    Follows (Resolve.site ctx ⟨d, start, stop, line, us⟩)
      (Resolve.site ctx ⟨d, start', stop', line', us⟩) := by
  unfold Resolve.site
  cases d with
  | defineMacro =>
    refine Follows.bind (.modify fun s t hst => ⟨?_, hst.pending⟩) fun _ =>
      (Follows.note ..).bind fun _ => .pure _
    simp only [hst.macros]
    rfl
  | useMacro =>
    refine .get_bind fun s t hst => ?_
    rw [hst.macros]
    simp only [Site.first]
    split
    · exact .pure _
    · exact .throw ..
  | includeFile =>
    refine Follows.bind (Include.readFile_follows ctx ?_ _) fun _ => Include.anchor_follows ..
    rfl
  | importTable =>
    refine Follows.bind (Include.readFile_follows ctx ?_ _) fun _ => Include.tableMarkup_follows ..
    rfl
  | link => exact .pure _
  | format => exact Style.applyAll_follows ..
  | codePoint =>
    simp only [Site.first]
    split
    · exact .pure _
    · exact .throw ..
  | replaceAll =>
    obtain rfl := h.resolve_left fun hne => hne rfl
    refine (Follows.deprotect ..).bind fun _ => (Follows.deprotect ..).bind fun _ => ?_
    split
    · exact Follows.bind (.modify fun s t hst => ⟨hst.macros, by rw [hst.pending]⟩) fun _ => .pure _
    · exact .throw ..
    · exact .throw ..

theorem pending_follows (t : Text) : Follows (pending ctx t) (pending ctx t) := by
  have hsubstitute (t : Text) (sub : Substitution) :
      Follows (substitute ctx t sub) (substitute ctx t sub) := by
    unfold substitute
    split
    · exact .pure _
    · exact .throw ..
    · exact .throw ..
  refine .get_bind fun s s' hs => ?_
  rw [hs.pending]
  refine Follows.bind (.modify fun _ _ h => ⟨h.macros, rfl⟩) fun _ => ?_
  split
  · exact .pure _
  · exact (Follows.foldlM hsubstitute _).bind fun _ => .pure _

end Resolve

/-! ## Stages -/

namespace Stretch

/-- Stretches give the same in another buffer and at another place, if there is no replacement
among them. -/
theorem resolve_follows (buffer buffer' : Text) (start start' : Nat) {ws : List Stretch}
    (h : (∀ us w, .site .replaceAll us w ∉ ws) ∨ buffer = buffer' ∧ start = start') :
    Follows (resolve ctx buffer start ws) (resolve ctx buffer' start' ws) := by
  induction ws generalizing start start' with
  | nil => exact .pure _
  | cons w ws ih =>
    have hrest (n : Nat) : (∀ us w, .site .replaceAll us w ∉ ws) ∨
        buffer = buffer' ∧ start + n = start' + n := by
      rcases h with h | ⟨hbuffer, hstart⟩
      · exact .inl fun us w hm => h us w (List.mem_cons_of_mem _ hm)
      · exact .inr ⟨hbuffer, by rw [hstart]⟩
    cases w with
    | kept c => exact (ih _ _ (hrest 1)).bind fun _ => .pure _
    | site d us w =>
      refine (Resolve.site_follows ctx ?_ ..).bind fun _ =>
        (ih _ _ (hrest w.length)).bind fun _ => .pure _
      rcases h with h | ⟨hbuffer, hstart⟩
      · refine .inl fun hd => h us w ?_
        rw [hd]
        exact List.mem_cons_self
      · exact .inr (by rw [hbuffer, hstart])
    | fault f => exact .throw ..

end Stretch

namespace Preprocess

theorem family_follows (f : Family) (t : Text) :
    Follows (Resolve.family ctx f t) (Resolve.family ctx f t) := by
  have hresolve : Follows (Stretch.resolve ctx t 0 (Stretch.ofText f t))
      (Stretch.resolve ctx t 0 (Stretch.ofText f t)) :=
    Stretch.resolve_follows ctx t t 0 0 (.inr ⟨rfl, rfl⟩)
  refine ⟨fun hst h => ?_⟩
  rw [Resolve.family_eq] at h ⊢
  refine (hresolve.bind fun _ => ?_).of_ok hst h
  split
  · exact (Follows.note ..).bind fun _ => .pure _
  · exact .pure _

theorem settle_follows (t : Text) : Follows (settle ctx t) (settle ctx t) := by
  refine (Follows.protect ..).bind fun u => Follows.bind ?_ fun _ => .pure _
  unfold verifyBraces
  simp only
  split
  · exact .pure _
  · exact .throw ..

/-- A stage gives the same from every state that agrees. -/
theorem stage_follows (t : Text) (f : Family) : Follows (stage ctx t f) (stage ctx t f) := by
  have hbare : Follows (bareStage ctx f t) (bareStage ctx f t) := by
    refine (family_follows ctx f t).bind fun v => ?_
    cases f
    case replacements => exact Resolve.pending_follows ctx v
    all_goals exact .pure _
  rw [stage_eq]
  exact hbare.bind fun _ => (settle_follows ctx _).bind fun _ =>
    (Follows.note ..).bind fun _ => .pure _

theorem stages_follow (fs : List Family) (t : Text) :
    Follows (fs.foldlM (stage ctx) t) (fs.foldlM (stage ctx) t) :=
  .foldlM (stage_follows ctx) t

end Preprocess

end Bracemark
