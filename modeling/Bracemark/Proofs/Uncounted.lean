import Bracemark.Proofs.Keeping

/-!
# Who counts passes

Passes are counted where they begin (`Preprocess.beginPass`). Nothing that happens inside of a
pass counts one, whether it succeeds or fails (`Preprocess.pass_uncounted`), so the number of
passes of a run is the number of those that have begun.
-/

namespace Bracemark

open Run (Keeps Uncounted Quiet)

variable (ctx : Context)

/-- A format may warn, but it counts no pass. -/
theorem Style.applyAll_uncounted (line : Nat) (seen spec t : Text) :
    Uncounted (applyAll ctx line seen spec t) := by
  induction spec generalizing seen t with
  | nil => exact .pure _
  | cons c rest ih =>
    rw [applyAll]
    split
    · refine Keeps.bind ?_ fun _ => ih seen t
      unfold repeated
      split
      · exact .throw _
      · exact .modify fun _ => rfl
    · split
      · exact .throw _
      · exact (apply_quiet t _).uncounted.bind fun _ => ih _ _

namespace Resolve

theorem site_uncounted (site : Site) : Uncounted (Resolve.site ctx site) := by
  by_cases h : site.directive = .format
  · unfold Resolve.site
    rw [h]
    exact Style.applyAll_uncounted ..
  · exact (site_quiet ctx h).uncounted

theorem sites_uncounted (buffer : Text) (found : List (Except BlockFault Site)) :
    Uncounted (sites ctx buffer found) := by
  induction found with
  | nil => exact .pure _
  | cons r rest ih =>
    cases r with
    | error f => exact .throw _
    | ok site => exact (site_uncounted ctx site).bind fun _ => ih.bind fun _ => .pure _

theorem family_uncounted (f : Family) (t : Text) : Uncounted (family ctx f t) := by
  refine (sites_uncounted ..).bind fun edits => ?_
  simp only
  split
  · exact (Quiet.note _).uncounted.bind fun _ => .pure _
  · exact .pure _

end Resolve

namespace Preprocess

theorem settle_uncounted (t : Text) : Uncounted (settle ctx t) := (settle_quiet ctx t).uncounted

theorem stage_uncounted (t : Text) (f : Family) : Uncounted (stage ctx t f) := by
  have hbare : Uncounted (bareStage ctx f t) := by
    refine (Resolve.family_uncounted ctx f t).bind fun v => ?_
    cases f
    case replacements => exact (Resolve.pending_quiet ctx v).uncounted
    all_goals exact .pure _
  rw [stage_eq]
  exact hbare.bind fun _ => (settle_uncounted ctx _).bind fun _ =>
    (Quiet.note _).uncounted.bind fun _ => .pure _

/-- A pass counts no pass. -/
theorem pass_uncounted (t : Text) : Uncounted (pass ctx t) :=
  Keeps.foldlM (fun t f => stage_uncounted ctx t f) t

end Preprocess

end Bracemark
