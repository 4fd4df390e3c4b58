import Rollout.Proofs.Walk.Balance
/-!
The order in which visits begin.  A service is dispatched after all its prerequisites have ended well, which is read off
the balance when it is dispatched and stays true of the history (`Reached.fed`).  A visit begins after it was dispatched
and ends after it began, so what a service waits for through others has ended well before it begins too
(`Reached.precedes_of_awaits`).

That one event comes before another is said of the history as a list, newest first: whenever the later event stands in
it, the earlier one stands behind it.  It is a transitive relation between events, so a chain of prerequisites is an
induction with three links for each service: its good end, its beginning and its dispatch.  Prerequisites outside of the
scope do not count, and services outside of it are not visited at all.
-/
namespace Rollout

open Relation (TransGen)

namespace Outline

variable {w : Walk} {o o' : Outline} {name : String}

/-- No service was dispatched before all its prerequisites had ended well. -/
def Fed (w : Walk) (o : Outline) : Prop :=
  ∀ n, ∀ b ∈ w.prerequisites n, Precedes (.ended b none) (.dispatched n) o.history

theorem Fed.note (h : o.Fed w) {e : Event} (he : ∀ n, e ≠ .dispatched n) : (o.note e).Fed w :=
  fun n b hb => (h n b hb).cons fun heq => absurd heq (he n)

theorem Fed.cancel (h : o.Fed w) : o.cancel.Fed w := fun n b hb => by
  show Precedes _ _ (if o.callerCancelled then o.history else .cancelled :: o.history)
  split
  · exact h n b hb
  · exact (h n b hb).cons nofun

theorem Fed.dispatch (h : o.Fed w) {names : List String} (htraced : (o.dispatch names).Traced)
    (hbalanced : (o.dispatch names).Balanced w) : (o.dispatch names).Fed w := fun n b hb => by
  refine (h n b hb).append _ fun hn => ?_
  simp only [List.mem_reverse, List.mem_map, List.mem_filter, decide_eq_true_eq, Event.dispatched.injEq,
    exists_eq_right] at hn
  have hwaiting : (o.dispatch names).progress n = some .waiting := by rw [progress_dispatch, if_pos hn]
  have hended := (htraced.ended_iff (by simp)).2 (hbalanced.begun n _ hwaiting nofun b hb)
  rcases List.mem_append.1 hended with hnew | hold
  · simp at hnew
  · exact hold

theorem Fed.conclude (h : o.Fed w) (htidy : o.Tidy w) (hname : name ∈ w.scope) (error : Option Failure)
    (htraced : (o.conclude w name error).Traced) (hbalanced : (o.conclude w name error).Balanced w) :
    (o.conclude w name error).Fed w := by
  revert htraced hbalanced
  refine conclude_cases (P := fun o' => o'.Traced → o'.Balanced w → o'.Fed w) htidy.ready (htidy.marked name hname)
    ?_ ?_ ?_ ?_
  · exact fun _ _ _ _ => h
  · exact fun _ _ _ _ => h
  · exact fun _ _ _ _ _ => h
  · intro _ _ _ htraced hbalanced
    have hcounted : (o.counted w name).Fed w := h
    exact hcounted.dispatch htraced hbalanced

theorem Fed.step (h : o.Fed w) (htidy : o.Tidy w) (hstep : o.Step w o') (htraced : o'.Traced)
    (hbalanced : o'.Balanced w) : o'.Fed w := by
  cases hstep with
  | still => exact h
  | begin _ _ => exact h.note nofun
  | cancel _ => exact h.cancel
  | token _ => exact h.note nofun
  | status other _ => exact h.note nofun
  | log text _ => exact h.note nofun
  | write other status _ => exact h
  | @finish name error hp =>
    have hended : ((o.put name (.ended error)).note (.ended name error)).Fed w := h.note nofun
    exact hended.conclude ((htidy.put _ _).note _) (htidy.mem_scope hp) error htraced hbalanced
  | @turnAway name hp _ =>
    have hended : ((o.put name (.ended (some .cancelled))).note (.turnedAway name)).Fed w := h.note nofun
    exact hended.conclude ((htidy.put _ _).note _) (htidy.mem_scope hp) _ htraced hbalanced

theorem fed_initial {statuses : Table Status} {callerCancelled : Bool} (hw : w.Sound) :
    (Outline.initial w statuses callerCancelled).openRound.Fed w := by
  have hfirst : Fed w { (Outline.initial w statuses callerCancelled).notice with ready := [] } := fun n b _ => by
    refine precedes_of_not_mem ?_
    show Event.dispatched n ∉ if callerCancelled then [Event.cancelled] else []
    cases callerCancelled <;> simp
  have htraced : (Outline.initial w statuses callerCancelled).openRound.Traced := traced_initial hw
  have hbalanced : (Outline.initial w statuses callerCancelled).openRound.Balanced w :=
    balanced_initial statuses callerCancelled
  revert htraced hbalanced
  unfold openRound
  split
  · exact fun htraced hbalanced => hfirst.dispatch htraced hbalanced
  · exact fun _ _ => hfirst

end Outline

open Outline

namespace State

variable {w : Walk} {statuses : Table Status} {callerCancelled : Bool} {acts : List Outside} {s : State}

/-- **In every state of a walk, what was dispatched had its prerequisites behind it.** -/
theorem Reached.fed (hw : w.Sound) (hst : ∀ n ∈ w.scope, n ∈ statuses.keys)
    (h : Reached w statuses callerCancelled acts s) : s.outline.Fed w := by
  refine Reached.induction (P := fun _ o => o.Fed w) hw (fed_initial hw) ?_ ?_ ?_ h
  · intro _ s o' hrun hfed hstep
    have htidy := hrun.tidy hw hst
    have htraced := hrun.traced hw hst
    have hbalanced := hrun.balanced hw hst
    exact hfed.step htidy hstep (htraced.step htidy hstep) (hbalanced.step htidy hstep)
  · exact fun _ _ _ hfed => hfed
  · intro _ _ act _ hfed _
    cases act with
    | release _ => exact hfed
    | cancel => exact hfed.cancel
    | setStatus _ _ => exact hfed

/-- **What a service waits for, directly or through others, has ended well before its visitor begins.** -/
theorem Reached.precedes_of_awaits (hw : w.Sound) (hst : ∀ n ∈ w.scope, n ∈ statuses.keys)
    (h : Reached w statuses callerCancelled acts s) {a b : String} (hab : TransGen w.Awaits a b) :
    Precedes (.ended b none) (.began a) s.history := by
  have hfed := h.fed hw hst
  have htraced := h.traced hw hst
  have hdirect : ∀ c d, w.Awaits c d → Precedes (.ended d none) (.began c) s.history := fun c d hcd =>
    (hfed c d hcd).trans (htraced.dispatched_precedes_began c)
  -- along the chain: what stands in the middle has to begin before it can end
  induction hab with
  | single hab => exact hdirect _ _ hab
  | tail _ hcd ih => exact ((hdirect _ _ hcd).trans (htraced.began_precedes_ended _ none)).trans ih

theorem Reached.mem_scope_of_began (hw : w.Sound) (hst : ∀ n ∈ w.scope, n ∈ statuses.keys)
    (h : Reached w statuses callerCancelled acts s) {name : String} (hb : .began name ∈ s.history) :
    name ∈ w.scope := by
  rcases (h.traced hw hst).progress_of_began hb with hp | ⟨error, hp, -⟩
  · exact (h.tidy hw hst).mem_scope hp
  · exact (h.tidy hw hst).mem_scope hp

end State

end Rollout
