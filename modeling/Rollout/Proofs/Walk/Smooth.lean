import Rollout.Proofs.Walk.Caller
import Rollout.Proofs.Walk.Held
import Rollout.Proofs.Walk.Stops
/-!
Visitors that stand in nobody's way: they do not wait, fail or cancel (`Visitor.Smooth`).  Nothing disturbs a walk with
such visitors (`Reached.undisturbed`).  Nothing holds it up either, so it is done when it rests
(`Reached.done_of_smooth`).

To set the status of a service that does not exist is to fail, so a smooth visitor sets those of known services only;
which services are known depends on the walk.  A visitor that does nothing is smooth for every graph.
-/
namespace Rollout

/-- The visitor of no service waits, cancels, or does what fails. -/
structure Visitor.Smooth (visitor : Visitor) (known : List String) : Prop where
  waits : ∀ name, .wait ∉ visitor name ∧ .waitCancel ∉ visitor name
  cancels : ∀ name, .cancel ∉ visitor name
  fails : ∀ name, ∀ action ∈ visitor name, ∀ cause, ¬ action.Fails known cause

namespace State

variable {w : Walk} {statuses : Table Status} {callerCancelled : Bool} {acts : List Outside} {s : State}

/-- **Nothing disturbs a walk with smooth visitors** that is not cancelled from outside. -/
theorem Reached.undisturbed (hw : w.Sound) (hst : ∀ n ∈ w.scope, n ∈ statuses.keys)
    (hsmooth : w.visitor.Smooth statuses.keys) (h : Reached w statuses false acts s) (hacts : .cancel ∉ acts) :
    ¬ Disturbed s.history := by
  rintro (hcancelled | ⟨name, cause, hended⟩)
  · rcases h.exists_cancel hw hst ((h.judged hw hst).cancelled.2 hcancelled) with hcaller | hact | ⟨name, hmem⟩
    · cases hcaller
    · exact hacts hact
    · exact hsmooth.cancels name hmem
  · obtain ⟨-, rest, hperformed, hconcludes⟩ := (h.faithful hw hst).ended name _ hended
    cases hconcludes with
    | badly hfails => exact hsmooth.fails name _ hperformed.mem cause hfails

theorem Reached.done_of_smooth (hw : w.Sound) (hst : ∀ n ∈ w.scope, n ∈ statuses.keys)
    (hsmooth : w.visitor.Smooth statuses.keys) (h : Reached w statuses callerCancelled acts s)
    (hqueue : s.queue = []) : s.done = true := by
  by_contra hdone
  obtain ⟨name, -, hinside⟩ := h.exists_underWay hw hst hqueue (Bool.not_eq_true _ ▸ hdone)
  rcases hinside.mem_visitor with hwait | hwait
  · exact (hsmooth.waits name).1 hwait
  · exact (hsmooth.waits name).2 hwait

end State

end Rollout
