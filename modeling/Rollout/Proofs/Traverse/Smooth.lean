import Rollout.Proofs.Deployment
import Rollout.Proofs.Traverse.Outcome
import Rollout.Proofs.Walk.Agenda
import Rollout.Proofs.Walk.Rests
/-!
Traversals with smooth visitors.  They are over by their first rest, before anything can happen from outside, and they
end well (`Deployment.traverse_smooth`).  Their visits follow one another in the order of the sequential algorithm, so
the limit makes no difference to it (`Deployment.traverse_sequential`).

A visitor is smooth if it neither waits nor fails nor cancels, and sets the statuses of known services only.  A visit of
such a visitor runs from its first turn to its last while it stands at the head of the run queue, so there is never
another one under way.  The sequential algorithm is a list with a step of its own: it takes the first of the services
that are pending and puts those at the end whose last prerequisite that was.  It knows nothing of the machine, of turns
or of slots.
-/
namespace Rollout

namespace State

variable {w : Walk} {statuses : Table Status} {s : State} {a : Agenda}

theorem succeeded_bounds (events : List Event) : succeeded (bounds events) = succeeded events := by
  unfold succeeded bounds
  rw [List.filterMap_filter]
  refine List.filterMap_congr fun e _ => ?_
  cases e with
  | _ => rfl

theorem succeeded_inTurn (names : List String) : succeeded (inTurn names) = names := by
  unfold succeeded inTurn
  induction names with
  | nil => rfl
  | cons name names ih => exact congrArg (name :: ·) ih

/-- **At its first rest a smooth walk has processed all it covers.** -/
theorem Reached.processed_of_done (hw : w.Sound) (hst : ∀ n ∈ w.scope, n ∈ statuses.keys)
    (h : Reached w statuses false [] s) (hquiet : ¬ Disturbed s.history) (hin : s.roster.InStep a)
    (hqueue : s.queue = []) (hdone : s.done = true) :
    a.pending = [] ∧ a.processed.Perm w.scope ∧ bounds s.history.reverse = inTurn a.processed := by
  have hpending : a.pending = [] := hin.queue.symm.trans hqueue
  have hbounds : bounds s.history = (inTurn a.processed).reverse := by
    cases hin.serial with
    | between _ hbounds => exact hbounds
    | inside hcons =>
      rw [hpending] at hcons
      cases hcons
  have hforward : bounds s.history.reverse = inTurn a.processed := by
    unfold bounds at hbounds ⊢
    rw [List.filter_reverse, hbounds, List.reverse_reverse]
  have hcomplete := (h.complete hw hst hdone (h.failure_of_undisturbed hw hst hquiet)).reverse
  have hsucceeded : succeeded s.history.reverse = a.processed := by
    rw [← succeeded_bounds, hforward, succeeded_inTurn]
  exact ⟨hpending, hsucceeded ▸ hcomplete.succeeded, hforward⟩

end State

namespace Deployment

variable {d : Deployment} {t : Traversal} {limit : Option Limit} {visitor : Visitor} {w : Walk}

/-- **A traversal with smooth visitors ends well**, whatever the limit is.  It is over before anything can happen from
outside. -/
theorem traverse_smooth (hd : d.Sound) (hsmooth : visitor.Smooth d.graph.services)
    (hwalk : t.walk d.graph limit visitor = .ok w) (script : Script) :
    (d.traverse t limit visitor false script).1.result = .ok := by
  obtain ⟨hw, -, hst⟩ := hd.of_walk hwalk
  obtain ⟨scope, -, rfl⟩ := walk_eq hwalk
  rw [← hd.statuses] at hsmooth
  have hfirst : ∀ w : Walk, State.Reached w d.statuses false [] (State.start w d.statuses false) :=
    fun w => State.runs_settle w _
  have hreached := hfirst ⟨d.graph, t.direction, scope, t.target, limit, visitor⟩
  have hdone := hreached.done_of_smooth hw hst hsmooth (State.queue_settle _ _)
  have hquiet := hreached.undisturbed hw hst hsmooth List.not_mem_nil
  rw [traverse_eq hwalk]
  show ((State.start _ d.statuses false).last _ script).result = .ok
  rw [State.last_of_done hdone, State.result_eq_ok_iff (hreached.tidy hw hst).aborted]
  exact ⟨hdone, hreached.failure_of_undisturbed hw hst hquiet⟩

/-- **A traversal with smooth visitors runs the sequential algorithm**, whatever its limit is.  It ends well in its
first phase, and its visits begin and end one after another, in the order in which the algorithm processes the covered
services: first come, first served, from those that wait for nothing. -/
theorem traverse_sequential (hd : d.Sound) (ht : t.Known d.graph) (limit : Option Limit)
    (hsmooth : visitor.Smooth d.graph.services) (script : Script) :
    let report := (d.traverse t limit visitor false script).1
    ∃ w order, t.walk d.graph limit visitor = .ok w ∧ Ascending w.scope ∧ (∀ n, n ∈ w.scope ↔ t.Covers d.graph n) ∧
      Agenda.after w w.scope.length = ⟨[], order⟩ ∧ order.Perm w.scope ∧
      report.result = .ok ∧ report.phases.length = 1 ∧ report.dropped = [] ∧ bounds report.events = inTurn order := by
  obtain ⟨w, hwalk, hw, -, -, -, hmem, hst⟩ := hd.exists_walk ht limit visitor
  have hkeys : w.visitor.Smooth d.statuses.keys := by
    obtain ⟨scope, -, rfl⟩ := walk_eq hwalk
    exact hd.statuses ▸ hsmooth
  have hreached : State.Reached w d.statuses false [] (State.start w d.statuses false) := State.runs_settle w _
  have hqueue : (State.start w d.statuses false).queue = [] := State.queue_settle w _
  have hdone := hreached.done_of_smooth hw hst hkeys hqueue
  have hquiet := hreached.undisturbed hw hst hkeys List.not_mem_nil
  obtain ⟨a, hin, hafter⟩ := hreached.exists_inStep hw hst hkeys rfl
  obtain ⟨hpending, hperm, hbounds⟩ := hreached.processed_of_done hw hst hquiet hin hqueue hdone
  have hresult := traverse_smooth hd hsmooth hwalk script
  have hevents := State.events_phases hw hst script _ [] [] hreached List.nil_suffix
  refine ⟨w, a.processed, hwalk, hw.ascending, hmem, ?_, hperm, hresult, ?_, ?_, ?_⟩
  · rw [← hperm.length_eq, ← hafter, ← hpending]
  · rw [traverse_eq hwalk]
    refine (State.length_phases _ 0).trans ?_
    rw [State.rests_of_done hdone]
    rfl
  · rw [traverse_eq hwalk]
    show (if ((State.start w d.statuses false).last w script).done then _ else _) = []
    rw [State.last_of_done hdone, if_pos hdone]
  · rw [State.last_of_done hdone] at hevents
    rw [← hbounds, traverse_eq hwalk]
    exact congrArg bounds hevents

theorem traverse_sequential_pair :
    bounds (pair.traverse .forward (some ⟨2, by decide, by decide⟩) (fun _ => [.token]) false []).1.events =
      inTurn ["db", "api"] := by
  have hknown : Traversal.forward.Known pair.graph := fun _ h => by cases h
  have hsmooth : Visitor.Smooth (fun _ => [.token]) pair.graph.services := by
    refine ⟨fun _ => ⟨by decide, by decide⟩, fun _ => by decide, fun name action h cause hfails => ?_⟩
    rw [List.mem_singleton.1 h] at hfails
    cases hfails
  obtain ⟨w, order, hwalk, -, -, hafter, -, -, -, -, hbounds⟩ :=
    traverse_sequential sound_pair hknown (some ⟨2, by decide, by decide⟩) hsmooth []
  obtain rfl := Except.ok.inj (hwalk.symm.trans rfl)
  rw [hbounds]
  have horder : ["db", "api"] = order := congrArg Agenda.processed hafter
  rw [← horder]

end Deployment

end Rollout
