import Rollout.Proofs.Traverse.Outcome
import Rollout.Proofs.Walk.Ample
/-!
A traversal with and without a limit.  If the limit allows as many visits at once as there are services to visit and
nothing disturbs the traversal, the limit makes no difference to anything it shows (`traverse_agrees`).
-/
namespace Rollout

open State (Reached)

theorem disturbed_reverse {events : List Event} : Disturbed events.reverse ↔ Disturbed events := by
  unfold Disturbed
  simp only [List.mem_reverse]

/-- An undisturbed walk has no failure to return. -/
theorem State.Reached.result_of_undisturbed {w : Walk} {statuses : Table Status} {callerCancelled : Bool}
    {acts : List Outside} {s : State} (hw : w.Sound) (hst : ∀ n ∈ w.scope, n ∈ statuses.keys)
    (h : State.Reached w statuses callerCancelled acts s) (hquiet : ¬ Disturbed s.history) :
    s.result = .ok ∨ s.result = .pending := by
  have haborted : s.aborted = none := (h.tidy hw hst).aborted
  cases hdone : s.done with
  | true => exact Or.inl ((State.result_eq_ok_iff haborted).2 ⟨hdone, h.failure_of_undisturbed hw hst hquiet⟩)
  | false => exact Or.inr ((State.result_eq_pending_iff haborted).2 hdone)

namespace Deployment

variable {d : Deployment} {t : Traversal} {visitor : Visitor} {w : Walk}

/-- The walk of the traversal with a limit. -/
theorem walk_within (hwalk : t.walk d.graph none visitor = .ok w) (limit : Limit) :
    w.limit = none ∧ t.walk d.graph (some limit) visitor = .ok (w.within limit) := by
  obtain ⟨scope, hscope, rfl⟩ := walk_eq hwalk
  refine ⟨rfl, ?_⟩
  unfold Traversal.walk
  rw [hscope]
  rfl

/-- The events of a report are the whole history of the rest at which the walk is left. -/
theorem events_traverse {limit : Option Limit} (hwalk : t.walk d.graph limit visitor = .ok w) (hw : w.Sound)
    (hst : ∀ n ∈ w.scope, n ∈ d.statuses.keys) (callerCancelled : Bool) (script : Script) :
    (d.traverse t limit visitor callerCancelled script).1.events =
      ((State.start w d.statuses callerCancelled).last w script).history.reverse := by
  rw [traverse_eq hwalk]
  exact State.events_phases hw hst script _ [] [] (State.runs_settle w _) List.nil_suffix

/-- **A limit that allows all visits at once makes no difference to an undisturbed traversal**: the same events and
statuses phase by phase, the same result, and the same visits dropped if it is left pending. -/
theorem traverse_agrees (hd : d.Sound) (ht : t.Known d.graph) (visitor : Visitor) (callerCancelled : Bool)
    (script : Script) :
    ∃ scope, t.scope d.graph = .ok scope ∧ scope.Nodup ∧ (∀ name, name ∈ scope ↔ t.Covers d.graph name) ∧
      ∀ n, scope.length ≤ n → n ≤ Limit.most → ∃ limit, Limit.ofNat? n = some limit ∧
        let plain := d.traverse t none visitor callerCancelled script
        let limited := d.traverse t (some limit) visitor callerCancelled script
        ¬ Disturbed plain.1.events ∨ ¬ Disturbed limited.1.events →
          limited = plain ∧ (plain.1.result = .ok ∨ plain.1.result = .pending) := by
  obtain ⟨w, hwalk, hw, -, -, hscope, hmem, hst⟩ := hd.exists_walk ht none visitor
  refine ⟨w.scope, hscope, hw.nodup, hmem, fun n hlength hn => ?_⟩
  obtain ⟨limit, hlimit⟩ := Limit.exists_ofNat? hn
  have hample : w.scope.length ≤ limit.slots := by
    rw [Limit.slots_of_ofNat? hlimit]
    omega
  obtain ⟨hnone, hwithin⟩ := walk_within hwalk limit
  refine ⟨limit, hlimit, ?_⟩
  intro plain limited hquiet
  rw [show plain.1.events = _ from events_traverse hwalk hw hst callerCancelled script,
    show limited.1.events = _ from events_traverse hwithin (hw.within limit) hst callerCancelled script,
    disturbed_reverse, disturbed_reverse] at hquiet
  have hfirst : ∀ w : Walk, Reached w d.statuses callerCancelled [] (State.start w d.statuses callerCancelled) :=
    fun w => State.runs_settle w _
  -- what is undisturbed at the last rest was so at the first
  have hstarted := hquiet.imp (mt ((hfirst w).disturbed_of_runs hw hst (State.runs_last script _)))
    (mt ((hfirst (w.within limit)).disturbed_of_runs (hw.within limit) hst (State.runs_last script _)))
  obtain ⟨f, hstart, hpaired⟩ := State.start_within hw hst hnone hample hstarted
  rw [hstart] at hquiet
  obtain ⟨hphases, f', hlast⟩ := State.Paired.phases hw hst hnone hample script _ f [] 0 hpaired hquiet
  rw [hlast] at hquiet
  refine ⟨?_, ?_⟩
  · show d.traverse t (some limit) visitor callerCancelled script = d.traverse t none visitor callerCancelled script
    rw [traverse_eq hwalk, traverse_eq hwithin, hstart]
    dsimp only
    unfold State.report
    rw [hphases, hlast]
    rfl
  · have hreached : Reached w d.statuses callerCancelled _ ((State.start w d.statuses callerCancelled).last w script) :=
      (hfirst w).trans (State.runs_last script _)
    rw [show plain = _ from traverse_eq hwalk callerCancelled script]
    exact hreached.result_of_undisturbed hw hst (or_self_iff.1 hquiet)

/-- Two slots are enough for two services. -/
theorem traverse_agrees_apart :
    let visitor : Visitor := fun name => if name = "api" then [.wait] else [.log "up"]
    ∃ limit, Limit.ofNat? 2 = some limit ∧
      apart.traverse .forward (some limit) visitor false [] = apart.traverse .forward none visitor false [] ∧
      (apart.traverse .forward none visitor false []).1.result = .pending := by
  intro visitor
  obtain ⟨scope, hscope, -, -, hagrees⟩ := traverse_agrees (t := .forward) sound_apart nofun visitor false []
  obtain rfl : scope = ["api", "db"] := Except.ok.inj (hscope.symm.trans rfl)
  obtain ⟨limit, hlimit, hsame⟩ := hagrees 2 (by decide) (by decide)
  have hevents : (apart.traverse .forward none visitor false []).1.events =
      [.dispatched "api", .dispatched "db", .began "api", .began "db", .log "db" "up", .ended "db" none] := by
    decide +kernel
  refine ⟨limit, hlimit, (hsame (Or.inl ?_)).1, by decide +kernel⟩
  rw [hevents]
  simp [Disturbed]

end Deployment

end Rollout
