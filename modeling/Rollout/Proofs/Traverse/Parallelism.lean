import Rollout.Proofs.Deployment
import Rollout.Proofs.Walk.Held
import Rollout.Proofs.Walk.Rests
import Rollout.Proofs.Walk.Stops
/-!
What a traversal does at once.  As long as no visit has ended in error and the caller has not cancelled, the services
dispatched at a rest are those that wait for nothing more (`traverse_dispatches`): none is early, and none held back.

Without a limit the visits that are dispatched have begun by the next rest.  With one, they have begun or stand in line
for a slot (`State.Reached.dispatched_iff_begun`), and those in line are there because all slots are held.  What a
service waits for is what it waits for in the scope: prerequisites that the traversal does not cover do not count.
-/
namespace Rollout

open State (Reached AtRest)

theorem State.Reached.dispatched_iff_begun {w : Walk} {statuses : Table Status} {callerCancelled : Bool}
    {acts : List Outside} {s : State} (hw : w.Sound) (hst : ∀ n ∈ w.scope, n ∈ statuses.keys)
    (h : Reached w statuses callerCancelled acts s) (hqueue : s.queue = []) (hquiet : ¬ Disturbed s.history)
    (name : String) : .dispatched name ∈ s.history ↔
      .began name ∈ s.history ∨ w.limit.isSome ∧ s.stages.get? name = some .awaitingSlot := by
  have htraced := h.traced hw hst
  have hplaced := h.placed hw hst
  constructor
  · intro hdispatched
    rcases htraced.progress_of_dispatched hdispatched with hp | hp | ⟨error, hp⟩
    · -- nobody is in the run queue, so a visit that has not begun is in line
      obtain ⟨stage, hstage, hwaiting⟩ := Option.map_eq_some_iff.1 hp
      have hturn := h.hasTurn_eq_false hw hst hqueue hstage
      cases stage with
      | dispatched => cases hturn
      | granted => cases hturn
      | awaitingSlot => exact Or.inr ⟨(hplaced.fits name _ hstage).1, hstage⟩
      | _ => cases hwaiting
    · exact Or.inl (htraced.began_of_underWay hp)
    · rcases htraced.mem_of_ended hp with hended | ⟨haway, -⟩
      · exact Or.inl ((htraced.began_precedes_ended name error).mem hended)
      · exact absurd ((h.prompt hw hst).turnedAway name haway) hquiet
  · rintro (hbegan | ⟨-, hstage⟩)
    · exact (htraced.dispatched_precedes_began name).mem hbegan
    · exact htraced.dispatched_of_progress (State.progress_of_get? hstage) nofun

namespace Deployment

variable {d : Deployment} {t : Traversal}

/-- **As long as no visit has ended in error and the caller has not cancelled, the visits dispatched at a rest are those
of the covered services whose covered prerequisites have all ended well.**  With a limit, some are in line for a
slot. -/
theorem traverse_dispatches (hd : d.Sound) (ht : t.Known d.graph) (limit : Option Limit) (visitor : Visitor)
    (callerCancelled : Bool) :
    ∃ w, t.walk d.graph limit visitor = .ok w ∧
      (∀ script, ∀ s ∈ (State.start w d.statuses callerCancelled).rests w script,
        AtRest w d.statuses callerCancelled s) ∧
      ∀ s, AtRest w d.statuses callerCancelled s → s.callerCancelled = false →
        (∀ n cause, .ended n (some cause) ∉ s.history) → ∀ name,
          (.began name ∈ s.history ∨ limit.isSome ∧ s.stages.get? name = some .awaitingSlot ↔
            t.Covers d.graph name ∧ ∀ b, t.Covers d.graph b → t.direction.Requires d.graph name b →
              .ended b none ∈ s.history) ∧
          (.dispatched name ∈ s.history ↔
            .began name ∈ s.history ∨ limit.isSome ∧ s.stages.get? name = some .awaitingSlot) := by
  obtain ⟨w, hwalk, -⟩ := hd.exists_walk ht limit visitor
  obtain ⟨hw, hmem, hst⟩ := hd.of_walk hwalk
  obtain ⟨scope, -, rfl⟩ := walk_eq hwalk
  refine ⟨_, hwalk, fun _ _ hs => State.atRest_of_mem_rests hs, ?_⟩
  rintro s ⟨hqueue, acts, h⟩ hlive hwell name
  have hquiet : ¬ Disturbed s.history := by
    rintro (hcancelled | ⟨n, cause, hended⟩)
    · have hc : s.callerCancelled = true := (h.judged hw hst).cancelled.2 hcancelled
      rw [hlive] at hc
      cases hc
    · exact hwell n cause hended
  have hbegun := h.dispatched_iff_begun hw hst hqueue hquiet name
  refine ⟨?_, hbegun⟩
  rw [← hbegun, h.dispatched_iff hw hst hquiet name]
  constructor
  · rintro ⟨hname, hresolved⟩
    exact ⟨(hmem name).1 hname, fun b hb hrequires => hresolved b (Walk.awaits_iff.2 ⟨hrequires, (hmem b).2 hb⟩)⟩
  · rintro ⟨hname, hresolved⟩
    refine ⟨(hmem name).2 hname, fun b hb => ?_⟩
    obtain ⟨hrequires, hscope⟩ := Walk.awaits_iff.1 hb
    exact hresolved b ((hmem b).1 hscope) hrequires

theorem traverse_dispatches_pair : ∃ w s, Traversal.forward.walk pair.graph none (fun _ => [.wait]) = .ok w ∧
    AtRest w pair.statuses false s ∧ .began "db" ∈ s.history ∧ .began "api" ∉ s.history := by
  obtain ⟨w, hwalk, hrests, hrest⟩ := traverse_dispatches (t := .forward) sound_pair nofun none (fun _ => [.wait]) false
  obtain rfl : w = ⟨pair.graph, .forward, ["api", "db"], some .started, none, fun _ => [.wait]⟩ :=
    Except.ok.inj (hwalk.symm.trans rfl)
  have hs := hrests [] _ List.mem_cons_self
  refine ⟨_, _, hwalk, hs, ?_⟩
  have hhistory : (State.start ⟨pair.graph, .forward, ["api", "db"], some .started, none, fun _ => [.wait]⟩
      pair.statuses false).history = [.began "db", .dispatched "db"] := by decide +kernel
  have hiff := fun name => (hrest _ hs (by decide +kernel) (by simp [hhistory]) name).1
  constructor
  · have hdb : Traversal.forward.Covers pair.graph "db" := show "db" ∈ pair.graph.services by decide +kernel
    have hnone : ∀ b, ¬ Direction.forward.Requires pair.graph "db" b := by
      intro b hb
      have hempty : pair.graph.dependencies "db" = [] := by decide +kernel
      have hmem : b ∈ pair.graph.dependencies "db" := hb
      rw [hempty] at hmem
      cases hmem
    exact ((hiff "db").2 ⟨hdb, fun b _ hb => absurd hb (hnone b)⟩).resolve_right nofun
  · intro hbegan
    have hdb : Traversal.forward.Covers pair.graph "db" := show "db" ∈ pair.graph.services by decide +kernel
    have hrequires : Direction.forward.Requires pair.graph "api" "db" :=
      show "db" ∈ pair.graph.dependencies "api" by decide +kernel
    have hended := ((hiff "api").1 (Or.inl hbegan)).2 "db" hdb hrequires
    rw [hhistory] at hended
    simp at hended

end Deployment

end Rollout
