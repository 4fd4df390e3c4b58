import Rollout.Proofs.Deployment
import Rollout.Proofs.Walk.Order
import Rollout.Proofs.Walk.Rests
/-!
The order in which a traversal visits services, said of the deployment it runs on and of its report.  It holds at every
point of the traversal, so it does not matter whether the traversal ends, fails, is cancelled or is dropped.

A service waits for its prerequisites in the scope, directly or through others, so the order is said of the transitive
closure of the dependencies inside the scope (`InOrder`): in one direction the good end of the dependency comes before
the beginning of its dependent, in the other it is the other way round.  No service is visited twice, and none that is
not covered.
-/
namespace Rollout

open State (Reached)

namespace Deployment

variable {d : Deployment} {t : Traversal}

/-- Forward, the visit of a dependency ends well before that of its dependent begins; in reverse it is the other way
round. -/
def InOrder (direction : Direction) (dependent dependency : String) (history : List Event) : Prop :=
  match direction with
  | .forward => Precedes (.ended dependency none) (.began dependent) history
  | .reverse => Precedes (.ended dependent none) (.began dependency) history

/-- **Visits begin in the order of the dependencies, once each, and only where the traversal goes.**  A report shows
the history of a state that is reached. -/
theorem visits_in_order (hd : d.Sound) (ht : t.Known d.graph) (limit : Option Limit) (visitor : Visitor)
    (callerCancelled : Bool) :
    ∃ w, t.walk d.graph limit visitor = .ok w ∧
      (∀ script, ∃ acts s, Reached w d.statuses callerCancelled acts s ∧
        (d.traverse t limit visitor callerCancelled script).1.events = s.history.reverse) ∧
      ∀ acts s, Reached w d.statuses callerCancelled acts s →
        (∀ name, .began name ∈ s.history → t.Covers d.graph name) ∧
        (∀ name, s.history.count (.began name) ≤ 1) ∧
        ∀ u v, t.Covers d.graph u → t.Covers d.graph v → d.graph.DependsOn u v →
          InOrder t.direction u v s.history := by
  obtain ⟨w, hwalk, hw, hgraph, hdirection, -, hmem, hst⟩ := hd.exists_walk ht limit visitor
  refine ⟨w, hwalk, fun script => ?_, fun acts s h => ⟨fun name hb => ?_, fun name => ?_, fun u v hu hv huv => ?_⟩⟩
  · obtain ⟨s, hreached, -, hevents, -⟩ := traverse_reached hwalk hw hst callerCancelled script
    exact ⟨_, s, hreached, hevents⟩
  · exact (hmem name).1 (h.mem_scope_of_began hw hst hb)
  · exact (h.traced hw hst).count_le_one rfl
  · have hcovered : v ∈ w.scope := (hmem v).2 hv
    rw [← hgraph] at huv
    unfold InOrder
    rw [← hdirection]
    cases hdir : w.direction with
    | forward => exact h.precedes_of_awaits hw hst (hw.transGen_awaits_of_dependsOn hdir hcovered huv)
    | reverse => exact h.precedes_of_awaits hw hst (hw.transGen_awaits_of_dependsOn_reverse hdir hcovered huv)

theorem visits_in_order_pair : ∃ w, Traversal.forward.walk pair.graph none (fun _ => []) = .ok w ∧
    ∀ acts s, Reached w pair.statuses false acts s → Precedes (.ended "db" none) (.began "api") s.history := by
  obtain ⟨w, hwalk, -, horder⟩ := visits_in_order (t := .forward) sound_pair nofun none (fun _ => []) false
  refine ⟨w, hwalk, fun acts s h => (horder acts s h).2.2 "api" "db" ?_ ?_ (Relation.TransGen.single ?_)⟩
  · exact show "api" ∈ pair.graph.services by decide +kernel
  · exact show "db" ∈ pair.graph.services by decide +kernel
  · exact show "db" ∈ pair.graph.dependencies "api" by decide +kernel

end Deployment

end Rollout
