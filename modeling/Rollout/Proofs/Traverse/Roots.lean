import Rollout.Proofs.Deployment
import Rollout.Proofs.Graph.Closure
/-!
Traversals that name different roots.  A traversal looks at its roots only for their closure, so roots with the same
closure make the same walk (`Traversal.walk_congr`).  When the closure is the whole graph, that is the walk without any
roots, and the walk leaves out no neighbour of a service (`Walk.prerequisites_of_whole`, `Walk.successors_of_whole`).

The same walk makes the same report and leaves the same deployment behind, for every limit, visitor, token and script.
Roots have the same closure when they are put in another order, repeated, or joined by others from the closure.  In a
walk of the whole graph the counts of prerequisites are those of the graph itself, so a walk that counts only what it
covers does not count less there.
-/
namespace Rollout

/-! ## Walks of the whole graph -/

namespace Walk

variable {w : Walk}

/-- **In a walk of the whole graph every prerequisite counts.** -/
theorem prerequisites_of_whole (hg : w.graph.Accepted) (hwhole : ∀ name ∈ w.graph.services, name ∈ w.scope) :
    w.prerequisites = w.direction.prerequisites w.graph := by
  funext name
  refine List.filter_eq_self.2 fun other hother => decide_eq_true (hwhole other ?_)
  exact Direction.mem_services_of_requires hg (Direction.mem_prerequisites_iff.1 hother)

theorem successors_of_whole (hg : w.graph.Accepted) (hwhole : ∀ name ∈ w.graph.services, name ∈ w.scope) :
    w.successors = w.direction.successors w.graph := by
  funext name
  refine List.filter_eq_self.2 fun other hother => decide_eq_true (hwhole other ?_)
  cases hdirection : w.direction with
  | forward =>
    rw [hdirection] at hother
    exact Graph.mem_services_of_depends (Graph.mem_parents_iff.1 hother)
  | reverse =>
    rw [hdirection] at hother
    exact hg.declared name other (Graph.mem_children_iff.1 hother)

end Walk

/-! ## Roots and their closure -/

theorem Traversal.walk_congr {t t' : Traversal} {g : Graph} (hdirection : t.direction = t'.direction)
    (htarget : t.target = t'.target) (hscope : t.scope g = t'.scope g) (limit : Option Limit) (visitor : Visitor) :
    t.walk g limit visitor = t'.walk g limit visitor := by
  unfold walk
  rw [hscope, hdirection, htarget]

namespace Deployment

variable {d : Deployment} {t t' : Traversal} {limit : Option Limit} {visitor : Visitor} {roots affected : List String}

theorem traverse_congr (hwalk : t.walk d.graph limit visitor = t'.walk d.graph limit visitor) (callerCancelled : Bool)
    (script : Script) :
    d.traverse t limit visitor callerCancelled script = d.traverse t' limit visitor callerCancelled script := by
  unfold traverse
  rw [hwalk]

theorem Sound.exists_whole_walk (hd : d.Sound) (hscope : t.scope d.graph = .ok d.graph.services) (limit : Option Limit)
    (visitor : Visitor) :
    ∃ w, t.walk d.graph limit visitor = .ok w ∧ w.prerequisites = t.direction.prerequisites d.graph ∧
      w.successors = t.direction.successors d.graph := by
  obtain ⟨w, hwalk, -, hgraph, hdirection, hcovered, -⟩ :=
    hd.exists_walk (Traversal.known_of_scope hscope) limit visitor
  have haccepted : w.graph.Accepted := hgraph ▸ hd.accepted
  have hwhole : ∀ name ∈ w.graph.services, name ∈ w.scope := by
    rw [hgraph, Except.ok.inj (hscope.symm.trans hcovered)]
    exact fun _ => id
  refine ⟨w, hwalk, ?_, ?_⟩
  · rw [Walk.prerequisites_of_whole haccepted hwhole, hgraph, hdirection]
  · rw [Walk.successors_of_whole haccepted hwhole, hgraph, hdirection]

/-- **Roots matter through their closure only.**  Two traversals that differ in nothing but their roots show the same
and leave the same behind if their roots have the same closure, as they have when roots are put in another order,
repeated or joined by others from the closure.  When the closure is the whole graph, both are the traversal that has no
roots, and in reverse the tear-down; each service then waits for all its neighbours on the one side, and all those on
the other side wait for it. -/
theorem traverse_by_closure (hd : d.Sound) (t : Traversal) (hne : roots ≠ [])
    (hclosure : d.graph.closure roots = .ok affected) (limit : Option Limit) (visitor : Visitor)
    (callerCancelled : Bool) (script : Script) :
    let run (t : Traversal) := d.traverse t limit visitor callerCancelled script
    (∀ others, others ≠ [] → d.graph.closure others = .ok affected →
      run (t.withRoots others) = run (t.withRoots roots)) ∧
    (∀ others, (∀ root ∈ roots, root ∈ others) → (∀ name ∈ others, name ∈ affected) →
      run (t.withRoots others) = run (t.withRoots roots)) ∧
    ((∀ name ∈ d.graph.services, name ∈ affected) →
      run { t with roots := none } = run (t.withRoots roots) ∧ run (t.withRoots []) = run (t.withRoots roots) ∧
      (t.direction = .reverse → t.target = some Direction.reverse.defaultTarget →
        run .inReverseDependencyOrder = run (t.withRoots roots)) ∧
      ∃ w, (t.withRoots roots).walk d.graph limit visitor = .ok w ∧
        w.prerequisites = t.direction.prerequisites d.graph ∧ w.successors = t.direction.successors d.graph) := by
  intro run
  have hscope : (t.withRoots roots).scope d.graph = .ok affected := (Traversal.scope_withRoots hne).trans hclosure
  have hsame : ∀ t' : Traversal, t'.direction = t.direction → t'.target = t.target → t'.scope d.graph = .ok affected →
      run t' = run (t.withRoots roots) := by
    intro t' hdirection htarget hscope'
    refine traverse_congr (Traversal.walk_congr ?_ ?_ ?_ limit visitor) callerCancelled script
    · exact hdirection
    · exact htarget
    · exact hscope'.trans hscope.symm
  have hroots : ∀ others, others ≠ [] → d.graph.closure others = .ok affected →
      run (t.withRoots others) = run (t.withRoots roots) := fun others hsome hothers =>
    hsame (t.withRoots others) rfl rfl ((Traversal.scope_withRoots hsome).trans hothers)
  refine ⟨hroots, fun others hmore hinside => ?_, fun hwhole => ?_⟩
  · obtain ⟨root, hroot⟩ := List.exists_mem_of_ne_nil roots hne
    exact hroots others (List.ne_nil_of_mem (hmore root hroot)) (Graph.closure_eq_of_between hclosure hmore hinside)
  · have hall : affected = d.graph.services :=
      ascending_ext (Graph.ascending_closure hclosure) d.graph.declared.ascending fun name =>
        ⟨Graph.mem_services_of_mem_closure hclosure, hwhole name⟩
    rw [hall] at hscope hsame
    refine ⟨hsame _ rfl rfl rfl, hsame _ rfl rfl rfl, fun hreverse htarget => ?_, hd.exists_whole_walk hscope limit visitor⟩
    exact hsame _ hreverse.symm htarget.symm rfl

theorem traverse_by_closure_pair :
    let visitor : Visitor := fun name => if name = "api" then [.wait] else [.log "down"]
    let run (t : Traversal) := pair.traverse t (Limit.ofNat? 1) visitor false [[.release "api"]]
    run (Traversal.reverse.withRoots ["api", "db", "api"]) = run (Traversal.downstreamOf ["db"]) ∧
      run .inReverseDependencyOrder = run (Traversal.downstreamOf ["db"]) ∧
      (run .inReverseDependencyOrder).1.result = .ok := by
  intro visitor run
  have hclosure : pair.graph.closure ["db"] = .ok ["api", "db"] := Graph.closure_eq_ok_iff.2 (by decide +kernel)
  obtain ⟨-, hmore, hwhole⟩ := traverse_by_closure sound_pair .reverse (List.cons_ne_nil "db" []) hclosure
    (Limit.ofNat? 1) visitor false [[.release "api"]]
  refine ⟨hmore _ (by simp) (by simp), (hwhole (by decide +kernel)).2.2.1 rfl rfl, by decide +kernel⟩

end Deployment

end Rollout
