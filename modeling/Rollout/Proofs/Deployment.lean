import Rollout.Proofs.Walk.Scope
/-!
Deployments as they come about: the graph is one that `Graph.build` accepts, and each of its services has a status.
That is how `Deployment.uniform` makes them, and a status that changes leaves it so.

A traversal of such a deployment becomes a walk if its roots are known (`Deployment.Sound.exists_walk`), and whatever
walk it becomes is sound: its graph is accepted, and its scope lists what the traversal covers, in ascending order and
all of it with a status.  What is said of walks is said under these two conditions, so this is where the statements
about traversals take them from.  Two small deployments stand here for use in examples, one with a dependency and one
without.
-/
namespace Rollout

namespace Deployment

variable {d : Deployment} {g : Graph} {t : Traversal}

structure Sound (d : Deployment) : Prop where
  built : ∃ entries, Graph.build entries = .ok d.graph
  statuses : d.statuses.keys = d.graph.services

theorem Sound.accepted (hd : d.Sound) : d.graph.Accepted := by
  obtain ⟨entries, hbuild⟩ := hd.built
  exact Graph.accepted_of_build hbuild

theorem sound_uniform {entries : List (String × List String)} (h : Graph.build entries = .ok g) (status : Status) :
    (uniform g status).Sound :=
  ⟨⟨entries, h⟩, Table.keys_map _ _⟩

def pair : Deployment := uniform ⟨Table.ofList [("api", ["db"]), ("db", [])]⟩ .stopped

theorem sound_pair : pair.Sound := by
  have hbuild : Graph.build [("api", ["db"]), ("db", [])] = .ok pair.graph := by decide +kernel
  exact sound_uniform hbuild .stopped

def apart : Deployment := uniform ⟨Table.ofList [("api", []), ("db", [])]⟩ .stopped

theorem sound_apart : apart.Sound := by
  have hbuild : Graph.build [("api", []), ("db", [])] = .ok apart.graph := by decide +kernel
  exact sound_uniform hbuild .stopped

theorem Sound.setStatus {d' : Deployment} (hd : d.Sound) {name : String} {status : Status}
    (h : d.setStatus name status = .ok d') : d'.Sound := by
  unfold Deployment.setStatus at h
  split at h
  · cases h
    exact ⟨hd.built, (Table.keys_modify _ _ _).trans hd.statuses⟩
  · cases h

theorem graph_setStatus {d' : Deployment} {name : String} {status : Status} (h : d.setStatus name status = .ok d') :
    d'.graph = d.graph := by
  unfold Deployment.setStatus at h
  split at h
  · cases h
    rfl
  · cases h

/-- **A traversal of a sound deployment becomes a sound walk** over what it covers, if its roots are known. -/
theorem Sound.exists_walk (hd : d.Sound) (ht : t.Known d.graph) (limit : Option Limit) (visitor : Visitor) :
    ∃ w, t.walk d.graph limit visitor = .ok w ∧ w.Sound ∧ w.graph = d.graph ∧ w.direction = t.direction ∧
      t.scope d.graph = .ok w.scope ∧ (∀ n, n ∈ w.scope ↔ t.Covers d.graph n) ∧
      ∀ n ∈ w.scope, n ∈ d.statuses.keys := by
  obtain ⟨scope, hscope, hmem, hwalk, hw⟩ := Walk.sound_of_known hd.accepted ht limit visitor
  refine ⟨_, hwalk, hw, rfl, rfl, hscope, hmem, fun n hn => ?_⟩
  rw [hd.statuses]
  exact hw.services n hn

theorem walk_eq {limit : Option Limit} {visitor : Visitor} {w : Walk} (h : t.walk g limit visitor = .ok w) :
    ∃ scope, t.scope g = .ok scope ∧ w = ⟨g, t.direction, scope, t.target, limit, visitor⟩ := by
  unfold Traversal.walk at h
  cases hscope : t.scope g with
  | error failure =>
    rw [hscope] at h
    cases h
  | ok scope =>
    rw [hscope] at h
    cases h
    exact ⟨scope, rfl, rfl⟩

/-- **Every walk of a sound deployment is sound.** -/
theorem Sound.of_walk (hd : d.Sound) {limit : Option Limit} {visitor : Visitor} {w : Walk}
    (h : t.walk d.graph limit visitor = .ok w) :
    w.Sound ∧ (∀ n, n ∈ w.scope ↔ t.Covers d.graph n) ∧ ∀ n ∈ w.scope, n ∈ d.statuses.keys := by
  obtain ⟨scope, hscope, -⟩ := walk_eq h
  obtain ⟨w', hwalk, hw, -, -, -, hmem, hst⟩ := hd.exists_walk (Traversal.known_of_scope hscope) limit visitor
  obtain rfl : w = w' := Except.ok.inj (h.symm.trans hwalk)
  exact ⟨hw, hmem, hst⟩

end Deployment

end Rollout
