import Rollout.Proofs.Graph.Ends
import Rollout.Report
/-!
What a walk covers, and who waits for whom in it.  The scope holds every dependent of its members, so whatever lies on a
chain of dependencies between two of them is in it as well: a dependency between two covered services, direct or not, is
a chain of prerequisites inside the scope (`transGen_awaits_of_dependsOn`, `transGen_awaits_of_dependsOn_reverse`).

A traversal covers all services, or its roots and what depends on them (`Traversal.Covers`).  It has a scope if its
roots are known, and the walk that it becomes is sound: the graph is accepted, and the scope is a set of services that
holds all their dependents (`Walk.Sound`).  Everything else about walks is said of sound ones, so nothing needs to know
how a scope was found.

A covered service awaits those of its prerequisites that are covered too.  Forward, the prerequisites of a service are
its dependencies and some may be left out of the scope; in reverse they are its dependents, all of which are covered.
Nothing awaits itself, directly or through others, so among some covered services there is always one that awaits none
of them (`Sound.exists_first`).
-/
namespace Rollout

open Relation (TransGen)

namespace Traversal

def Known (t : Traversal) (g : Graph) : Prop :=
  ∀ roots, t.roots = some roots → ∀ root ∈ roots, root ∈ g.services

/-- All services, or the roots and what depends on them. -/
def Covers (t : Traversal) (g : Graph) (name : String) : Prop :=
  match t.roots with
  | none => name ∈ g.services
  | some roots => ∃ root ∈ roots, name = root ∨ g.DependsOn name root

theorem scope_of_known {t : Traversal} {g : Graph} (h : t.Known g) :
    ∃ scope, t.scope g = .ok scope ∧ Ascending scope ∧ ∀ name, name ∈ scope ↔ t.Covers g name := by
  unfold scope Covers
  cases hroots : t.roots with
  | none => exact ⟨g.services, rfl, g.declared.ascending, fun name => Iff.rfl⟩
  | some roots =>
    have hknown := h roots hroots
    have hfind : (roots.find? fun name => !g.contains name) = none :=
      List.find?_eq_none.2 fun root hroot => by simp [Graph.contains_iff, hknown root hroot]
    refine ⟨g.downstream roots, ?_, ?_, fun name => Graph.mem_downstream_iff hknown⟩
    · simp only [Graph.closure, hfind]
    · exact g.declared.ascending.sublist List.filter_sublist

theorem scope_withRoots {t : Traversal} {g : Graph} {roots : List String} (hne : roots ≠ []) :
    (t.withRoots roots).scope g = g.closure roots := by
  cases roots with
  | nil => exact absurd rfl hne
  | cons root others => rfl

theorem known_of_scope {t : Traversal} {g : Graph} {scope : List String} (h : t.scope g = .ok scope) : t.Known g := by
  intro roots hroots root hroot
  unfold Traversal.scope Graph.closure at h
  rw [hroots] at h
  dsimp only at h
  split at h
  · cases h
  · rename_i hfind
    have hknown := List.find?_eq_none.1 hfind root hroot
    simpa [Graph.contains_iff] using hknown

theorem mem_services_of_covers {t : Traversal} {g : Graph} (h : t.Known g) {name : String} (hname : t.Covers g name) :
    name ∈ g.services := by
  unfold Covers at hname
  cases hroots : t.roots with
  | none =>
    rw [hroots] at hname
    exact hname
  | some roots =>
    rw [hroots] at hname
    obtain ⟨root, hroot, rfl | hdep⟩ := hname
    · exact h roots hroots name hroot
    · exact Graph.mem_services_of_dependsOn hdep

theorem Covers.dependent {t : Traversal} {g : Graph} {a b : String} (ha : t.Covers g a) (hb : g.Depends b a) :
    t.Covers g b := by
  unfold Covers at ha ⊢
  cases hroots : t.roots with
  | none => exact Graph.mem_services_of_depends hb
  | some roots =>
    rw [hroots] at ha
    obtain ⟨root, hroot, rfl | hdep⟩ := ha
    · exact ⟨a, hroot, Or.inr (TransGen.single hb)⟩
    · exact ⟨root, hroot, Or.inr (TransGen.head hb hdep)⟩

end Traversal

/-- `b` is a direct prerequisite of `a`: forward a dependency of it, in reverse a dependent. -/
def Direction.Requires (d : Direction) (g : Graph) (a b : String) : Prop :=
  match d with
  | forward => g.Depends a b
  | reverse => g.Depends b a

theorem Direction.mem_prerequisites_iff {d : Direction} {g : Graph} {a b : String} :
    b ∈ d.prerequisites g a ↔ d.Requires g a b := by
  cases d with
  | forward => exact Graph.mem_children_iff
  | reverse => exact Graph.mem_parents_iff

theorem Direction.mem_services_of_requires {d : Direction} {g : Graph} {a b : String} (hg : g.Accepted)
    (h : d.Requires g a b) : b ∈ g.services := by
  cases d with
  | forward => exact hg.declared a b h
  | reverse => exact Graph.mem_services_of_depends h

namespace Walk

variable {w : Walk} {a b : String}

/-- The graph of a walk is accepted; its scope is a set of services that holds all their dependents. -/
structure Sound (w : Walk) : Prop where
  accepted : w.graph.Accepted
  ascending : Ascending w.scope
  services : ∀ a ∈ w.scope, a ∈ w.graph.services
  dependents : ∀ a ∈ w.scope, ∀ b, w.graph.Depends b a → b ∈ w.scope

theorem Sound.nodup (hw : w.Sound) : w.scope.Nodup := hw.ascending.imp fun {_ _} h => Names.ne_of_lt h

/-- **A traversal with known roots becomes a sound walk** over what it covers. -/
theorem sound_of_known {t : Traversal} {g : Graph} (hg : g.Accepted) (ht : t.Known g) (limit : Option Limit)
    (visitor : Visitor) :
    ∃ scope, t.scope g = .ok scope ∧ (∀ name, name ∈ scope ↔ t.Covers g name) ∧
      t.walk g limit visitor = .ok ⟨g, t.direction, scope, t.target, limit, visitor⟩ ∧
      Sound ⟨g, t.direction, scope, t.target, limit, visitor⟩ := by
  obtain ⟨scope, hscope, hasc, hmem⟩ := t.scope_of_known ht
  refine ⟨scope, hscope, hmem, ?_, hg, hasc, fun a ha => ?_, fun a ha b hb => ?_⟩
  · unfold Traversal.walk
    rw [hscope]
    rfl
  · exact Traversal.mem_services_of_covers ht ((hmem a).1 ha)
  · exact (hmem b).2 (((hmem a).1 ha).dependent hb)

/-! ## Who waits for whom -/

/-- `b` is a prerequisite of `a` that the walk covers. -/
def Awaits (w : Walk) (a b : String) : Prop := b ∈ w.prerequisites a

theorem mem_prerequisites_iff : b ∈ w.prerequisites a ↔ b ∈ w.direction.prerequisites w.graph a ∧ b ∈ w.scope := by
  simp [prerequisites]

theorem mem_successors_iff (ha : a ∈ w.scope) : b ∈ w.successors a ↔ b ∈ w.scope ∧ a ∈ w.prerequisites b := by
  rw [mem_prerequisites_iff, successors, List.mem_filter, Direction.mem_successors_iff]
  simp [ha, and_comm]

theorem nodup_prerequisites (w : Walk) (a : String) : (w.prerequisites a).Nodup := by
  refine List.Nodup.sublist List.filter_sublist ?_
  unfold Direction.prerequisites
  cases w.direction with
  | forward => exact (w.graph.ascending_children a).imp fun {_ _} h => Names.ne_of_lt h
  | reverse => exact (w.graph.ascending_parents a).imp fun {_ _} h => Names.ne_of_lt h

theorem ascending_successors (w : Walk) (a : String) : Ascending (w.successors a) := by
  refine List.Pairwise.sublist List.filter_sublist ?_
  unfold Direction.successors
  cases w.direction with
  | forward => exact w.graph.ascending_parents a
  | reverse => exact w.graph.ascending_children a

theorem nodup_successors (w : Walk) (a : String) : (w.successors a).Nodup :=
  (w.ascending_successors a).imp fun {_ _} h => Names.ne_of_lt h

theorem mem_prerequisites_forward (hd : w.direction = .forward) :
    b ∈ w.prerequisites a ↔ w.graph.Depends a b ∧ b ∈ w.scope := by
  rw [mem_prerequisites_iff, hd]
  exact and_congr_left' Graph.mem_children_iff

theorem mem_prerequisites_reverse (hd : w.direction = .reverse) :
    b ∈ w.prerequisites a ↔ w.graph.Depends b a ∧ b ∈ w.scope := by
  rw [mem_prerequisites_iff, hd]
  exact and_congr_left' Graph.mem_parents_iff

/-- **Forward, a service waits for all that it depends on** in the scope, through services of the scope only. -/
theorem Sound.transGen_awaits_of_dependsOn (hw : w.Sound) (hd : w.direction = .forward) (hb : b ∈ w.scope)
    (h : w.graph.DependsOn a b) : TransGen w.Awaits a b := by
  have hboth : TransGen w.Awaits a b ∧ a ∈ w.scope := by
    unfold Graph.DependsOn at h
    induction h using TransGen.head_induction_on with
    | single hstep => exact ⟨TransGen.single ((mem_prerequisites_forward hd).2 ⟨hstep, hb⟩), hw.dependents b hb _ hstep⟩
    | head hstep _ ih =>
      exact ⟨TransGen.head ((mem_prerequisites_forward hd).2 ⟨hstep, ih.2⟩) ih.1, hw.dependents _ ih.2 _ hstep⟩
  exact hboth.1

/-- **In reverse, a service waits for all that depends on it**; what depends on a covered service is covered. -/
theorem Sound.transGen_awaits_of_dependsOn_reverse (hw : w.Sound) (hd : w.direction = .reverse) (hb : b ∈ w.scope)
    (h : w.graph.DependsOn a b) : TransGen w.Awaits b a := by
  have hboth : TransGen w.Awaits b a ∧ a ∈ w.scope := by
    unfold Graph.DependsOn at h
    induction h using TransGen.head_induction_on with
    | single hstep =>
      have ha := hw.dependents b hb _ hstep
      exact ⟨TransGen.single ((mem_prerequisites_reverse hd).2 ⟨hstep, ha⟩), ha⟩
    | head hstep _ ih =>
      have ha := hw.dependents _ ih.2 _ hstep
      exact ⟨TransGen.tail ih.1 ((mem_prerequisites_reverse hd).2 ⟨hstep, ha⟩), ha⟩
  exact hboth.1

theorem awaits_iff : w.Awaits a b ↔ w.direction.Requires w.graph a b ∧ b ∈ w.scope := by
  unfold Awaits Direction.Requires
  cases hd : w.direction with
  | forward => exact mem_prerequisites_forward hd
  | reverse => exact mem_prerequisites_reverse hd

theorem Sound.transGen_awaits (hw : w.Sound) (ha : a ∈ w.scope) (hb : b ∈ w.scope)
    (h : TransGen (w.direction.Requires w.graph) a b) : TransGen w.Awaits a b := by
  cases hd : w.direction with
  | forward =>
    rw [hd] at h
    exact hw.transGen_awaits_of_dependsOn hd hb h
  | reverse =>
    rw [hd] at h
    exact hw.transGen_awaits_of_dependsOn_reverse hd ha (Relation.transGen_swap.1 h)

theorem Sound.not_awaits_self (hw : w.Sound) (a : String) : ¬ TransGen w.Awaits a a := by
  intro hcycle
  cases hd : w.direction with
  | forward =>
    exact hw.accepted.acyclic a (TransGen.mono (fun _ _ h => ((mem_prerequisites_forward hd).1 h).1) _ _ hcycle)
  | reverse =>
    have hswap : TransGen (Function.swap w.Awaits) a a := Relation.transGen_swap.2 hcycle
    exact hw.accepted.acyclic a (TransGen.mono (fun _ _ h => ((mem_prerequisites_reverse hd).1 h).1) _ _ hswap)

/-- **Among some covered services one waits for none of them**, as nothing waits for itself. -/
theorem Sound.exists_first (hw : w.Sound) {P : String → Prop} (h : ∃ a ∈ w.scope, P a) :
    ∃ a ∈ w.scope, P a ∧ ∀ b ∈ w.prerequisites a, ¬ P b := by
  obtain ⟨a, ha, hPa⟩ := h
  obtain ⟨first, hfirst, hmin⟩ :=
    (wellFounded_of_acyclic hw.not_awaits_self w.scope).has_min { a | P a.1 } ⟨⟨a, ha⟩, hPa⟩
  refine ⟨first.1, first.2, hfirst, fun b hb hPb => ?_⟩
  exact hmin ⟨b, (mem_prerequisites_iff.1 hb).2⟩ hPb (TransGen.single hb)

end Walk

end Rollout
