import Mathlib.Data.Fintype.EquivFin
import Mathlib.Data.Fintype.Sets
import Mathlib.Order.WellFounded
import Rollout.Proofs.Graph.Acceptance
import Rollout.Proofs.Graph.Closure
/-!
The ends of a graph.  Where nothing leads back to itself, a chain inside some names that it cannot leave comes to an end
(`exists_end`).  So every service of an accepted graph has a chain of dependencies down to a leaf and one of dependents
up to a root, and the leaves generate the graph (`Graph.Accepted.closure_leaves`).

There are only so many names, and a relation without cycles on them is well founded in either direction
(`wellFounded_of_acyclic`); an end is what such a relation leaves minimal.  The same lemma serves both ends of a graph,
once for what a service depends on and once for what depends on it.
-/
namespace Rollout

open Relation (TransGen ReflTransGen)

theorem wellFounded_of_acyclic {r : String → String → Prop} (hacyclic : ∀ a, ¬ TransGen r a a) (names : List String) :
    WellFounded fun b a : { a // a ∈ names } => TransGen r a.1 b.1 := by
  have htrans : IsTrans { a // a ∈ names } fun b a => TransGen r a.1 b.1 := ⟨fun _ _ _ hab hbc => hbc.trans hab⟩
  have hirrefl : Std.Irrefl fun b a : { a // a ∈ names } => TransGen r a.1 b.1 := ⟨fun a => hacyclic a.1⟩
  exact Finite.wellFounded_of_trans_of_irrefl _

/-- **Inside some names that a relation without cycles does not lead out of, every chain comes to an end.** -/
theorem exists_end {r : String → String → Prop} (hacyclic : ∀ a, ¬ TransGen r a a) {names : List String}
    (hinside : ∀ a ∈ names, ∀ b, r a b → b ∈ names) {a : String} (ha : a ∈ names) :
    ∃ last ∈ names, ReflTransGen r a last ∧ ∀ b, ¬ r last b := by
  have hend : ∀ a : { a // a ∈ names }, ∃ last ∈ names, ReflTransGen r a.1 last ∧ ∀ b, ¬ r last b := by
    intro a
    induction a using (wellFounded_of_acyclic hacyclic names).induction with
    | _ a ih =>
      by_cases hlast : ∃ b, r a.1 b
      · obtain ⟨b, hab⟩ := hlast
        obtain ⟨last, hmem, hchain, hstop⟩ := ih ⟨b, hinside a.1 a.2 b hab⟩ (TransGen.single hab)
        exact ⟨last, hmem, ReflTransGen.head hab hchain, hstop⟩
      · exact ⟨a.1, a.2, ReflTransGen.refl, not_exists.1 hlast⟩
  exact hend ⟨a, ha⟩

namespace Graph

variable {g : Graph} {name : String}

theorem mem_leaves_iff : name ∈ g.leaves ↔ name ∈ g.services ∧ ∀ b, ¬ g.Depends name b := by
  unfold leaves
  rw [List.mem_filter, List.isEmpty_iff, List.eq_nil_iff_forall_not_mem]
  exact and_congr_right fun _ => forall_congr' fun _ => not_congr mem_children_iff

theorem mem_roots_iff : name ∈ g.roots ↔ name ∈ g.services ∧ ∀ a, ¬ g.Depends a name := by
  unfold roots
  rw [List.mem_filter, List.isEmpty_iff, List.eq_nil_iff_forall_not_mem]
  exact and_congr_right fun _ => forall_congr' fun _ => not_congr mem_parents_iff

/-- **Every service has a chain of dependencies down to a leaf.** -/
theorem Accepted.exists_leaf (hg : g.Accepted) (h : name ∈ g.services) :
    ∃ leaf ∈ g.leaves, ReflTransGen g.Depends name leaf := by
  obtain ⟨leaf, hleaf, hchain, hend⟩ := exists_end hg.acyclic (fun a _ b => hg.declared a b) h
  exact ⟨leaf, mem_leaves_iff.2 ⟨hleaf, hend⟩, hchain⟩

/-- **Every service has a chain of dependents up to a root.** -/
theorem Accepted.exists_root (hg : g.Accepted) (h : name ∈ g.services) :
    ∃ root ∈ g.roots, ReflTransGen g.Depends root name := by
  have hacyclic : ∀ a, ¬ TransGen (Function.swap g.Depends) a a := fun a hcycle =>
    hg.acyclic a (Relation.transGen_swap.1 hcycle)
  obtain ⟨root, hroot, hchain, hend⟩ := exists_end hacyclic (fun _ _ b hb => mem_services_of_depends hb) h
  exact ⟨root, mem_roots_iff.2 ⟨hroot, hend⟩, Relation.reflTransGen_swap.1 hchain⟩

/-- **The leaves generate the graph**: what depends on them, with the leaves themselves, is all there is. -/
theorem Accepted.closure_leaves (hg : g.Accepted) : g.closure g.leaves = .ok g.services := by
  have hknown : ∀ leaf ∈ g.leaves, leaf ∈ g.services := fun leaf hleaf => (mem_leaves_iff.1 hleaf).1
  have hdown : g.closure g.leaves = .ok (g.downstream g.leaves) := closure_eq_ok_iff.2 ⟨hknown, rfl⟩
  rw [hdown]
  refine congrArg Except.ok (ascending_ext (ascending_closure hdown) g.declared.ascending fun name => ⟨?_, fun h => ?_⟩)
  · exact mem_services_of_mem_closure hdown
  · obtain ⟨leaf, hleaf, hchain⟩ := hg.exists_leaf h
    refine (mem_closure_iff hdown).2 ⟨leaf, hleaf, ?_⟩
    exact (Relation.reflTransGen_iff_eq_or_transGen.1 hchain).imp_left Eq.symm

end Graph

end Rollout
