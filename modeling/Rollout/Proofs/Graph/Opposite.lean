import Rollout.Proofs.Graph.Acceptance
/-!
The opposite of a graph has its services, with every edge turned around.  Entries say it when what counts for each
service lists its dependents (`Opposes`).  Nothing depends on itself in the opposite either, so it is built if the graph
is accepted (`Accepted.exists_opposite`), and the two adjacency relations change places (`Opposite.children_eq`,
`Opposite.parents_eq`).

The entries may come in any order and repeat a name, for only what counts of them is asked.  One list of entries that
says the opposite is that of the services with their dependents (`turned`), so there is one for every graph.
-/
namespace Rollout

open Relation (TransGen)

theorem lists_map_iff {names : List String} (hnames : names.Nodup) {f : String → List String} {a b : String} :
    Lists (names.map fun name => (name, f name)) a b ↔ a ∈ names ∧ b ∈ f a := by
  constructor
  · rintro ⟨earlier, listed, later, heq, -, hb⟩
    have hentry : (a, listed) ∈ names.map fun name => (name, f name) := by
      rw [heq]
      exact List.mem_append_right earlier List.mem_cons_self
    obtain ⟨name, hname, hpair⟩ := List.mem_map.1 hentry
    obtain ⟨rfl, rfl⟩ := Prod.mk.inj hpair
    exact ⟨hname, hb⟩
  · rintro ⟨ha, hb⟩
    obtain ⟨before, after, rfl⟩ := List.append_of_mem ha
    have hlast : a ∉ after := (List.nodup_cons.1 (List.nodup_append.1 hnames).2.1).1
    refine ⟨before.map fun name => (name, f name), f a, after.map fun name => (name, f name), ?_, ?_, hb⟩
    · rw [List.map_append, List.map_cons]
    · rintro e he rfl
      obtain ⟨name, hname, rfl⟩ := List.mem_map.1 he
      exact hlast hname

namespace Graph

variable {g t : Graph} {entries : List (String × List String)}

/-- The same services, and every edge turned around. -/
structure Opposite (g t : Graph) : Prop where
  services : t.services = g.services
  depends : ∀ a b, t.Depends a b ↔ g.Depends b a

/-- Entries for the services of a graph, in any order, where the last one of each lists its dependents. -/
structure Opposes (entries : List (String × List String)) (g : Graph) : Prop where
  services : ∀ name, name ∈ entries.map Prod.fst ↔ name ∈ g.services
  lists : ∀ a b, Lists entries a b ↔ b ∈ g.parents a

def turned (g : Graph) : List (String × List String) := g.services.map fun name => (name, g.parents name)

theorem Accepted.opposes_turned (hg : g.Accepted) : Opposes g.turned g := by
  refine ⟨fun name => ?_, fun a b => ?_⟩
  · unfold turned
    rw [List.map_map]
    exact iff_of_eq (congrArg (name ∈ ·) (List.map_id g.services))
  · unfold turned
    rw [lists_map_iff g.nodup_services]
    exact and_iff_right_of_imp fun hb => hg.declared b a (mem_parents_iff.1 hb)

theorem Opposes.lists_iff (h : Opposes entries g) {a b : String} : Lists entries a b ↔ g.Depends b a :=
  (h.lists a b).trans mem_parents_iff

/-- **The opposite of an accepted graph is built** from any entries that say it. -/
theorem Accepted.exists_opposite (hg : g.Accepted) (h : Opposes entries g) :
    ∃ t, build entries = .ok t ∧ g.Opposite t := by
  have hall : AllDeclared entries := fun a b hab => (h.services b).2 (mem_services_of_depends (h.lists_iff.1 hab))
  have hacyclic : ∀ a, ¬ TransGen (Lists entries) a a := fun a hcycle => by
    have hback : TransGen (Function.swap g.Depends) a a := TransGen.mono (fun _ _ => h.lists_iff.1) _ _ hcycle
    exact hg.acyclic a (Relation.transGen_swap.1 hback)
  rcases build_cases entries with ⟨_, _, -, hnot⟩ | ⟨_, -, -, a, hcycle⟩ | ⟨hbuild, -, -⟩
  · exact absurd hall hnot
  · exact absurd hcycle (hacyclic a)
  · refine ⟨_, hbuild, ?_, fun a b => depends_ofEntries_iff.trans h.lists_iff⟩
    exact ascending_ext (Table.ascending_keys _) g.declared.ascending fun name =>
      mem_services_ofEntries.trans (h.services name)

namespace Opposite

theorem symm (h : g.Opposite t) : t.Opposite g := ⟨h.services.symm, fun a b => (h.depends b a).symm⟩

theorem children_eq (h : g.Opposite t) (name : String) : t.children name = g.parents name :=
  ascending_ext (t.ascending_children name) (g.ascending_parents name) fun other =>
    mem_children_iff.trans ((h.depends name other).trans mem_parents_iff.symm)

theorem parents_eq (h : g.Opposite t) (name : String) : t.parents name = g.children name :=
  (h.symm.children_eq name).symm

end Opposite

end Graph

end Rollout
