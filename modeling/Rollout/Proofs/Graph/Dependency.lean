import Mathlib.Logic.Relation
import Rollout.Graph
/-!
The dependency relation of a graph: what a service declares, and what it depends on through others.  A graph that is
built from entries depends as the last entry of each name says (`depends_ofEntries_iff`).

Statements about graphs are made in terms of these relations, and not of the lists in which a graph keeps them.
`Graph.Depends` is one step, by a declaration of the service itself, and `Graph.DependsOn` one or more.  What counts for
a name among entries is what its last entry lists (`Counts`, `Lists`).
-/
namespace Rollout

open Relation (TransGen)

def Counts (entries : List (String × List String)) (name : String) (listed : List String) : Prop :=
  ∃ earlier later, entries = earlier ++ (name, listed) :: later ∧ ∀ e ∈ later, e.1 ≠ name

/-- The last entry of `a` lists `b`. -/
def Lists (entries : List (String × List String)) (a b : String) : Prop :=
  ∃ earlier names later, entries = earlier ++ (a, names) :: later ∧ (∀ e ∈ later, e.1 ≠ a) ∧ b ∈ names

namespace Graph

variable {g : Graph} {a b : String}

/-- `a` declares that it depends on `b`. -/
def Depends (g : Graph) (a b : String) : Prop := b ∈ g.dependencies a

def DependsOn (g : Graph) (a b : String) : Prop := TransGen g.Depends a b

theorem mem_dependencies_iff : b ∈ g.dependencies a ↔ ∃ names, g.declared.get? a = some names ∧ b ∈ names := by
  unfold dependencies Table.getD
  cases g.declared.get? a with
  | none => simp
  | some names => simp

theorem mem_services_of_depends (h : g.Depends a b) : a ∈ g.services := by
  obtain ⟨names, hget, -⟩ := mem_dependencies_iff.1 h
  exact (g.declared.get?_isSome_iff a).1 (by rw [hget]; rfl)

theorem mem_services_of_dependsOn (h : g.DependsOn a b) : a ∈ g.services := by
  obtain ⟨c, hac, -⟩ := TransGen.head'_iff.1 h
  exact mem_services_of_depends hac

theorem nodup_services (g : Graph) : g.services.Nodup := g.declared.nodup_keys

/-! ## Graphs of entries -/

theorem counts_iff {entries : List (String × List String)} {listed : List String} :
    Counts entries a listed ↔ (Table.ofList entries).get? a = some listed :=
  Table.get?_ofList_eq_some_iff.symm

theorem depends_ofEntries_iff {entries : List (String × List String)} :
    Depends ⟨Table.ofList entries⟩ a b ↔ Lists entries a b := by
  unfold Depends
  rw [mem_dependencies_iff]
  constructor
  · rintro ⟨names, hget, hb⟩
    obtain ⟨earlier, later, heq, hlater⟩ := Table.get?_ofList_eq_some_iff.1 hget
    exact ⟨earlier, names, later, heq, hlater, hb⟩
  · rintro ⟨earlier, names, later, heq, hlater, hb⟩
    exact ⟨names, Table.get?_ofList_eq_some_iff.2 ⟨earlier, later, heq, hlater⟩, hb⟩

theorem mem_services_ofEntries {entries : List (String × List String)} :
    a ∈ services ⟨Table.ofList entries⟩ ↔ a ∈ entries.map Prod.fst := Table.mem_keys_ofList

end Graph

end Rollout
