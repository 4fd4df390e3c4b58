import Rollout.Cycle
import Rollout.Failure
import Rollout.Table
/-!
Dependency graphs.  A graph is what the services declare: for each, the names it depends on, in its own words, in order
and with repeats.  The two adjacency relations are read off the declarations, so they cannot disagree
(`mem_children_iff`, `mem_parents_iff`).  The roots are the services that nothing depends on, the leaves those that
depend on nothing.

`Graph.build` takes declarations in any order, lets the last one of a name count, and refuses those that name a service
nobody declares or that depend on themselves.  An undeclared name is looked for first, service by service in ascending
order and then in the order of its own declarations.  A graph prints one line for each service, with its dependencies
after an arrow.
-/
namespace Rollout

structure Graph where
  declared : Table (List String)
deriving DecidableEq, Repr

namespace Graph

/-! ## Services and their neighbours -/

def services (g : Graph) : List String := g.declared.keys

def size (g : Graph) : Nat := g.declared.size

def isEmpty (g : Graph) : Bool := g.declared.entries.isEmpty

def contains (g : Graph) (name : String) : Bool := g.declared.contains name

/-- The dependencies of a service as it declares them, in order and with repeats. -/
def dependencies (g : Graph) (name : String) : List String := g.declared.getD name []

def children (g : Graph) (name : String) : List String := Names.ofList (g.dependencies name)

def parents (g : Graph) (name : String) : List String :=
  (g.declared.entries.filter fun e => name ∈ e.2).map Prod.fst

def roots (g : Graph) : List String := g.services.filter fun name => (g.parents name).isEmpty

def leaves (g : Graph) : List String := g.services.filter fun name => (g.children name).isEmpty

/-! ## Building a graph -/

/-- The first service that depends on a name nobody declares, and the first such name in its own order. -/
def undeclared? (g : Graph) : Option (String × String) :=
  g.declared.entries.findSome? fun e => (e.2.find? fun name => !g.contains name).map fun name => (e.1, name)

def cycle? (g : Graph) : Option (List String) := Cycle.find? g.services g.children

def build (entries : List (String × List String)) : Except Failure Graph :=
  let g : Graph := ⟨Table.ofList entries⟩
  match g.undeclared? with
  | some (service, dependency) => .error (.unknownDependency service dependency)
  | none =>
    match g.cycle? with
    | some path => .error (.cyclicDependency path)
    | none => .ok g

/-! ## Queries that ask for a known service -/

def require (g : Graph) (name : String) : Except Failure Unit :=
  if g.contains name then .ok () else .error (.serviceNotFound name)

def childrenOf (g : Graph) (name : String) : Except Failure (List String) := do
  g.require name
  return g.children name

def parentsOf (g : Graph) (name : String) : Except Failure (List String) := do
  g.require name
  return g.parents name

/-! ## The text of a graph

One line per service, in ascending order of the services. -/

def line (g : Graph) (name : String) : String :=
  match g.children name with
  | [] => name
  | deps => name ++ " -> " ++ ", ".intercalate deps

def display (g : Graph) : String := String.join (g.services.map fun name => g.line name ++ "\n")

/-! ## Adjacency -/

theorem mem_children_iff {g : Graph} {a b : String} : b ∈ g.children a ↔ b ∈ g.dependencies a := Names.mem_ofList

theorem ascending_children (g : Graph) (name : String) : Ascending (g.children name) :=
  Names.ascending_ofList _

theorem mem_parents_iff {g : Graph} {a b : String} : a ∈ g.parents b ↔ b ∈ g.dependencies a := by
  unfold parents dependencies Table.getD
  constructor
  · intro h
    obtain ⟨⟨n, deps⟩, he, rfl⟩ := List.mem_map.1 h
    obtain ⟨he, hb⟩ := List.mem_filter.1 he
    rw [g.declared.get?_eq_some_iff.2 he]
    simpa using hb
  · intro h
    cases hget : g.declared.get? a with
    | none => simp [hget] at h
    | some deps =>
      rw [hget] at h
      exact List.mem_map.2 ⟨(a, deps), List.mem_filter.2 ⟨g.declared.get?_eq_some_iff.1 hget, by simpa using h⟩, rfl⟩

theorem ascending_parents (g : Graph) (name : String) : Ascending (g.parents name) :=
  g.declared.ascending.sublist (List.filter_sublist.map Prod.fst)

theorem contains_iff {g : Graph} {name : String} : g.contains name = true ↔ name ∈ g.services :=
  g.declared.contains_iff name

end Graph

end Rollout
