import Rollout.Deployment
/-!
What a traversal is asked to do: the way prerequisites point, the services it covers, and the status it leaves behind.
`Traversal.inDependencyOrder`, `Traversal.inReverseDependencyOrder` and `Traversal.downstreamOf` are the ones that
bring-up, tear-down and restart use.

Forward, a service waits for its dependencies; in reverse, for its dependents.  The prerequisites and the successors of
a service are its neighbours on either side, and the direction only says which side is which.  The scope of a traversal
is the whole graph or the closure of its roots along dependents, whichever direction it goes in; so a traversal with
roots that goes forward may leave prerequisites of a service out.
-/
namespace Rollout

inductive Direction where
  | forward
  | reverse
deriving DecidableEq, Repr

namespace Direction

def prerequisites (d : Direction) (g : Graph) (name : String) : List String :=
  match d with
  | forward => g.children name
  | reverse => g.parents name

def successors (d : Direction) (g : Graph) (name : String) : List String :=
  match d with
  | forward => g.parents name
  | reverse => g.children name

def defaultTarget : Direction → Status
  | forward => .started
  | reverse => .stopped

def word : Direction → String
  | forward => "forward"
  | reverse => "reverse"

theorem mem_successors_iff {d : Direction} {g : Graph} {a b : String} :
    b ∈ d.successors g a ↔ a ∈ d.prerequisites g b := by
  cases d <;> simp [successors, prerequisites, Graph.mem_children_iff, Graph.mem_parents_iff]

end Direction

/-- Without roots a traversal covers the whole graph.  Without a target it leaves every status to the visitor. -/
structure Traversal where
  direction : Direction
  roots : Option (List String)
  target : Option Status
deriving DecidableEq, Repr

namespace Traversal

def towards (d : Direction) : Traversal := ⟨d, none, some d.defaultTarget⟩

def forward : Traversal := towards .forward

def reverse : Traversal := towards .reverse

/-- Restricts a traversal to some roots and what depends on them; no roots at all are the whole graph. -/
def withRoots (t : Traversal) (roots : List String) : Traversal :=
  { t with roots := if roots.isEmpty then none else some roots }

def withTarget (t : Traversal) (target : Option Status) : Traversal := { t with target := target }

def inDependencyOrder : Traversal := forward

def inReverseDependencyOrder : Traversal := reverse

def downstreamOf (roots : List String) : Traversal := reverse.withRoots roots

def scope (t : Traversal) (g : Graph) : Except Failure (List String) :=
  match t.roots with
  | none => .ok g.services
  | some roots => g.closure roots

end Traversal

end Rollout
