/-!
The depth-first search for a cycle in a relation on names.  The search carries the path from its start to the name it
stands on, newest first, and the names it has marked so far; a neighbour that is marked and on the path closes a cycle.
A search that finds none gives back its marks, so the next start skips what is already settled.

The search recurs on a bound for the length of the path that is still to come.  A path without repeats is no longer than
the list of all names, so that length is bound enough (`find?`); that the bound is never what ends a search is proved
where the answers of the search are.
-/
namespace Rollout

namespace Cycle

/-- The cycle that a step to `back` closes, when `back` is on the path: from its place on the path to the newest name,
and then itself again. -/
def close (back : String) (path : List String) : List String :=
  back :: (path.takeWhile (· ≠ back)).reverse ++ [back]

/-- The search below `node`, which is not marked yet.  `path` leads to `node`, newest first; `depth` bounds the length
of the path that is still to come. -/
def explore (next : String → List String) :
    (depth : Nat) → (path marked : List String) → (node : String) → Except (List String) (List String)
  | 0, _, marked, _ => .ok marked
  | depth + 1, path, marked, node =>
    (next node).foldlM (fun marked child =>
      if child ∈ marked then
        if child ∈ node :: path then .error (close child (node :: path)) else .ok marked
      else explore next depth (node :: path) marked child) (node :: marked)

def exploreAll (next : String → List String) (depth : Nat) (starts : List String) :
    Except (List String) (List String) :=
  starts.foldlM (fun marked node =>
    if node ∈ marked then .ok marked else explore next depth [] marked node) []

def find? (names : List String) (next : String → List String) : Option (List String) :=
  match exploreAll next names.length names with
  | .ok _ => none
  | .error cycle => some cycle

end Cycle

end Rollout
