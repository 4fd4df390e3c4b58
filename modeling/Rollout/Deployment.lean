import Rollout.Closure
import Rollout.Status
import Rollout.Text.Quoted
/-!
A deployment is a dependency graph with the current status of each of its services.  The edges never change; statuses
change one at a time, and only those of known services (`setStatus`).

A deployment begins with every service in the same status (`uniform`).  Queries see the statuses as they are now: the
direct dependencies of a service in a given status, and its direct dependents.  `debug` is the view for debugging, the
services as quoted names and then the status of each.
-/
namespace Rollout

structure Deployment where
  graph : Graph
  statuses : Table Status
deriving DecidableEq, Repr

namespace Deployment

def uniform (g : Graph) (status : Status) : Deployment := ⟨g, g.declared.map fun _ _ => status⟩

def status? (d : Deployment) (name : String) : Option Status := d.statuses.get? name

def setStatus (d : Deployment) (name : String) (status : Status) : Except Failure Deployment :=
  if d.statuses.contains name then .ok { d with statuses := d.statuses.modify name fun _ => status }
  else .error (.serviceNotFound name)

def childrenWithStatus (d : Deployment) (name : String) (status : Status) : Except Failure (List String) := do
  return (← d.graph.childrenOf name).filter fun child => d.status? child = some status

def parentsWithStatus (d : Deployment) (name : String) (status : Status) : Except Failure (List String) := do
  return (← d.graph.parentsOf name).filter fun parent => d.status? parent = some status

def debug (d : Deployment) : String :=
  let quoted := d.graph.services.map Text.quote
  let bound := d.statuses.entries.map fun e => Text.quote e.1 ++ ": " ++ e.2.debugName
  "Graph \x7b services: [" ++ ", ".intercalate quoted ++ "], status: \x7b" ++ ", ".intercalate bound ++ "\x7d \x7d"

end Deployment

end Rollout
