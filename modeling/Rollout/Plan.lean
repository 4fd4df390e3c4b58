import Rollout.Config
import Rollout.Report
/-!
Plans.  A plan groups the services that an operation would visit into waves: the first wave waits for nothing, and every
later one waits for something in the wave before it.

It is made by walking the graph with a visitor that does nothing but give each service its wave: one more than the
highest wave of its prerequisites, all of which have theirs by then.  A service gets its wave when the visitor is called
for it.  That is in the first turn of its visit, before a limit makes it wait for a slot, and visits have their first
turns in the order in which they are dispatched.  So the plan is that of the order of dispatch (`ofOrder`).  What the
visit does after that has no part in the plan; it only gives way to the others, and ends well.

There is a plan only once the traversal has come to a good end.  One that fails has its failure instead, and one that is
left pending has neither (`Planning`).

The operations differ in the traversal, in the status that services have before it, and in the title of the plan.  A
restart plans its services and everything that depends on them.
-/
namespace Rollout

structure Plan where
  /-- The wave of each service that is visited. -/
  wave : Table Nat
deriving DecidableEq, Repr

namespace Plan

/-! ## Waves -/

def services (p : Plan) : List String := p.wave.keys

def members (p : Plan) (wave : Nat) : List String := (p.wave.entries.filter fun e => e.2 = wave).map Prod.fst

def highest (p : Plan) : Nat := p.wave.values.foldl max 0

def waves (p : Plan) : List Nat := (List.range (p.highest + 1)).filter fun wave => !(p.members wave).isEmpty

/-! ## Operations to plan -/

inductive Operation where
  | up
  | down
  /-- Restarts some services and everything that depends on them. -/
  | restart (services : List String)
deriving DecidableEq, Repr

namespace Operation

def traversal : Operation → Traversal
  | up => .inDependencyOrder
  | down => .inReverseDependencyOrder
  | restart services => .downstreamOf services

def initialStatus : Operation → Status
  | up => .stopped
  | down => .started
  | restart _ => .started

def title : Operation → String
  | up => "Bring-up order:"
  | down => "Tear-down order:"
  | restart _ => "Restart order:"

end Operation

/-! ## Waves in an order -/

def assign (d : Direction) (g : Graph) (wave : Table Nat) (name : String) : Table Nat :=
  wave.insert name (((d.prerequisites g name).filterMap wave.get?).foldl max 0 + 1)

def ofOrder (d : Direction) (g : Graph) (names : List String) : Plan := ⟨names.foldl (assign d g) .empty⟩

end Plan

def Event.dispatched? : Event → Option String
  | .dispatched name => some name
  | _ => none

/-- The services that were dispatched, in the order in which they were. -/
def Report.dispatched (r : Report) : List String := (r.phases.flatMap Phase.events).filterMap Event.dispatched?

/-! ## Making a plan -/

inductive Planning where
  | made (plan : Plan)
  | failed (failure : Failure)
  | pending
deriving DecidableEq, Repr

namespace Plan

def idle : Visitor := fun _ => []

/-- The plan that a traversal has made by its end.  The visitor is called in the first turn of a visit, before it has a
slot, and the first turns come in the order in which the visits are dispatched. -/
def ofReport (d : Direction) (g : Graph) (r : Report) : Planning :=
  match r.result with
  | .ok => .made (ofOrder d g r.dispatched)
  | .failed failure => .failed failure
  | .pending => .pending

def ofGraph (g : Graph) (o : Operation) (limit : Option Limit) (callerCancelled : Bool) : Planning :=
  ofReport o.traversal.direction g
    ((Deployment.uniform g o.initialStatus).traverse o.traversal limit idle callerCancelled []).1

end Plan

end Rollout
