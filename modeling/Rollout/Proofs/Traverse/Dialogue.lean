import Rollout.Proofs.Traverse.Requests
/-!
What a deployment says when it is spoken to, turn by turn.  A turn is a question, which changes nothing, or a request,
and each gets one answer.  What is said after some turns is said by the deployment that the requests among them leave
behind (`replies_append`).

The questions are those that a graph answers, about a service and its neighbours, about the ends and the closure, and
about statuses; the requests are to set a status and to run a traversal.  Two deployments that cannot be told apart by
any dialogue are the same to whoever uses them, and that is how statements about graphs from different sources are made.
-/
namespace Rollout

inductive Question where
  | size
  | isEmpty
  | contains (name : String)
  | services
  | roots
  | leaves
  | vertex (name : String)
  | childrenOf (name : String)
  | parentsOf (name : String)
  | closure (roots : List String)
  | status (name : String)
  | statuses
  | childrenWithStatus (name : String) (status : Status)
  | parentsWithStatus (name : String) (status : Status)
  | display
  | debug
deriving DecidableEq, Repr

structure Vertex where
  key : String
  children : List String
  parents : List String
  /-- Its dependencies in its own words. -/
  declared : List String
deriving DecidableEq, Repr

inductive Answer where
  | number (count : Nat)
  | truth (holds : Bool)
  | names (names : List String)
  | vertex (vertex : Option Vertex)
  | status (status : Option Status)
  | statuses (statuses : Table Status)
  | text (text : String)
  /-- The view for debugging lists its services in no order, so it is told only where there is one at most. -/
  | view (text : Option String)
  | done
  | report (report : Report)
  | refused (failure : Failure)
deriving DecidableEq, Repr

def Answer.ofNames : Except Failure (List String) → Answer
  | .ok found => .names found
  | .error failure => .refused failure

inductive Turn where
  | ask (question : Question)
  | request (request : Request)

def Turn.request? : Turn → Option Request
  | .ask _ => none
  | .request made => some made

namespace Deployment

def vertex? (d : Deployment) (name : String) : Option Vertex :=
  if d.graph.contains name then
    some ⟨name, d.graph.children name, d.graph.parents name, d.graph.dependencies name⟩
  else none

def answer (d : Deployment) : Question → Answer
  | .size => .number d.graph.size
  | .isEmpty => .truth d.graph.isEmpty
  | .contains name => .truth (d.graph.contains name)
  | .services => .names d.graph.services
  | .roots => .names d.graph.roots
  | .leaves => .names d.graph.leaves
  | .vertex name => .vertex (d.vertex? name)
  | .childrenOf name => .ofNames (d.graph.childrenOf name)
  | .parentsOf name => .ofNames (d.graph.parentsOf name)
  | .closure roots => .ofNames (d.graph.closure roots)
  | .status name => .status (d.status? name)
  | .statuses => .statuses d.statuses
  | .childrenWithStatus name status => .ofNames (d.childrenWithStatus name status)
  | .parentsWithStatus name status => .ofNames (d.parentsWithStatus name status)
  | .display => .text d.graph.display
  | .debug => .view (if d.graph.size ≤ 1 then some d.debug else none)

def reply (d : Deployment) : Turn → Answer
  | .ask question => d.answer question
  | .request (.setStatus name status) =>
    match d.setStatus name status with
    | .ok _ => .done
    | .error failure => .refused failure
  | .request (.traverse t limit visitor callerCancelled script) =>
    .report (d.traverse t limit visitor callerCancelled script).1

def next (d : Deployment) : Turn → Deployment
  | .ask _ => d
  | .request made => d.serve made

def replies (d : Deployment) : List Turn → List Answer
  | [] => []
  | turn :: turns => d.reply turn :: (d.next turn).replies turns

/-- **Later answers are those of the deployment that the earlier requests leave behind.** -/
theorem replies_append : ∀ (earlier later : List Turn) (d : Deployment),
    d.replies (earlier ++ later) = d.replies earlier ++ (d.serveAll (earlier.filterMap Turn.request?)).replies later
  | [], _, _ => rfl
  | turn :: earlier, later, d => by
    have hnext : d.serveAll ((turn :: earlier).filterMap Turn.request?) =
        (d.next turn).serveAll (earlier.filterMap Turn.request?) := by
      rw [List.filterMap_cons]
      cases turn with
      | ask question => rfl
      | request made => rfl
    rw [hnext]
    exact congrArg (d.reply turn :: ·) (replies_append earlier later (d.next turn))

end Deployment

end Rollout
