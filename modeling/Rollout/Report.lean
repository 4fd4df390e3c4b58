import Rollout.Settle
/-!
What a traversal shows to its caller.  It runs to rest, something happens from outside, it runs to rest again, and so on
until nothing is in flight or nothing more happens.  Each rest ends a phase, with the events since the rest before and
the statuses of the whole graph.  A traversal that is dropped while visits are held up leaves them unfinished.

Three things can happen from outside: a release of a service, the cancellation of the token of the caller, and a new
status.  A release wakes the visit that waits for it, or is kept until a visit asks for it.  A script says what happens
at each rest; when it is over, a traversal that is not done is left pending, and its report names the visits under way.
A traversal whose roots are not services has a report as well, with one phase in which nothing has happened.
-/
namespace Rollout

inductive Outside where
  | release (service : String)
  /-- Cancels the token of the caller. -/
  | cancel
  | setStatus (service : String) (status : Status)
deriving DecidableEq, Repr

abbrev Script := List (List Outside)

structure Phase where
  /-- Oldest first. -/
  events : List Event
  statuses : Table Status
deriving DecidableEq, Repr

inductive Result where
  | ok
  | failed (failure : Failure)
  | pending
deriving DecidableEq, Repr

structure Report where
  phases : List Phase
  result : Result
  /-- The visits under way when a pending traversal was dropped. -/
  dropped : List String
deriving DecidableEq, Repr

namespace State

def play (s : State) : Outside → State
  | .release service =>
    match s.stages.get? service with
    | some (.awaitingRelease rest) => (s.setStage service (.running rest)).enqueue service
    | _ => { s with releases := s.releases ++ [service] }
  | .cancel => s.cancelCaller
  | .setStatus service status => { s with statuses := s.statuses.modify service fun _ => status }

def start (w : Walk) (statuses : Table Status) (callerCancelled : Bool) : State :=
  ((initial w statuses callerCancelled).openRound).settle w

def resume (w : Walk) (s : State) (acts : List Outside) : State :=
  ((acts.foldl play s).noteCancellation).settle w

def rests (w : Walk) (s : State) : Script → List State
  | [] => [s]
  | acts :: script => if s.done then [s] else s :: rests w (s.resume w acts) script

/-- The phases that end at some rests, when `seen` events had happened before. -/
def phases (seen : Nat) : List State → List Phase
  | [] => []
  | s :: rests =>
    ⟨(s.history.take (s.history.length - seen)).reverse, s.statuses⟩ :: phases s.history.length rests

def result (s : State) : Result :=
  match s.aborted with
  | some failure => .failed failure
  | none =>
    if s.done then
      match s.failure with
      | none => .ok
      | some failure => .failed failure
    else .pending

def report (rests : List State) (last : State) : Report where
  phases := phases 0 rests
  result := last.result
  dropped := if last.done then [] else last.underWay

end State

def Traversal.walk (t : Traversal) (g : Graph) (limit : Option Limit) (visitor : Visitor) : Except Failure Walk := do
  return ⟨g, t.direction, ← t.scope g, t.target, limit, visitor⟩

def Report.refused (statuses : Table Status) (failure : Failure) : Report :=
  ⟨[⟨[], statuses⟩], .failed failure, []⟩

/-- Runs a traversal on a deployment: its report, and the deployment it leaves behind. -/
def Deployment.traverse (d : Deployment) (t : Traversal) (limit : Option Limit) (visitor : Visitor)
    (callerCancelled : Bool) (script : Script) : Report × Deployment :=
  match t.walk d.graph limit visitor with
  | .error failure => (.refused d.statuses failure, d)
  | .ok w =>
    let first := State.start w d.statuses callerCancelled
    let rests := first.rests w script
    let last := rests.getLast?.getD first
    (State.report rests last, { d with statuses := last.statuses })

end Rollout
