import Rollout.Visit
/-!
The walk of a traversal over a graph, as a machine that takes one step at a time.

Visits that can go on stand in a run queue, first come first served.  A step looks at the visit at the head of the
queue: it begins, does one action, is held up and leaves the queue, or ends.  An end opens the next round: services
whose last prerequisite it was are dispatched in ascending order, unless a failure is recorded by then.  The token of a
visit is cancelled with that of the caller, and also by the first visit that ends in error.

Services wait for those of their prerequisites that the walk covers, and each keeps a count of those that have not ended
well yet.  The end of a visit that went well counts it off for each service that waits for it; the one that leaves none
makes that service ready.  A round dispatches what is ready, or forgets it once a failure is recorded.  With a limit, a
visit takes a slot in its first turn, or gets in line for one, and gives it back at its end to the visit that has been
in line for longest.

A cancellation wakes the visits that stand in line for it, in the order in which they got there; one that is in the run
queue already keeps its place.  Of failures the walk keeps the first one, except that a failed visit takes the place of
a cancellation.  The target status of a service is recorded when its visit ends well; a status that cannot be recorded
would end the whole walk.

`State.settle` runs the machine until the queue is empty.  It comes to an end because every step lowers the effort that
is left (`effort_step_lt`): what is still to be done in all visits, and the places in the two queues a visit can be
woken from and into.
-/
namespace Rollout

structure Walk where
  graph : Graph
  direction : Direction
  /-- The services covered, in ascending order. -/
  scope : List String
  target : Option Status
  limit : Option Limit
  visitor : Visitor

namespace Walk

/-- The prerequisites of a service that the walk covers; the others do not count. -/
def prerequisites (w : Walk) (name : String) : List String :=
  (w.direction.prerequisites w.graph name).filter (· ∈ w.scope)

def successors (w : Walk) (name : String) : List String :=
  (w.direction.successors w.graph name).filter (· ∈ w.scope)

end Walk

structure State where
  statuses : Table Status
  /-- The visit of each covered service. -/
  stages : Table Stage
  /-- How many covered prerequisites of each service have not ended well yet. -/
  unresolved : Table Nat
  /-- Services whose last prerequisite has ended well, to be dispatched when the next round opens. -/
  ready : List String
  /-- The run queue. -/
  queue : List String
  /-- Slots that nobody holds. -/
  free : Nat
  /-- Visits in line for a slot. -/
  slotQueue : List String
  /-- Visits that the cancellation of their token wakes, in the order in which they began to wait for it. -/
  cancelQueue : List String
  /-- Releases that are not used up, one entry each. -/
  releases : List String
  callerCancelled : Bool
  /-- Whether a visit has ended in error. -/
  tripped : Bool
  /-- What the walk will report, once something has gone wrong. -/
  failure : Option Failure
  /-- Why the walk was given up at once, with its visits left where they were. -/
  aborted : Option Failure
  /-- What has happened, newest first. -/
  history : List Event
deriving DecidableEq, Repr

namespace State

def initial (w : Walk) (statuses : Table Status) (callerCancelled : Bool) : State where
  statuses := statuses
  stages := Table.ofNames w.scope fun _ => .idle
  unresolved := Table.ofNames w.scope fun name => (w.prerequisites name).length
  ready := w.scope.filter fun name => (w.prerequisites name).isEmpty
  queue := []
  free := (w.limit.map Limit.slots).getD 0
  slotQueue := []
  cancelQueue := []
  releases := []
  callerCancelled := callerCancelled
  tripped := false
  failure := none
  aborted := none
  history := if callerCancelled then [.cancelled] else []

/-! ## Views -/

def tokenCancelled (s : State) : Bool := s.callerCancelled || s.tripped

def inFlight (s : State) : List String := (s.stages.entries.filter fun e => e.2.inFlight).map Prod.fst

def underWay (s : State) : List String := (s.stages.entries.filter fun e => e.2.underWay).map Prod.fst

/-- Nothing is in flight or the walk was given up, so nothing can happen any more. -/
def done (s : State) : Bool := s.aborted.isSome || s.inFlight.isEmpty

/-! ## Small changes -/

def note (s : State) (e : Event) : State := { s with history := e :: s.history }

def setStage (s : State) (name : String) (stage : Stage) : State :=
  { s with stages := s.stages.modify name fun _ => stage }

def enqueue (s : State) (name : String) : State :=
  if name ∈ s.queue then s else { s with queue := s.queue ++ [name] }

/-- Keeps the first failure; only a failed visit takes the place of a cancellation. -/
def record (s : State) (f : Failure) : State :=
  match s.failure with
  | none => { s with failure := some f }
  | some current => if current.isCancelled && !f.isCancelled then { s with failure := some f } else s

/-- A cancellation by the caller is what the walk reports, if nothing is recorded before. -/
def noteCancellation (s : State) : State :=
  if s.failure.isNone && s.callerCancelled then { s with failure := some .cancelled } else s

/-! ## Cancellation -/

def wake (s : State) (name : String) : State :=
  match s.stages.get? name with
  | some (.awaitingCancel rest) => (s.setStage name (.running rest)).enqueue name
  | _ => s.enqueue name

def wakeAll (s : State) : State := s.cancelQueue.foldl wake { s with cancelQueue := [] }

def cancelCaller (s : State) : State :=
  if s.callerCancelled then s else ({ s with callerCancelled := true }.note .cancelled).wakeAll

/-- Cancels the token of the visits after an error, but not that of the caller. -/
def trip (s : State) : State := { s with tripped := true }.wakeAll

/-! ## Rounds -/

def countOff (s : State) (name : String) : State :=
  match s.unresolved.get? name with
  | some 1 => { s with unresolved := s.unresolved.modify name fun _ => 0, ready := s.ready ++ [name] }
  | some (n + 2) => { s with unresolved := s.unresolved.modify name fun _ => n + 1 }
  | _ => s

def dispatch (s : State) (name : String) : State :=
  match s.stages.get? name with
  | some .idle => ({ s with queue := s.queue ++ [name] }.setStage name .dispatched).note (.dispatched name)
  | _ => s

/-- Dispatches what is ready, or forgets it once a failure is recorded. -/
def openRound (s : State) : State :=
  let s := s.noteCancellation
  if s.failure.isNone then s.ready.foldl dispatch { s with ready := [] } else { s with ready := [] }

/-! ## The end of a visit -/

/-- The error of a visit as the walk reports it: a visit that gave up because of a cancellation has not failed. -/
def classify (name : String) (cause : Failure) : Failure :=
  if cause.isCancelled then .cancelled else .visitFailed name cause

/-- Gives a slot back: to the visit that has been in line for longest, or to nobody. -/
def passSlot (s : State) : State :=
  match s.slotQueue with
  | [] => { s with free := s.free + 1 }
  | next :: rest =>
    match s.stages.get? next with
    | some .awaitingSlot => ({ s with slotQueue := rest }.setStage next .granted).enqueue next
    | _ => { s with slotQueue := rest }

def mark (w : Walk) (s : State) (name : String) : Except Failure State :=
  match w.target with
  | none => .ok s
  | some status =>
    if s.statuses.contains name then .ok { s with statuses := s.statuses.modify name fun _ => status }
    else .error (.serviceNotFound name)

def abort (s : State) (f : Failure) : State := { s with queue := [], aborted := some f }

/-- What the end of a visit means for the others.  A status that cannot be recorded ends the whole walk. -/
def conclude (w : Walk) (s : State) (name : String) (error : Option Failure) : State :=
  match error with
  | none =>
    match s.mark w name with
    | .error f => s.abort f
    | .ok s =>
      let s := if s.failure.isNone then (w.successors name).foldl countOff s else s
      s.openRound
  | some cause => ((s.trip).record (classify name cause)).openRound

def finish (w : Walk) (s : State) (name : String) (error : Option Failure) : State :=
  let s := (s.setStage name (.ended error)).note (.ended name error)
  let s := if w.limit.isSome then s.passSlot else s
  conclude w s name error

/-- A visit gives up before its visitor has begun. -/
def turnAway (w : Walk) (s : State) (name : String) : State :=
  conclude w ((s.setStage name (.ended (some .cancelled))).note (.turnedAway name)) name (some .cancelled)

/-! ## Steps -/

def begin (w : Walk) (s : State) (name : String) : State :=
  (s.setStage name (.running (w.visitor name))).note (.began name)

/-- The first turn of a visit: with a limit it takes a slot before anything else, or gets in line for one. -/
def enter (w : Walk) (s : State) (name : String) (others : List String) : State :=
  match w.limit with
  | none => s.begin w name
  | some _ =>
    if s.tokenCancelled then { s with queue := others }.turnAway w name
    else if 0 < s.free then { s with free := s.free - 1 }.begin w name
    else { s with
      queue := others, slotQueue := s.slotQueue ++ [name], cancelQueue := s.cancelQueue ++ [name] }.setStage
        name .awaitingSlot

/-- Does one action of the visit at the head of the queue.  `others` is the queue without it. -/
def perform (w : Walk) (s : State) (name : String) (others : List String) (rest : List Action) : Action → State
  | .wait =>
    if name ∈ s.releases then { s with releases := s.releases.erase name }.setStage name (.running rest)
    else { s with queue := others }.setStage name (.awaitingRelease rest)
  | .waitCancel =>
    if s.tokenCancelled then s.setStage name (.running rest)
    else { s with queue := others, cancelQueue := s.cancelQueue ++ [name] }.setStage name (.awaitingCancel rest)
  | .cancel => (s.setStage name (.running rest)).cancelCaller
  | .token => (s.setStage name (.running rest)).note (.token name s.tokenCancelled)
  | .status other => (s.setStage name (.running rest)).note (.status name other (s.statuses.get? other))
  | .setStatus other status =>
    if s.statuses.contains other then
      { s with statuses := s.statuses.modify other fun _ => status }.setStage name (.running rest)
    else { s with queue := others }.finish w name (some (.serviceNotFound other))
  | .log text => (s.setStage name (.running rest)).note (.log name text)
  | .fail cause => { s with queue := others }.finish w name (some cause)

/-- One step of the machine: the visit at the head of the queue has its turn. -/
def step (w : Walk) (s : State) : State :=
  match s.queue with
  | [] => s
  | name :: others =>
    match s.stages.get? name with
    | some .dispatched => s.enter w name others
    | some .awaitingSlot =>
      if s.tokenCancelled then
        { s with queue := others, slotQueue := s.slotQueue.erase name }.turnAway w name
      else { s with queue := others }
    | some .granted =>
      if s.tokenCancelled then ({ s with queue := others }.passSlot).turnAway w name
      else { s with cancelQueue := s.cancelQueue.erase name }.begin w name
    | some (.running []) => { s with queue := others }.finish w name none
    | some (.running (action :: rest)) => s.perform w name others rest action
    | _ => { s with queue := others }

end State

end Rollout
