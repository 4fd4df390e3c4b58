import Rollout.Proofs.Walk.Scope
/-!
The outline of a walk: what its history shows, without the run queue, the slots and the actions that visits still have
to do.  A wake-up, a slot passed on or a visit held up does not change it.  The operations of the machine are said again
here over outlines, and `Outline.Step` says what one turn of a visit can do to one.

Of a visit the outline keeps how far it has come (`Progress`): it is idle, waits for its first turn or for a slot, is
under way, or has ended.  The tables of the machine are functions here and its loops are done at once: a visit is
counted off for all that wait for it in one step, and a round dispatches all that is ready.  That makes outlines easy to
reason about and useless to run, which the machine is there for.

An invariant of the outline is shown for the steps of the outline, and then holds of every state of a walk; what a visit
has still to do, and where it stands, need the roster.
-/
namespace Rollout

/-- How far the visit of a service has come, as its history shows it. -/
inductive Progress where
  | idle
  /-- Dispatched, but its visitor has not begun. -/
  | waiting
  | underWay
  | ended (error : Option Failure)
deriving DecidableEq, Repr

def Stage.progress : Stage → Progress
  | idle => .idle
  | dispatched => .waiting
  | awaitingSlot => .waiting
  | granted => .waiting
  | running _ => .underWay
  | awaitingRelease _ => .underWay
  | awaitingCancel _ => .underWay
  | ended error => .ended error

@[ext] structure Outline where
  progress : String → Option Progress
  unresolved : String → Option Nat
  ready : List String
  statuses : Table Status
  callerCancelled : Bool
  tripped : Bool
  failure : Option Failure
  aborted : Option Failure
  history : List Event

def State.outline (s : State) : Outline where
  progress name := (s.stages.get? name).map Stage.progress
  unresolved := s.unresolved.get?
  ready := s.ready
  statuses := s.statuses
  callerCancelled := s.callerCancelled
  tripped := s.tripped
  failure := s.failure
  aborted := s.aborted
  history := s.history

namespace Outline

/-! ## The operations -/

def tokenCancelled (o : Outline) : Bool := o.callerCancelled || o.tripped

def note (o : Outline) (e : Event) : Outline := { o with history := e :: o.history }

def put (o : Outline) (name : String) (p : Progress) : Outline :=
  { o with progress := fun n => if n = name then (o.progress n).map fun _ => p else o.progress n }

theorem progress_put_self {o : Outline} {name : String} {p old : Progress} (h : o.progress name = some old) :
    (o.put name p).progress name = some p := by
  unfold put
  simp [h]

theorem progress_put_other {o : Outline} {name n : String} {p : Progress} (h : n ≠ name) :
    (o.put name p).progress n = o.progress n := if_neg h

def cancel (o : Outline) : Outline :=
  { o with
    callerCancelled := true
    history := if o.callerCancelled then o.history else .cancelled :: o.history }

def notice (o : Outline) : Outline :=
  { o with failure := if o.failure.isNone && o.callerCancelled then some .cancelled else o.failure }

def record (o : Outline) (f : Failure) : Outline :=
  { o with
    failure := match o.failure with
      | none => some f
      | some current => if current.isCancelled && !f.isCancelled then some f else some current }

/-- Counts one prerequisite off for each of some services; those for which it was the last one become ready. -/
def countOff (o : Outline) (names : List String) : Outline :=
  { o with
    unresolved := fun n => if n ∈ names then (o.unresolved n).map (· - 1) else o.unresolved n
    ready := o.ready ++ names.filter fun n => o.unresolved n = some 1 }

/-- Dispatches those of some services that are idle. -/
def dispatch (o : Outline) (names : List String) : Outline :=
  { o with
    progress := fun n => if n ∈ names ∧ o.progress n = some .idle then some .waiting else o.progress n
    history := ((names.filter fun n => o.progress n = some .idle).map .dispatched).reverse ++ o.history }

theorem progress_dispatch (o : Outline) (names : List String) (n : String) : (o.dispatch names).progress n =
    if n ∈ names ∧ o.progress n = some .idle then some .waiting else o.progress n := rfl

def openRound (o : Outline) : Outline :=
  if o.notice.failure.isNone then { o.notice with ready := [] }.dispatch o.ready else { o.notice with ready := [] }

def mark (w : Walk) (o : Outline) (name : String) : Except Failure Outline :=
  match w.target with
  | none => .ok o
  | some status =>
    if o.statuses.contains name then .ok { o with statuses := o.statuses.modify name fun _ => status }
    else .error (.serviceNotFound name)

def conclude (w : Walk) (o : Outline) (name : String) : Option Failure → Outline
  | none =>
    match o.mark w name with
    | .error f => { o with aborted := some f }
    | .ok o => (if o.failure.isNone then o.countOff (w.successors name) else o).openRound
  | some cause => ({ o with tripped := true }.record (State.classify name cause)).openRound

def begin (o : Outline) (name : String) : Outline := (o.put name .underWay).note (.began name)

def finish (w : Walk) (o : Outline) (name : String) (error : Option Failure) : Outline :=
  ((o.put name (.ended error)).note (.ended name error)).conclude w name error

def turnAway (w : Walk) (o : Outline) (name : String) : Outline :=
  ((o.put name (.ended (some .cancelled))).note (.turnedAway name)).conclude w name (some .cancelled)

/-! ## What a turn can do -/

/-- What one turn of a visit does to the outline of a walk. -/
inductive Step (w : Walk) (o : Outline) : Outline → Prop where
  /-- A visit is held up, lines up for a slot, or uses a release up. -/
  | still : Step w o o
  | begin {name : String} : o.progress name = some .waiting → (w.limit.isSome → o.tokenCancelled = false) →
      Step w o (o.begin name)
  | cancel {name : String} : o.progress name = some .underWay → Step w o o.cancel
  | token {name : String} : o.progress name = some .underWay → Step w o (o.note (.token name o.tokenCancelled))
  | status {name : String} (other : String) : o.progress name = some .underWay →
      Step w o (o.note (.status name other (o.statuses.get? other)))
  | log {name : String} (text : String) : o.progress name = some .underWay → Step w o (o.note (.log name text))
  | write (other : String) (status : Status) : other ∈ o.statuses.keys →
      Step w o { o with statuses := o.statuses.modify other fun _ => status }
  | finish {name : String} (error : Option Failure) : o.progress name = some .underWay →
      Step w o (o.finish w name error)
  | turnAway {name : String} : o.progress name = some .waiting → o.tokenCancelled = true →
      Step w o (o.turnAway w name)

theorem ready_openRound (o : Outline) : o.openRound.ready = [] := by
  unfold openRound
  split
  · rfl
  · rfl

theorem ready_conclude {w : Walk} {o : Outline} (name : String) (error : Option Failure) (h : o.ready = []) :
    (o.conclude w name error).ready = [] := by
  cases error with
  | some cause => exact ready_openRound _
  | none =>
    unfold conclude
    dsimp only
    split
    · exact h
    · exact ready_openRound _

theorem Step.ready {w : Walk} {o o' : Outline} (h : Step w o o') (hready : o.ready = []) : o'.ready = [] := by
  cases h with
  | finish error _ => exact ready_conclude _ _ hready
  | turnAway _ _ => exact ready_conclude _ _ hready
  | _ => exact hready

theorem Step.of_eq {w : Walk} {o o' : Outline} (h : o' = o) : Step w o o' := h ▸ .still

end Outline

end Rollout
