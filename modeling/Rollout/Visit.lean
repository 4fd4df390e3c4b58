import Rollout.Traversal
/-!
One visit of one service: what the visitor does in it, and how far it has come.  A visit is a list of actions that run
in order; it ends well when none is left and badly at the first action that fails.  Two actions can hold it up, a wait
for a release of its service and a wait for the cancellation of its token.

A visit is in flight from its dispatch to its end, and under way from the beginning of its visitor to its end.  In
between it may stand in line for a slot, which it gets from a limit (`Limit`): at least one visit may be under way at
once, and no more than there are slots that can be counted.  The history of a traversal keeps what happens in it as
events; to be handed a slot, to be held up and to be woken are no events.
-/
namespace Rollout

inductive Action where
  /-- Waits until the service has a release that is not used up, and uses it up. -/
  | wait
  /-- Waits until the token of the visit is cancelled. -/
  | waitCancel
  /-- Cancels the token of the caller. -/
  | cancel
  /-- Notes whether the token of the visit is cancelled. -/
  | token
  /-- Notes the status of a service. -/
  | status (service : String)
  | setStatus (service : String) (status : Status)
  | log (text : String)
  | fail (cause : Failure)
deriving DecidableEq, Repr

abbrev Visitor := String → List Action

/-- How far the visit of a service has come. -/
inductive Stage where
  /-- Not eligible yet. -/
  | idle
  /-- Eligible, and in the run queue for the first time. -/
  | dispatched
  /-- In line for a slot. -/
  | awaitingSlot
  /-- Handed a slot, and in the run queue to take it up. -/
  | granted
  /-- Begun; `rest` is still to be done. -/
  | running (rest : List Action)
  | awaitingRelease (rest : List Action)
  | awaitingCancel (rest : List Action)
  /-- Ended, with the error it ended in if it did not end well. -/
  | ended (error : Option Failure)
deriving DecidableEq, Repr

namespace Stage

def inFlight : Stage → Bool
  | idle => false
  | ended _ => false
  | _ => true

def underWay : Stage → Bool
  | running _ => true
  | awaitingRelease _ => true
  | awaitingCancel _ => true
  | _ => false

end Stage

inductive Event where
  | dispatched (service : String)
  | began (service : String)
  | token (service : String) (cancelled : Bool)
  | status (service other : String) (status : Option Status)
  | log (service text : String)
  | ended (service : String) (error : Option Failure)
  /-- A visit that waited for a slot was cancelled before its visitor began. -/
  | turnedAway (service : String)
  /-- The token of the caller was cancelled. -/
  | cancelled
deriving DecidableEq, Repr

def Limit.most : Nat := 0x1fffffffffffffff

/-- How many visits may be under way at once: at least one, and no more than the slots that can be counted. -/
structure Limit where
  slots : Nat
  pos : 0 < slots
  le_most : slots ≤ Limit.most
deriving DecidableEq, Repr

namespace Limit

/-- The limit of `n` visits, where none counts as one; nothing if there are not that many slots. -/
def ofNat? (n : Nat) : Option Limit :=
  if h : n ≤ most then some ⟨max 1 n, by omega, by unfold most at *; omega⟩ else none

theorem exists_ofNat? {n : Nat} (h : n ≤ most) : ∃ l, ofNat? n = some l := ⟨_, dif_pos h⟩

theorem slots_of_ofNat? {n : Nat} {l : Limit} (h : ofNat? n = some l) : l.slots = max 1 n := by
  unfold ofNat? at h
  split at h
  · cases h
    rfl
  · cases h

end Limit

end Rollout
