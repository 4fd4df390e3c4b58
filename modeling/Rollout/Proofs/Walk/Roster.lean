import Rollout.Proofs.Walk.Tidy
/-!
The roster of a walk: the stage of each visit, the lines in which visits stand, and what has happened.  It keeps what
the outline leaves out, who is held up where and with what still to do, and leaves out what the walk counts and records.
`Roster.Move` says what can happen to a roster at once, and `Roster.Play` what something from outside does to it.  A
turn of the machine is a chain of moves, so what every move keeps holds of every state of a walk.

A visit with some actions still to do comes to its end when none is left or when the first one fails, and a move that
ends a visit says which of the two it is (`Concludes`).  Moves say under which condition they are made, as far as a
roster shows it: the visit stands at the head of the run queue, the token is cancelled or not, a slot is free or not.
An invariant that needs more than that cannot be one of the roster.

When the token is cancelled, the visits in the line for that are woken: those that wait for the cancellation go on, and
those in line for a slot have a turn in which they go away (`woken`, `hasTurn`).
-/
namespace Rollout

/-! ## Actions and what is noted of them -/

/-- The action that an event notes, if it is an event in the visit of `name`. -/
def Event.noteOf? (name : String) : Event → Option Action
  | .token service _ => if service = name then some .token else none
  | .status service other _ => if service = name then some (.status other) else none
  | .log service text => if service = name then some (.log text) else none
  | _ => none

inductive Action.Fails (known : List String) : Action → Failure → Prop where
  | fail (cause : Failure) : Fails known (.fail cause) cause
  | setStatus {other : String} (status : Status) : other ∉ known →
      Fails known (.setStatus other status) (.serviceNotFound other)

/-- A visit with these actions still to do comes to its end now, with this error. -/
inductive Concludes (known : List String) : List Action → Option Failure → Prop where
  | well : Concludes known [] none
  | badly {action : Action} {rest : List Action} {cause : Failure} : action.Fails known cause →
      Concludes known (action :: rest) (some cause)

namespace Stage

/-- The stage after the token is cancelled. -/
def woken : Stage → Stage
  | awaitingCancel rest => running rest
  | stage => stage

/-- Whether a turn moves the visit on. -/
def hasTurn (cancelled : Bool) : Stage → Bool
  | dispatched => true
  | awaitingSlot => cancelled
  | granted => true
  | running _ => true
  | _ => false

end Stage

def join (line : List String) (name : String) : List String := if name ∈ line then line else line ++ [name]

theorem mem_join {line : List String} {name n : String} : n ∈ join line name ↔ n ∈ line ∨ n = name := by
  unfold join
  by_cases h : name ∈ line
  · rw [if_pos h]
    constructor
    · exact Or.inl
    · rintro (hn | rfl)
      · exact hn
      · exact h
  · rw [if_neg h, List.mem_append, List.mem_singleton]

theorem mem_foldl_join {n : String} : ∀ (names line : List String), n ∈ names.foldl join line ↔ n ∈ line ∨ n ∈ names
  | [], line => by simp
  | name :: names, line => by rw [List.foldl_cons, mem_foldl_join names, mem_join, List.mem_cons, or_assoc]

/-! ## The roster -/

@[ext] structure Roster where
  stage : String → Option Stage
  queue : List String
  free : Nat
  slotQueue : List String
  cancelQueue : List String
  releases : List String
  cancelled : Bool
  statuses : Table Status
  history : List Event

def State.roster (s : State) : Roster where
  stage := s.stages.get?
  queue := s.queue
  free := s.free
  slotQueue := s.slotQueue
  cancelQueue := s.cancelQueue
  releases := s.releases
  cancelled := s.tokenCancelled
  statuses := s.statuses
  history := s.history

theorem State.stage_initial {w : Walk} {statuses : Table Status} {callerCancelled : Bool} {n : String} {stage : Stage}
    (h : (State.initial w statuses callerCancelled).roster.stage n = some stage) : n ∈ w.scope ∧ stage = .idle := by
  have hget : (if n ∈ w.scope then some Stage.idle else none) = some stage :=
    (Table.get?_ofNames w.scope _ n).symm.trans h
  split at hget
  · rename_i hn
    exact ⟨hn, (Option.some.inj hget).symm⟩
  · cases hget

namespace Roster

variable {r : Roster} {name n : String} {old new : Stage}

def put (r : Roster) (name : String) (stage : Stage) : Roster :=
  { r with stage := fun n => if n = name then (r.stage n).map fun _ => stage else r.stage n }

theorem stage_put_self (h : r.stage name = some old) : (r.put name new).stage name = some new := by
  unfold put
  simp [h]

theorem stage_put_other (h : n ≠ name) : (r.put name new).stage n = r.stage n := if_neg h

theorem stage_put_cases {stage : Stage} (h : (r.put name new).stage n = some stage) :
    n = name ∧ stage = new ∨ n ≠ name ∧ r.stage n = some stage := by
  by_cases hn : n = name
  · subst hn
    refine Or.inl ⟨rfl, ?_⟩
    cases hold : r.stage n with
    | none => simp [put, hold] at h
    | some old => exact (Option.some.inj ((stage_put_self hold).symm.trans h)).symm
  · exact Or.inr ⟨hn, (stage_put_other hn).symm.trans h⟩

def note (r : Roster) (e : Event) : Roster := { r with history := e :: r.history }

def enqueue (r : Roster) (name : String) : Roster := { r with queue := join r.queue name }

def wake (r : Roster) (names : List String) : Roster :=
  { r with
    stage := fun n => if n ∈ names then (r.stage n).map Stage.woken else r.stage n
    queue := names.foldl join r.queue }

def cancel (r : Roster) : Roster := { r.wake r.cancelQueue with cancelQueue := [], cancelled := true }

def pass (r : Roster) : Roster :=
  match r.slotQueue with
  | [] => { r with free := r.free + 1 }
  | next :: rest =>
    if r.stage next = some .awaitingSlot then ({ r with slotQueue := rest }.put next .granted).enqueue next
    else { r with slotQueue := rest }

theorem stage_pass (hold : r.stage name = some old) (hline : old ≠ .awaitingSlot) : r.pass.stage name = some old := by
  unfold pass
  split
  · exact hold
  · split
    · rename_i next rest _ hnext
      have hne : name ≠ next := by
        rintro rfl
        exact hline (Option.some.inj (hold.symm.trans hnext))
      exact (stage_put_other hne).trans hold
    · exact hold

def begin (w : Walk) (r : Roster) (name : String) : Roster :=
  (r.put name (.running (w.visitor name))).note (.began name)

def turnAway (r : Roster) (name : String) : Roster :=
  (r.put name (.ended (some .cancelled))).note (.turnedAway name)

def close (w : Walk) (r : Roster) (name : String) (error : Option Failure) : Roster :=
  let ended := (r.put name (.ended error)).note (.ended name error)
  let passed := if w.limit.isSome then ended.pass else ended
  { passed with statuses := if error = none then w.marked name passed.statuses else passed.statuses }

/-! ## What can happen at once -/

inductive Move (w : Walk) (r : Roster) : Roster → Prop where
  | dispatch {name : String} : r.stage name = some .idle →
      Move w r (({ r with queue := r.queue ++ [name] }.put name .dispatched).note (.dispatched name))
  /-- A turn that moves nothing. -/
  | skip {name : String} {others : List String} : r.queue = name :: others →
      (∀ stage, r.stage name = some stage → stage.hasTurn r.cancelled = false) → Move w r { r with queue := others }
  | begin {name : String} : w.limit = none → r.stage name = some .dispatched → Move w r (r.begin w name)
  | take {name : String} {limit : Limit} : w.limit = some limit → r.stage name = some .dispatched →
      r.cancelled = false → 0 < r.free → Move w r ({ r with free := r.free - 1 }.begin w name)
  | lineUp {name : String} {others : List String} {limit : Limit} : w.limit = some limit → r.queue = name :: others →
      r.stage name = some .dispatched → r.cancelled = false → r.free = 0 →
      Move w r ({ r with
        queue := others
        slotQueue := r.slotQueue ++ [name]
        cancelQueue := r.cancelQueue ++ [name] }.put name .awaitingSlot)
  | takeUp {name : String} : r.stage name = some .granted → r.cancelled = false →
      Move w r ({ r with cancelQueue := r.cancelQueue.erase name }.begin w name)
  /-- A visit is turned away before it has asked for a slot. -/
  | turnAway {name : String} {others : List String} : r.queue = name :: others → r.stage name = some .dispatched →
      w.limit.isSome → r.cancelled = true → Move w r ({ r with queue := others }.turnAway name)
  /-- A visit in line for a slot is turned away. -/
  | leaveLine {name : String} {others : List String} : r.queue = name :: others →
      r.stage name = some .awaitingSlot → r.cancelled = true →
      Move w r ({ r with queue := others, slotQueue := r.slotQueue.erase name }.turnAway name)
  /-- A visit is turned away although a slot was handed to it. -/
  | decline {name : String} {others : List String} : r.queue = name :: others → r.stage name = some .granted →
      r.cancelled = true → Move w r (({ r with queue := others }.pass).turnAway name)
  /-- An action that leaves nothing in the roster, or waits for a cancellation that is there. -/
  | goOn {name : String} {action : Action} {rest : List Action} : r.stage name = some (.running (action :: rest)) →
      action = .cancel ∨ action = .waitCancel ∧ r.cancelled = true → Move w r (r.put name (.running rest))
  | note {name : String} {action : Action} {rest : List Action} {e : Event} :
      r.stage name = some (.running (action :: rest)) → e.noteOf? name = some action →
      Move w r ((r.put name (.running rest)).note e)
  | write {name other : String} {status : Status} {rest : List Action} :
      r.stage name = some (.running (.setStatus other status :: rest)) → other ∈ r.statuses.keys →
      Move w r ({ r with statuses := r.statuses.modify other fun _ => status }.put name (.running rest))
  | use {name : String} {rest : List Action} : r.stage name = some (.running (.wait :: rest)) → name ∈ r.releases →
      Move w r ({ r with releases := r.releases.erase name }.put name (.running rest))
  | awaitRelease {name : String} {others : List String} {rest : List Action} : r.queue = name :: others →
      r.stage name = some (.running (.wait :: rest)) → name ∉ r.releases →
      Move w r ({ r with queue := others }.put name (.awaitingRelease rest))
  | awaitCancel {name : String} {others : List String} {rest : List Action} : r.queue = name :: others →
      r.stage name = some (.running (.waitCancel :: rest)) → r.cancelled = false →
      Move w r ({ r with queue := others, cancelQueue := r.cancelQueue ++ [name] }.put name (.awaitingCancel rest))
  | close {name : String} {others : List String} {rest : List Action} {error : Option Failure} :
      r.queue = name :: others → r.stage name = some (.running rest) → Concludes r.statuses.keys rest error →
      Move w r ({ r with queue := others }.close w name error)
  /-- The caller cancels. -/
  | cancel : Move w r (r.note .cancelled).cancel
  /-- The token is cancelled because of an error. -/
  | trip : Move w r r.cancel

/-- What something from outside does. -/
inductive Play (r : Roster) : Outside → Roster → Prop where
  | release {name : String} {rest : List Action} : r.stage name = some (.awaitingRelease rest) →
      Play r (.release name) ((r.put name (.running rest)).enqueue name)
  | keep {name : String} : (∀ rest, r.stage name ≠ some (.awaitingRelease rest)) →
      Play r (.release name) { r with releases := r.releases ++ [name] }
  | cancel : Play r .cancel (r.note .cancelled).cancel
  /-- The caller has cancelled before. -/
  | again : Play r .cancel r
  | write {other : String} {status : Status} :
      Play r (.setStatus other status) { r with statuses := r.statuses.modify other fun _ => status }

end Roster

end Rollout
