import Rollout.Proofs.Walk.Slots
/-!
The desk at which a limited walk hands out its slots: how each visit stands to them, those that lie at the desk, and the
line in front of it.  A new round, a wake-up, an action or something from outside changes nothing there.  So a turn is
one piece of business at most (`turn_desk`): a visit takes a slot, gets in line, goes away without one, or gives its
slot back.

The desk is a view of the state, and of each visit only its standing is seen: it has not asked yet, it is in line, it
has a slot, or it is done.  A visit goes through its standings in this order and may leave some out.  A slot that comes
back goes to the first in line or stays at the desk, in the turn in which it comes back (`pass`).

The end of a visit is the longest part of a turn, but what it means for the others does not concern the desk
(`desk_conclude`).  A visit that declines the slot it was handed, because its token is cancelled, gives it back before
it ends, which comes to the same as giving it back afterwards (`desk_passSlot_put`).  What the desk is like between
turns is `Orderly`: only visits of the walk come to it, those in line know that they are, and none of them waits while a
slot is free.
-/
namespace Rollout

/-- How a visit stands to the slots. -/
inductive Standing where
  /-- It has not asked for a slot. -/
  | before
  | inLine
  | holding
  /-- It has ended. -/
  | gone
deriving DecidableEq

namespace Standing

@[simp] def asks : Standing → Bool
  | inLine => true
  | holding => true
  | _ => false

@[simp] def holds : Standing → Bool
  | holding => true
  | _ => false

def rank : Standing → Nat
  | before => 0
  | inLine => 1
  | holding => 2
  | gone => 3

end Standing

namespace Stage

def standing : Stage → Standing
  | idle => .before
  | dispatched => .before
  | awaitingSlot => .inLine
  | ended _ => .gone
  | _ => .holding

theorem standing_woken (stage : Stage) : stage.woken.standing = stage.standing := by
  cases stage <;> rfl

end Stage

@[ext] structure Desk where
  standing : String → Option Standing
  free : Nat
  line : List String

namespace Desk

variable {d : Desk} {name n : String} {old new : Standing}

def put (d : Desk) (name : String) (standing : Standing) : Desk :=
  { d with standing := fun n => if n = name then (d.standing n).map fun _ => standing else d.standing n }

theorem standing_put_self (h : d.standing name = some old) : (d.put name new).standing name = some new := by
  unfold put
  simp [h]

theorem standing_put_other (h : n ≠ name) : (d.put name new).standing n = d.standing n := if_neg h

theorem put_self (h : d.standing name = some old) : d.put name old = d := by
  refine Desk.ext ?_ rfl rfl
  funext n
  by_cases hn : n = name
  · subst hn
    rw [standing_put_self h, h]
  · exact standing_put_other hn

def pass (d : Desk) : Desk :=
  match d.line with
  | [] => { d with free := d.free + 1 }
  | next :: rest =>
    if d.standing next = some .inLine then { d with line := rest }.put next .holding else { d with line := rest }

theorem pass_of_nil (h : d.line = []) : d.pass = { d with free := d.free + 1 } := by
  unfold pass
  rw [h]

theorem pass_of_cons {next : String} {rest : List String} (h : d.line = next :: rest)
    (hnext : d.standing next = some .inLine) : d.pass = { d with line := rest }.put next .holding := by
  unfold pass
  rw [h]
  exact if_pos hnext

theorem line_pass (d : Desk) : d.pass.line = d.line.tail := by
  unfold pass
  cases d.line with
  | nil => rfl
  | cons next rest =>
    dsimp only
    split
    · rfl
    · rfl

theorem free_pass (d : Desk) : d.pass.free + d.line.head?.toList.length = d.free + 1 := by
  unfold pass
  cases d.line with
  | nil => rfl
  | cons next rest =>
    dsimp only
    split
    · rfl
    · rfl

/-- What the desk of a walk is like: only visits of the walk come to it, those in line know that they are, and none of
them waits while a slot is free. -/
structure Orderly (w : Walk) (d : Desk) : Prop where
  covered : ∀ n standing, d.standing n = some standing → n ∈ w.scope
  lined : ∀ n ∈ d.line, d.standing n = some .inLine
  spent : d.line ≠ [] → d.free = 0

/-- What one turn can do at the desk. -/
inductive Turn (cancelled : Bool) (d : Desk) : Desk → Prop where
  | still : Turn cancelled d d
  | take {name : String} : d.standing name = some .before → 0 < d.free →
      Turn cancelled d ({ d with free := d.free - 1 }.put name .holding)
  | lineUp {name : String} : d.standing name = some .before → d.free = 0 →
      Turn cancelled d ({ d with line := d.line ++ [name] }.put name .inLine)
  /-- A visit ends before it has asked for a slot. -/
  | turnAway {name : String} : d.standing name = some .before → cancelled = true →
      Turn cancelled d (d.put name .gone)
  | leave {name : String} : d.standing name = some .inLine → cancelled = true →
      Turn cancelled d ({ d with line := d.line.erase name }.put name .gone)
  | giveBack {name : String} : d.standing name = some .holding → Turn cancelled d (d.put name .gone).pass

end Desk

/-! ## The desk of a roster -/

namespace Roster

variable {r : Roster} {name : String} {old new : Stage}

def desk (r : Roster) : Desk := ⟨fun n => (r.stage n).map Stage.standing, r.free, r.slotQueue⟩

theorem standing_desk (h : r.stage name = some old) : r.desk.standing name = some old.standing :=
  congrArg (Option.map Stage.standing) h

theorem desk_put (r : Roster) (name : String) (stage : Stage) :
    (r.put name stage).desk = r.desk.put name stage.standing := by
  refine Desk.ext ?_ rfl rfl
  funext n
  unfold desk put Desk.put
  dsimp only
  split
  · rw [Option.map_map, Option.map_map]
    rfl
  · rfl

theorem desk_put_of_standing (h : r.stage name = some old) (hsame : new.standing = old.standing) :
    (r.put name new).desk = r.desk := by
  rw [desk_put, hsame]
  exact Desk.put_self (standing_desk h)

theorem desk_cancel (r : Roster) : r.cancel.desk = r.desk := by
  refine Desk.ext ?_ rfl rfl
  funext n
  show (if n ∈ r.cancelQueue then (r.stage n).map Stage.woken else r.stage n).map Stage.standing = _
  split
  · rw [Option.map_map]
    exact congrArg (fun f => (r.stage n).map f) (funext Stage.standing_woken)
  · rfl

theorem desk_pass (r : Roster) : r.pass.desk = r.desk.pass := by
  unfold pass Desk.pass
  rw [show r.desk.line = r.slotQueue from rfl]
  cases r.slotQueue with
  | nil => rfl
  | cons next rest =>
    have hnext : r.stage next = some .awaitingSlot ↔ r.desk.standing next = some .inLine := by
      show _ ↔ (r.stage next).map Stage.standing = some .inLine
      cases r.stage next with
      | none => simp
      | some stage => cases stage <;> simp [Stage.standing]
    dsimp only
    by_cases h : r.stage next = some .awaitingSlot
    · rw [if_pos h, if_pos (hnext.1 h)]
      exact desk_put { r with slotQueue := rest } next .granted
    · rw [if_neg h, if_neg fun hline => h (hnext.2 hline)]
      rfl

end Roster

/-! ## Turns -/

namespace State

variable {w : Walk} {s : State} {name : String} {stage : Stage}

def desk (s : State) : Desk := s.roster.desk

theorem standing_desk (h : s.stages.get? name = some stage) : s.desk.standing name = some stage.standing :=
  Roster.standing_desk h

theorem desk_setStage (s : State) (name : String) (stage : Stage) :
    (s.setStage name stage).desk = s.desk.put name stage.standing := by
  unfold desk
  rw [roster_setStage, Roster.desk_put]

theorem desk_goOn (h : s.stages.get? name = some stage) {new : Stage} (hsame : new.standing = stage.standing) :
    (s.setStage name new).desk = s.desk := by
  unfold desk
  rw [roster_setStage]
  exact Roster.desk_put_of_standing h hsame

theorem desk_dispatch (name : String) : (s.dispatch name).desk = s.desk := by
  unfold dispatch
  split
  · rename_i h
    exact desk_goOn (s := { s with queue := s.queue ++ [name] }) h rfl
  · rfl

theorem desk_foldl_dispatch : ∀ (names : List String) (s : State), (names.foldl dispatch s).desk = s.desk
  | [], _ => rfl
  | name :: names, s => by rw [List.foldl_cons, desk_foldl_dispatch names, desk_dispatch]

theorem desk_noteCancellation : s.noteCancellation.desk = s.desk := congrArg Roster.desk roster_noteCancellation

theorem desk_openRound : s.openRound.desk = s.desk := by
  have hnoted : ({ s.noteCancellation with ready := [] } : State).desk = s.desk := desk_noteCancellation
  unfold openRound
  dsimp only
  split
  · rw [desk_foldl_dispatch, hnoted]
  · exact hnoted

theorem desk_mark {t : State} (h : s.mark w name = .ok t) : t.desk = s.desk := by
  unfold mark at h
  split at h
  · cases h
    rfl
  · split at h
    · cases h
      rfl
    · cases h

theorem desk_conclude (error : Option Failure) : (s.conclude w name error).desk = s.desk := by
  unfold conclude
  cases error with
  | some cause =>
    dsimp only
    rw [desk_openRound]
    unfold desk
    rw [roster_record, roster_trip, Roster.desk_cancel]
  | none =>
    dsimp only
    split
    · rfl
    · rename_i t ht
      rw [desk_openRound, ← desk_mark ht]
      split
      · exact congrArg Roster.desk (roster_foldl_countOff _ t)
      · rfl

theorem desk_finish (hlimit : w.limit.isSome) (error : Option Failure) :
    (s.finish w name error).desk = (s.desk.put name .gone).pass := by
  unfold finish
  dsimp only
  rw [desk_conclude, if_pos hlimit, ← show Stage.standing (.ended error) = .gone from rfl, ← desk_setStage]
  unfold desk
  rw [roster_passSlot, Roster.desk_pass]
  rfl

theorem desk_turnAway (name : String) : (s.turnAway w name).desk = s.desk.put name .gone := by
  unfold turnAway
  rw [desk_conclude]
  exact desk_setStage s name _

theorem desk_passSlot_put (h : s.stages.get? name = some .granted) :
    s.passSlot.desk.put name .gone = (s.desk.put name .gone).pass := by
  calc s.passSlot.desk.put name .gone
      = (s.roster.pass.put name (.ended (some .cancelled))).desk := by
        rw [Roster.desk_put, ← roster_passSlot]
        rfl
    _ = ((s.roster.put name (.ended (some .cancelled))).pass).desk :=
        congrArg Roster.desk (Roster.put_pass h (by simp) (by simp))
    _ = (s.desk.put name .gone).pass := by
        rw [Roster.desk_pass, Roster.desk_put]
        rfl

theorem Reached.orderly {limit : Limit} {statuses : Table Status} {callerCancelled : Bool} {acts : List Outside}
    (hw : w.Sound) (hst : ∀ n ∈ w.scope, n ∈ statuses.keys) (hlimit : w.limit = some limit)
    (h : Reached w statuses callerCancelled acts s) : s.desk.Orderly w := by
  have hplaced := h.placed hw hst
  refine ⟨fun n standing hn => ?_, fun n hn => standing_desk (hplaced.lined n hn), (h.shared hw hst hlimit).spent⟩
  obtain ⟨stage, hstage, -⟩ := Option.map_eq_some_iff.1 hn
  exact hplaced.covered n stage hstage

theorem turn_enter {others : List String} (hlimit : w.limit.isSome) (h : s.stages.get? name = some .dispatched) :
    s.desk.Turn s.tokenCancelled (s.enter w name others).desk := by
  have hbefore : s.desk.standing name = some .before := standing_desk h
  unfold enter
  split
  · rename_i hnone
    rw [hnone] at hlimit
    cases hlimit
  · by_cases hc : s.tokenCancelled = true
    · rw [if_pos hc, desk_turnAway]
      exact .turnAway hbefore hc
    · rw [if_neg hc]
      by_cases hfree : 0 < s.free
      · rw [if_pos hfree]
        show s.desk.Turn _ (({ s with free := s.free - 1 } : State).setStage name _).desk
        rw [desk_setStage]
        exact .take hbefore hfree
      · rw [if_neg hfree, desk_setStage]
        exact .lineUp hbefore (Nat.eq_zero_of_not_pos hfree)

theorem desk_cancelCaller : s.cancelCaller.desk = s.desk := by
  cases hc : s.callerCancelled with
  | true =>
    unfold cancelCaller
    rw [if_pos hc]
  | false =>
    unfold desk
    rw [roster_cancelCaller hc, Roster.desk_cancel]
    rfl

theorem turn_perform {others : List String} {rest : List Action} {action : Action} (hlimit : w.limit.isSome)
    (h : s.stages.get? name = some (.running (action :: rest))) :
    s.desk.Turn s.tokenCancelled (s.perform w name others rest action).desk := by
  have hgo : ∀ {t : State} {new : Stage}, t.stages = s.stages → t.free = s.free → t.slotQueue = s.slotQueue →
      new.standing = .holding → s.desk.Turn s.tokenCancelled (t.setStage name new).desk := by
    intro t new hstages hfree hslot hnew
    have hsame : t.desk = s.desk := by
      unfold desk Roster.desk roster
      rw [hstages, hfree, hslot]
    rw [desk_goOn (hstages ▸ h) hnew, hsame]
    exact .still
  have hclose : ∀ cause, s.desk.Turn s.tokenCancelled
      (({ s with queue := others } : State).finish w name (some cause)).desk := by
    intro cause
    rw [desk_finish hlimit]
    exact .giveBack (standing_desk h)
  cases action with
  | wait =>
    simp only [perform]
    split
    · exact hgo rfl rfl rfl rfl
    · exact hgo rfl rfl rfl rfl
  | waitCancel =>
    simp only [perform]
    split
    · exact hgo rfl rfl rfl rfl
    · exact hgo rfl rfl rfl rfl
  | cancel =>
    simp only [perform]
    rw [desk_cancelCaller]
    exact hgo rfl rfl rfl rfl
  | token => exact hgo rfl rfl rfl rfl
  | status other => exact hgo rfl rfl rfl rfl
  | setStatus other status =>
    simp only [perform]
    split
    · exact hgo rfl rfl rfl rfl
    · exact hclose _
  | log text => exact hgo rfl rfl rfl rfl
  | fail cause => exact hclose cause

/-- **A turn is one piece of business at the desk at most.** -/
theorem turn_desk (hlimit : w.limit.isSome) (s : State) : s.desk.Turn s.tokenCancelled (s.step w).desk := by
  unfold step
  split
  · exact .still
  · rename_i name others _
    split
    · rename_i h
      exact turn_enter hlimit h
    · rename_i h
      split
      · rename_i hc
        rw [desk_turnAway]
        exact .leave (standing_desk h) hc
      · exact .still
    · rename_i h
      split
      · rw [desk_turnAway, desk_passSlot_put (s := { s with queue := others }) h]
        exact .giveBack (standing_desk h)
      · have hbegun : (({ s with cancelQueue := s.cancelQueue.erase name } : State).begin w name).desk = s.desk :=
          desk_goOn (s := { s with cancelQueue := s.cancelQueue.erase name }) h rfl
        rw [hbegun]
        exact .still
    · rename_i h
      rw [desk_finish hlimit]
      exact .giveBack (standing_desk h)
    · rename_i action rest h
      exact turn_perform hlimit h
    · exact .still

theorem desk_play (act : Outside) : (s.play act).desk = s.desk := by
  cases act with
  | release service =>
    unfold play
    dsimp only
    split
    · rename_i rest h
      unfold desk
      rw [roster_enqueue]
      exact desk_goOn h rfl
    · rfl
  | cancel => exact desk_cancelCaller
  | setStatus service status => rfl

end State

end Rollout
