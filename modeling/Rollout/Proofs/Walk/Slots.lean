import Rollout.Proofs.Walk.Balance
import Rollout.Proofs.Walk.Places
/-!
The slots of a limited walk.  The slots that visits hold and those that are free are as many as there are, and none is
free while a visit is in line for one (`Shared`).  A slot given back goes to nobody or to the first in line, and either
way one more is accounted for (`Shared.pass`); so the end of a visit that holds a slot leaves the sum as it is.

A visit holds a slot from the turn in which it takes one or is handed one, whether it has taken it up or not, until it
gives it back (`Stage.holdsSlot`).  Moves that let a visit hold a slot or give it back are few, and all others leave
both sides of the sum alone.  A visit that gives its slot back and one that is handed it change in the same move, in
that order: the slot is taken from the one and then given to the other (`Shared.handOver`).
-/
namespace Rollout

/-- Whether the visit has been given a slot and has not given it back. -/
def Stage.holdsSlot : Stage → Bool
  | granted => true
  | running _ => true
  | awaitingRelease _ => true
  | awaitingCancel _ => true
  | _ => false

theorem Stage.holdsSlot_woken (stage : Stage) : stage.woken.holdsSlot = stage.holdsSlot := by
  cases stage <;> rfl

namespace Roster

variable {w : Walk} {r r' : Roster} {name : String} {old new : Stage} {slots : Nat}

def held (w : Walk) (r : Roster) : Nat := w.scope.countP fun n => (r.stage n).any Stage.holdsSlot

theorem held_put (hw : w.Sound) (hname : name ∈ w.scope) (hold : r.stage name = some old) (new : Stage) :
    (r.put name new).held w + (if old.holdsSlot then 1 else 0) = r.held w + if new.holdsSlot then 1 else 0 := by
  have hself : ((r.put name new).stage name).any Stage.holdsSlot = new.holdsSlot := by
    rw [stage_put_self hold]
    rfl
  have hbefore : (r.stage name).any Stage.holdsSlot = old.holdsSlot := by
    rw [hold]
    rfl
  have hothers : ∀ n, n ≠ name →
      ((r.put name new).stage n).any Stage.holdsSlot = (r.stage n).any Stage.holdsSlot := by
    intro n hn
    rw [stage_put_other hn]
  have hsame : old.holdsSlot = new.holdsSlot → (r.put name new).held w = r.held w := by
    intro heq
    refine List.countP_congr fun n _ => ?_
    by_cases hn : n = name
    · subst hn
      rw [hself, hbefore, heq]
    · rw [hothers n hn]
  -- the count without this visit is the same, so its own slot is the difference
  have hless : ∀ p q : String → Bool, p name = true → q name = false → (∀ n, n ≠ name → q n = p n) →
      w.scope.countP q + 1 = w.scope.countP p := by
    intro p q hp hq hpq
    have hwithout := countP_without hp hq hpq w.scope hw.nodup
    rwa [if_pos hname] at hwithout
  unfold held at hsame ⊢
  cases ho : old.holdsSlot with
  | true =>
    cases hn : new.holdsSlot with
    | true => simp [hsame (ho.trans hn.symm)]
    | false =>
      have hgone := hless _ _ (hbefore.trans ho) (hself.trans hn) hothers
      simpa using hgone
  | false =>
    cases hn : new.holdsSlot with
    | true =>
      have hadded := hless _ _ (hself.trans hn) (hbefore.trans ho) fun n hne => (hothers n hne).symm
      simpa using hadded.symm
    | false => simp [hsame (ho.trans hn.symm)]

/-! ## What adds up -/

/-- So many slots are accounted for, and none is free while a visit is in line. -/
structure Shared (w : Walk) (slots : Nat) (r : Roster) : Prop where
  total : r.free + r.held w = slots
  spent : r.slotQueue ≠ [] → r.free = 0

theorem Shared.note (h : r.Shared w slots) (e : Event) : (r.note e).Shared w slots := ⟨h.total, h.spent⟩

theorem Shared.of_same (h : r.Shared w slots) (hfree : r'.free = r.free) (hstage : r'.stage = r.stage)
    (hslot : r'.slotQueue ≠ [] → r.slotQueue ≠ []) : r'.Shared w slots := by
  refine ⟨?_, fun hline => hfree.trans (h.spent (hslot hline))⟩
  unfold held
  rw [hfree, hstage]
  exact h.total

theorem Shared.put (h : r.Shared w slots) (hw : w.Sound) (hname : name ∈ w.scope) (hold : r.stage name = some old)
    (hsame : old.holdsSlot = new.holdsSlot) : (r.put name new).Shared w slots := by
  refine ⟨?_, h.spent⟩
  have hheld := held_put hw hname hold new
  have htotal : r.free + r.held w = slots := h.total
  rw [hsame, Nat.add_right_cancel_iff] at hheld
  show r.free + (r.put name new).held w = slots
  rw [hheld, htotal]

theorem Shared.release (h : r.Shared w (slots + 1)) (hw : w.Sound) (hname : name ∈ w.scope)
    (hold : r.stage name = some old) (hholds : old.holdsSlot = true) (hends : new.holdsSlot = false) :
    (r.put name new).Shared w slots := by
  refine ⟨?_, h.spent⟩
  have hheld := held_put hw hname hold new
  rw [hholds, hends] at hheld
  have htotal := h.total
  show r.free + (r.put name new).held w = slots
  simp only [if_true, Bool.false_eq_true, if_false] at hheld
  omega

/-- **A slot given back is accounted for**, whether it goes to nobody or to the first in line. -/
theorem Shared.pass (h : r.Shared w slots) (hw : w.Sound) (hplaced : r.Placed w) : r.pass.Shared w (slots + 1) := by
  have htotal := h.total
  unfold Roster.pass
  split
  · rename_i hline
    refine ⟨?_, fun hne => absurd hline hne⟩
    show r.free + 1 + r.held w = slots + 1
    omega
  · rename_i next rest hline
    have hnext : r.stage next = some .awaitingSlot := hplaced.lined next (hline ▸ List.mem_cons_self)
    have hheld := held_put hw (hplaced.covered next _ hnext) hnext .granted
    have hfree : r.free = 0 := h.spent (by rw [hline]; exact List.cons_ne_nil _ _)
    rw [if_pos hnext]
    refine ⟨?_, fun _ => hfree⟩
    show r.free + (r.put next .granted).held w = slots + 1
    simp only [Stage.holdsSlot, if_true, Bool.false_eq_true, if_false] at hheld
    omega

theorem pass_note (e : Event) : (r.note e).pass = r.pass.note e := by
  unfold Roster.pass
  rw [show (r.note e).slotQueue = r.slotQueue from rfl, show (r.note e).stage = r.stage from rfl]
  split
  · rfl
  · split
    · rfl
    · rfl

theorem Shared.cancel (h : r.Shared w slots) : r.cancel.Shared w slots := by
  refine ⟨?_, h.spent⟩
  have hheld : r.cancel.held w = r.held w := by
    refine List.countP_congr fun n _ => ?_
    show (if n ∈ r.cancelQueue then (r.stage n).map Stage.woken else r.stage n).any Stage.holdsSlot = true ↔ _
    split
    · cases r.stage n with
      | none => exact Iff.rfl
      | some stage => exact iff_of_eq (congrArg (· = true) stage.holdsSlot_woken)
    · exact Iff.rfl
  rw [hheld]
  exact h.total

theorem Shared.handOver (h : r.Shared w slots) (hw : w.Sound) (hname : name ∈ w.scope) (hold : r.stage name = some old)
    (hholds : old.holdsSlot = true) (hends : new.holdsSlot = false) (hput : (r.put name new).Placed w) :
    (r.put name new).pass.Shared w slots := by
  have hpos : 0 < slots := by
    have hheld := held_put hw hname hold new
    have htotal := h.total
    rw [hholds, hends] at hheld
    simp only [if_true, Bool.false_eq_true, if_false] at hheld
    omega
  obtain ⟨rest, rfl⟩ : ∃ rest, slots = rest + 1 := ⟨slots - 1, by omega⟩
  exact (h.release hw hname hold hholds hends).pass hw hput

/-! ## Every move -/

/-- **Every move of a limited walk keeps the slots together.** -/
theorem Shared.move (h : r.Shared w slots) (hw : w.Sound) (hplaced : r.Placed w) (hlimit : w.limit.isSome)
    (hmove : r.Move w r') : r'.Shared w slots := by
  have hmem : ∀ name stage, r.stage name = some stage → name ∈ w.scope := hplaced.covered
  -- the lines change, and one visit moves on that keeps its slot
  have advance : ∀ {r₁ : Roster} {name : String} {old new : Stage}, r.stage name = some old → r₁.free = r.free →
      r₁.stage = r.stage → (r₁.slotQueue ≠ [] → r.slotQueue ≠ []) → old.holdsSlot = new.holdsSlot →
      (r₁.put name new).Shared w slots := by
    intro r₁ name old new hold hfree hstage hslot hsame
    have hlines : r₁.Shared w slots := h.of_same hfree hstage hslot
    exact hlines.put hw (hmem name old hold) (hstage ▸ hold) hsame
  cases hmove with
  | @dispatch name hold =>
    have hput : (Roster.put { r with queue := r.queue ++ [name] } name .dispatched).Shared w slots :=
      advance hold rfl rfl id rfl
    exact hput.note _
  | skip _ _ => exact h.of_same rfl rfl id
  | begin hnone _ =>
    rw [hnone] at hlimit
    cases hlimit
  | @take name _ _ hold _ hfree =>
    have hheld := held_put hw (hmem name _ hold) hold (.running (w.visitor name))
    have htotal := h.total
    refine ⟨?_, fun hline => ?_⟩
    · show r.free - 1 + (r.put name (.running (w.visitor name))).held w = slots
      simp only [Stage.holdsSlot, if_true, Bool.false_eq_true, if_false] at hheld
      omega
    · have hspent := h.spent hline
      omega
  | @lineUp name others limit _ _ hold _ hfree =>
    have hheld := held_put hw (hmem name _ hold) hold .awaitingSlot
    have htotal := h.total
    refine ⟨?_, fun _ => hfree⟩
    show r.free + (r.put name .awaitingSlot).held w = slots
    simp only [Stage.holdsSlot, Bool.false_eq_true, if_false] at hheld
    omega
  | @takeUp name hold _ =>
    have hput : (Roster.put { r with cancelQueue := r.cancelQueue.erase name } name
        (.running (w.visitor name))).Shared w slots := advance hold rfl rfl id rfl
    exact hput.note _
  | @turnAway name others _ hold _ _ =>
    have hput : (Roster.put { r with queue := others } name (.ended (some .cancelled))).Shared w slots :=
      advance hold rfl rfl id rfl
    exact hput.note _
  | @leaveLine name others _ hold _ =>
    have hline : r.slotQueue.erase name ≠ [] → r.slotQueue ≠ [] := by
      intro hne hnil
      rw [hnil] at hne
      exact hne rfl
    have hput : (Roster.put { r with queue := others, slotQueue := r.slotQueue.erase name } name
        (.ended (some .cancelled))).Shared w slots := advance hold rfl rfl hline rfl
    exact hput.note _
  | @decline name others hq hold _ =>
    have hgone : Shared w slots { r with queue := others } := h.of_same rfl rfl id
    unfold Roster.turnAway
    rw [put_pass (r := { r with queue := others }) hold (by simp) (by simp)]
    exact (hgone.handOver hw (hmem name _ hold) hold rfl rfl (hplaced.ended hq hold (by simp) _)).note _
  | @goOn name action rest hold _ => exact advance hold rfl rfl id rfl
  | @note name action rest e hold _ =>
    have hput : (r.put name (.running rest)).Shared w slots := advance hold rfl rfl id rfl
    exact hput.note _
  | @write name other status rest hold _ => exact advance hold rfl rfl id rfl
  | @use name rest hold _ => exact advance hold rfl rfl id rfl
  | @awaitRelease name others rest _ hold _ => exact advance hold rfl rfl id rfl
  | @awaitCancel name others rest _ hold _ => exact advance hold rfl rfl id rfl
  | @close name others rest error hq hold _ =>
    have hgone : Shared w slots { r with queue := others } := h.of_same rfl rfl id
    have hover : (Roster.put { r with queue := others } name (.ended error)).pass.Shared w slots :=
      hgone.handOver hw (hmem name _ hold) hold rfl rfl (hplaced.ended hq hold (by simp) error)
    unfold Roster.close
    dsimp only
    rw [if_pos hlimit, pass_note]
    exact ⟨hover.total, hover.spent⟩
  | cancel => exact (h.note _).cancel
  | trip => exact h.cancel

theorem Shared.play (h : r.Shared w slots) (hw : w.Sound) (hplaced : r.Placed w) {act : Outside}
    (hplay : r.Play act r') : r'.Shared w slots := by
  cases hplay with
  | @release name rest hold =>
    have hput : (r.put name (.running rest)).Shared w slots := h.put hw (hplaced.covered name _ hold) hold rfl
    exact hput.of_same rfl rfl id
  | keep _ => exact h.of_same rfl rfl id
  | cancel => exact (h.note _).cancel
  | again => exact h
  | write => exact h.of_same rfl rfl id

end Roster

theorem State.shared_initial {w : Walk} {limit : Limit} (hlimit : w.limit = some limit) (statuses : Table Status)
    (callerCancelled : Bool) : (State.initial w statuses callerCancelled).roster.Shared w limit.slots := by
  refine ⟨?_, fun hline => absurd rfl hline⟩
  have hfree : (State.initial w statuses callerCancelled).roster.free = limit.slots := by
    show (w.limit.map Limit.slots).getD 0 = limit.slots
    rw [hlimit]
    rfl
  have hheld : (State.initial w statuses callerCancelled).roster.held w = 0 := by
    refine List.countP_eq_zero.2 fun n _ hholds => ?_
    obtain ⟨stage, hstage, hslot⟩ := (Option.any_eq_true _ _).1 hholds
    rw [(State.stage_initial hstage).2] at hslot
    cases hslot
  rw [hfree, hheld, Nat.add_zero]

/-- **In every state of a limited walk, the slots held and the free ones are as many as there are**, and none is free
while a visit is in line for one. -/
theorem State.Reached.shared {w : Walk} {limit : Limit} {statuses : Table Status} {callerCancelled : Bool}
    {acts : List Outside} {s : State} (hw : w.Sound) (hst : ∀ n ∈ w.scope, n ∈ statuses.keys)
    (hlimit : w.limit = some limit) (h : State.Reached w statuses callerCancelled acts s) :
    s.roster.Shared w limit.slots := by
  have hsome : w.limit.isSome := by
    rw [hlimit]
    rfl
  have hboth : s.roster.Placed w ∧ s.roster.Shared w limit.slots := by
    refine State.Reached.roster_induction (P := fun _ r => r.Placed w ∧ r.Shared w limit.slots) hw hst ?_ ?_ ?_ h
    · exact ⟨State.placed_initial statuses callerCancelled, State.shared_initial hlimit statuses callerCancelled⟩
    · rintro _ _ _ ⟨hplaced, hshared⟩ hmove
      exact ⟨hplaced.move hmove, hshared.move hw hplaced hsome hmove⟩
    · rintro _ _ _ _ ⟨hplaced, hshared⟩ hplay
      exact ⟨hplaced.play hplay, hshared.play hw hplaced hplay⟩
  exact hboth.2

end Rollout
