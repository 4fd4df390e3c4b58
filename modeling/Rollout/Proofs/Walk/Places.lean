import Rollout.Proofs.Walk.Moves
/-!
Where visits stand.  A visit that its turn would move on stands in the run queue; one that is held up stands in the
lines that can wake it, and what it waits for is not there (`Fits`).  Every move keeps this (`Placed.move`).  So nobody
sleeps through what it waits for: once the run queue is empty, each visit in flight is held up for a reason that holds.

Each stage has its lines.  A visit that is dispatched, granted a slot or running stands in the run queue.  One in line
for a slot stands in that line and in the one for a cancellation, and in the run queue as well if the token is
cancelled, since it has been woken to be turned away.  One that waits for a cancellation stands in the line for it as
long as there is none, and one that waits for a release has none that is not used up.

A move changes the lines and then moves one visit on, so it is enough that the lines still have what the other visits
stand on (`Keeps`) and that the visit that moves fits into them at its new stage (`Placed.put`).  A wake-up and a slot
that is passed on are the moves that change the place of another visit.
-/
namespace Rollout

namespace Roster

variable {w : Walk} {r r' : Roster} {name : String} {old new : Stage}

/-- What the stage of a visit says about the lines. -/
def Fits (w : Walk) (r : Roster) (name : String) : Stage → Prop
  | .idle => True
  | .dispatched => name ∈ r.queue
  | .awaitingSlot => w.limit.isSome ∧ name ∈ r.slotQueue ∧ if r.cancelled then name ∈ r.queue else name ∈ r.cancelQueue
  | .granted => w.limit.isSome ∧ name ∈ r.queue
  | .running _ => name ∈ r.queue
  | .awaitingRelease _ => name ∉ r.releases
  | .awaitingCancel _ => r.cancelled = false ∧ name ∈ r.cancelQueue
  | .ended _ => True

structure Placed (w : Walk) (r : Roster) : Prop where
  covered : ∀ n stage, r.stage n = some stage → n ∈ w.scope
  fits : ∀ n stage, r.stage n = some stage → r.Fits w n stage
  lined : ∀ n ∈ r.slotQueue, r.stage n = some .awaitingSlot
  nodup : r.slotQueue.Nodup

/-- Nothing that a visit stands on is taken from it. -/
structure Keeps (r r' : Roster) (name : String) : Prop where
  queue : name ∈ r.queue → name ∈ r'.queue
  slotQueue : name ∈ r.slotQueue → name ∈ r'.slotQueue
  cancelQueue : name ∈ r.cancelQueue → name ∈ r'.cancelQueue
  releases : name ∈ r'.releases → name ∈ r.releases
  cancelled : r'.cancelled = r.cancelled

theorem Fits.keeps {stage : Stage} (h : r.Fits w name stage) (hkeeps : r.Keeps r' name) : r'.Fits w name stage := by
  cases stage with
  | idle => trivial
  | dispatched => exact hkeeps.queue h
  | awaitingSlot =>
    obtain ⟨hlimit, hslot, hwaits⟩ := h
    refine ⟨hlimit, hkeeps.slotQueue hslot, ?_⟩
    rw [hkeeps.cancelled]
    by_cases hc : r.cancelled = true
    · rw [if_pos hc] at hwaits ⊢
      exact hkeeps.queue hwaits
    · rw [if_neg hc] at hwaits ⊢
      exact hkeeps.cancelQueue hwaits
  | granted => exact ⟨h.1, hkeeps.queue h.2⟩
  | running rest => exact hkeeps.queue h
  | awaitingRelease rest => exact fun hr => h (hkeeps.releases hr)
  | awaitingCancel rest => exact ⟨hkeeps.cancelled.trans h.1, hkeeps.cancelQueue h.2⟩
  | ended error => trivial

theorem keeps_others {others : List String} (hq : r.queue = name :: others) {n : String} (hn : n ≠ name) :
    r.Keeps { r with queue := others } n where
  queue := fun h => (List.mem_cons.1 (hq ▸ h)).resolve_left hn
  slotQueue := id
  cancelQueue := id
  releases := id
  cancelled := rfl

theorem Keeps.of_lines (hqueue : name ∈ r.queue → name ∈ r'.queue) (hslot : r'.slotQueue = r.slotQueue)
    (hcancel : r'.cancelQueue = r.cancelQueue) (hreleases : r'.releases = r.releases)
    (hcancelled : r'.cancelled = r.cancelled) : r.Keeps r' name :=
  ⟨hqueue, fun h => hslot ▸ h, fun h => hcancel ▸ h, fun h => hreleases ▸ h, hcancelled⟩

/-! ## One visit moves on -/

theorem Placed.note (h : r.Placed w) (e : Event) : (r.note e).Placed w := ⟨h.covered, h.fits, h.lined, h.nodup⟩

theorem Placed.statuses (h : r.Placed w) (statuses : Table Status) : Placed w { r with statuses := statuses } :=
  ⟨h.covered, h.fits, h.lined, h.nodup⟩

theorem Placed.put (h : r.Placed w) (hold : r.stage name = some old) (hstage : r'.stage = r.stage)
    (hothers : ∀ n, n ≠ name → r.Keeps r' n) (hnew : r'.Fits w name new)
    (hslot : ∀ n ∈ r'.slotQueue, n ≠ name ∧ n ∈ r.slotQueue ∨ n = name ∧ new = .awaitingSlot)
    (hnodup : r'.slotQueue.Nodup) : (r'.put name new).Placed w := by
  refine ⟨fun n stage hn => ?_, fun n stage hn => ?_, fun n hn => ?_, hnodup⟩
  · rcases stage_put_cases hn with ⟨rfl, -⟩ | ⟨-, hn⟩
    · exact h.covered n old hold
    · exact h.covered n stage (hstage ▸ hn)
  · rcases stage_put_cases hn with ⟨rfl, rfl⟩ | ⟨hne, hn⟩
    · exact hnew
    · have hfits : r'.Fits w n stage := (h.fits n stage (hstage ▸ hn)).keeps (hothers n hne)
      exact hfits
  · rcases hslot n hn with ⟨hne, hmem⟩ | ⟨rfl, rfl⟩
    · rw [stage_put_other hne, hstage]
      exact h.lined n hmem
    · exact stage_put_self (hstage ▸ hold)

theorem Placed.advance (h : r.Placed w) (hold : r.stage name = some old) (hline : old ≠ .awaitingSlot)
    (hstage : r'.stage = r.stage) (hslot : r'.slotQueue = r.slotQueue) (hothers : ∀ n, n ≠ name → r.Keeps r' n)
    (hnew : r'.Fits w name new) : (r'.put name new).Placed w := by
  refine h.put hold hstage hothers hnew (fun n hn => ?_) (hslot ▸ h.nodup)
  rw [hslot] at hn
  refine Or.inl ⟨?_, hn⟩
  rintro rfl
  have hwaits := h.lined n hn
  rw [hold, Option.some.injEq] at hwaits
  exact hline hwaits

theorem Placed.begin (h : r.Placed w) (hold : r.stage name = some old) (hline : old ≠ .awaitingSlot)
    (hstage : r'.stage = r.stage) (hslot : r'.slotQueue = r.slotQueue) (hothers : ∀ n, n ≠ name → r.Keeps r' n)
    (hqueue : name ∈ r'.queue) : (r'.begin w name).Placed w := by
  have hput : (r'.put name (.running (w.visitor name))).Placed w := h.advance hold hline hstage hslot hothers hqueue
  exact hput.note _

theorem Placed.ended (h : r.Placed w) {others : List String} (hq : r.queue = name :: others)
    (hold : r.stage name = some old) (hline : old ≠ .awaitingSlot) (error : Option Failure) :
    ({ r with queue := others }.put name (.ended error)).Placed w :=
  h.advance hold hline rfl rfl (fun _ hn => keeps_others hq hn) trivial

theorem Placed.goOn (h : r.Placed w) {before after : List Action} (hold : r.stage name = some (.running before)) :
    (r.put name (.running after)).Placed w := by
  have hqueue : name ∈ r.queue := h.fits name _ hold
  exact h.advance hold (by simp) rfl rfl (fun _ _ => .of_lines id rfl rfl rfl rfl) hqueue

/-! ## Slots and cancellation -/

theorem put_pass (hold : r.stage name = some old) (hline : old ≠ .awaitingSlot) (hnew : new ≠ .awaitingSlot) :
    r.pass.put name new = (r.put name new).pass := by
  unfold Roster.pass
  rw [show (r.put name new).slotQueue = r.slotQueue from rfl]
  cases r.slotQueue with
  | nil => rfl
  | cons next rest =>
    dsimp only
    by_cases hname : next = name
    · subst hname
      rw [stage_put_self hold, hold, if_neg (by simpa using hline), if_neg (by simpa using hnew)]
      rfl
    · rw [stage_put_other hname]
      by_cases hwaits : r.stage next = some .awaitingSlot
      · rw [if_pos hwaits, if_pos hwaits]
        refine Roster.ext ?_ rfl rfl rfl rfl rfl rfl rfl rfl
        funext n
        unfold Roster.put Roster.enqueue
        dsimp only
        by_cases hn : n = name
        · subst hn
          rw [if_pos rfl, if_neg (Ne.symm hname), if_neg (Ne.symm hname), if_pos rfl]
        · rw [if_neg hn, if_neg hn]
      · rw [if_neg hwaits, if_neg hwaits]
        rfl

theorem Placed.pass (h : r.Placed w) : r.pass.Placed w := by
  unfold Roster.pass
  split
  · exact ⟨h.covered, h.fits, h.lined, h.nodup⟩
  · rename_i next rest hline
    have hnext : r.stage next = some .awaitingSlot := h.lined next (hline ▸ List.mem_cons_self)
    obtain ⟨hnew, hrest⟩ := List.nodup_cons.1 (hline ▸ h.nodup)
    obtain ⟨hlimit, -, -⟩ := h.fits next _ hnext
    rw [if_pos hnext]
    show (Roster.put { r with slotQueue := rest, queue := join r.queue next } next .granted).Placed w
    refine h.put hnext rfl (fun n hn => ?_) ?_ (fun n hn => ?_) hrest
    · refine ⟨fun hq => mem_join.2 (Or.inl hq), fun hs => ?_, id, id, rfl⟩
      exact (List.mem_cons.1 (hline ▸ hs)).resolve_left hn
    · exact ⟨hlimit, mem_join.2 (Or.inr rfl)⟩
    · refine Or.inl ⟨?_, hline ▸ List.mem_cons_of_mem _ hn⟩
      rintro rfl
      exact hnew hn

theorem Placed.cancel (h : r.Placed w) : r.cancel.Placed w := by
  have hqueue : ∀ n, n ∈ r.cancel.queue ↔ n ∈ r.queue ∨ n ∈ r.cancelQueue := fun n => mem_foldl_join _ _
  have hstage : ∀ n stage, r.stage n = some stage →
      r.cancel.stage n = some (if n ∈ r.cancelQueue then stage.woken else stage) := by
    intro n stage hn
    show (if n ∈ r.cancelQueue then (r.stage n).map Stage.woken else r.stage n) = _
    rw [hn]
    split
    · rfl
    · rfl
  have hback : ∀ n stage, r.cancel.stage n = some stage → ∃ before, r.stage n = some before := by
    intro n stage hn
    cases hbefore : r.stage n with
    | some before => exact ⟨before, rfl⟩
    | none =>
      have hnone : r.cancel.stage n = none := by
        show (if n ∈ r.cancelQueue then (r.stage n).map Stage.woken else r.stage n) = none
        simp [hbefore]
      rw [hnone] at hn
      cases hn
  refine ⟨fun n stage hn => ?_, fun n stage hn => ?_, fun n hn => ?_, h.nodup⟩
  · obtain ⟨before, hbefore⟩ := hback n stage hn
    exact h.covered n before hbefore
  · obtain ⟨before, hbefore⟩ := hback n stage hn
    have hfits := h.fits n before hbefore
    rw [hstage n before hbefore, Option.some.injEq] at hn
    subst hn
    -- only who waits for the cancellation moves, and it stood in the line that is woken
    have hsame : before.woken = before → r.cancel.Fits w n before →
        r.cancel.Fits w n (if n ∈ r.cancelQueue then before.woken else before) := by
      intro hwoken hnew
      rw [hwoken, ite_self]
      exact hnew
    cases before with
    | awaitingCancel rest =>
      rw [if_pos hfits.2]
      exact (hqueue n).2 (Or.inr hfits.2)
    | idle => exact hsame rfl trivial
    | dispatched => exact hsame rfl ((hqueue n).2 (Or.inl hfits))
    | awaitingSlot =>
      obtain ⟨hlimit, hslot, hwaits⟩ := hfits
      refine hsame rfl ⟨hlimit, hslot, ?_⟩
      show n ∈ r.cancel.queue
      rw [hqueue]
      by_cases hc : r.cancelled = true
      · rw [if_pos hc] at hwaits
        exact Or.inl hwaits
      · rw [if_neg hc] at hwaits
        exact Or.inr hwaits
    | granted => exact hsame rfl ⟨hfits.1, (hqueue n).2 (Or.inl hfits.2)⟩
    | running rest => exact hsame rfl ((hqueue n).2 (Or.inl hfits))
    | awaitingRelease rest => exact hsame rfl hfits
    | ended error => exact hsame rfl trivial
  · rw [hstage n _ (h.lined n hn)]
    show some (if n ∈ r.cancelQueue then Stage.awaitingSlot else Stage.awaitingSlot) = _
    rw [ite_self]

theorem Placed.close (h : r.Placed w) {others : List String} {rest : List Action} (hq : r.queue = name :: others)
    (hold : r.stage name = some (.running rest)) (error : Option Failure) :
    ({ r with queue := others }.close w name error).Placed w := by
  have hended : (({ r with queue := others }.put name (.ended error)).note (.ended name error)).Placed w :=
    (h.ended hq hold (by simp) error).note _
  unfold Roster.close
  dsimp only
  split
  · exact hended.pass.statuses _
  · exact hended.statuses _

/-! ## Every move -/

/-- **Every move keeps the visits in their places.** -/
theorem Placed.move (h : r.Placed w) (hmove : r.Move w r') : r'.Placed w := by
  cases hmove with
  | @dispatch name hold =>
    have hput : (Roster.put { r with queue := r.queue ++ [name] } name .dispatched).Placed w :=
      h.advance hold (by simp) rfl rfl (fun n _ => .of_lines (List.mem_append_left _) rfl rfl rfl rfl)
        (List.mem_append_right _ List.mem_cons_self)
    exact hput.note _
  | @skip name others hq hturn =>
    refine ⟨h.covered, fun n stage hn => ?_, h.lined, h.nodup⟩
    by_cases heq : n = name
    · subst heq
      have hfits := h.fits n stage hn
      have hnone := hturn stage hn
      cases stage with
      | awaitingSlot =>
        obtain ⟨hlimit, hslot, hwaits⟩ := hfits
        have hc : r.cancelled = false := hnone
        refine ⟨hlimit, hslot, ?_⟩
        rw [hc, if_neg Bool.false_ne_true] at hwaits
        show if r.cancelled = true then _ else _
        rw [hc, if_neg Bool.false_ne_true]
        exact hwaits
      | dispatched => cases hnone
      | granted => cases hnone
      | running rest => cases hnone
      | idle => trivial
      | awaitingRelease rest => exact hfits
      | awaitingCancel rest => exact hfits
      | ended error => trivial
    · exact (h.fits n stage hn).keeps (keeps_others hq heq)
  | @begin name _ hold =>
    exact h.begin hold (by simp) rfl rfl (fun _ _ => .of_lines id rfl rfl rfl rfl) (h.fits name _ hold)
  | @take name _ _ hold _ _ =>
    show (Roster.begin w { r with free := r.free - 1 } name).Placed w
    exact h.begin hold (by simp) rfl rfl (fun _ _ => .of_lines id rfl rfl rfl rfl) (h.fits name _ hold)
  | @lineUp name others limit hlimit hq hold hc _ =>
    have hout : name ∉ r.slotQueue := by
      intro hmem
      have hwaits := h.lined name hmem
      rw [hold] at hwaits
      cases hwaits
    refine h.put hold rfl (fun n hn => ?_) ?_ (fun n hn => ?_) ?_
    · have hkept := keeps_others hq hn
      exact ⟨hkept.queue, List.mem_append_left _, List.mem_append_left _, id, rfl⟩
    · refine ⟨by rw [hlimit]; rfl, List.mem_append_right _ List.mem_cons_self, ?_⟩
      show if r.cancelled = true then _ else _
      rw [hc, if_neg Bool.false_ne_true]
      exact List.mem_append_right _ List.mem_cons_self
    · rcases List.mem_append.1 hn with hmem | hn
      · refine Or.inl ⟨?_, hmem⟩
        rintro rfl
        exact hout hmem
      · exact Or.inr ⟨List.mem_singleton.1 hn, rfl⟩
    · exact List.nodup_append.2 ⟨h.nodup, List.nodup_singleton _, fun a ha b hb => by
        rintro rfl
        exact hout (List.mem_singleton.1 hb ▸ ha)⟩
  | @takeUp name hold _ =>
    show (Roster.begin w { r with cancelQueue := r.cancelQueue.erase name } name).Placed w
    refine h.begin hold (by simp) rfl rfl (fun n hn => ?_) (h.fits name _ hold).2
    exact ⟨id, id, (List.mem_erase_of_ne hn).2, id, rfl⟩
  | turnAway hq hold _ _ => exact (h.ended hq hold (by simp) _).note _
  | @leaveLine name others hq hold _ =>
    have hput : (Roster.put { r with queue := others, slotQueue := r.slotQueue.erase name } name
        (.ended (some .cancelled))).Placed w :=
      h.put hold rfl (fun n hn => ⟨(keeps_others hq hn).queue, (List.mem_erase_of_ne hn).2, id, id, rfl⟩) trivial
        (fun n hn => Or.inl (h.nodup.mem_erase_iff.1 hn)) (h.nodup.erase name)
    exact hput.note _
  | @decline name others hq hold _ =>
    unfold Roster.turnAway
    rw [put_pass (r := { r with queue := others }) hold (by simp) (by simp)]
    exact (h.ended hq hold (by simp) _).pass.note _
  | goOn hold _ => exact h.goOn hold
  | note hold _ => exact (h.goOn hold).note _
  | write hold _ => exact (h.statuses _).goOn hold
  | @use name rest hold _ =>
    have hqueue : name ∈ r.queue := h.fits name _ hold
    show (Roster.put { r with releases := r.releases.erase name } name (.running rest)).Placed w
    exact h.advance hold (by simp) rfl rfl (fun n hn => ⟨id, id, id, List.mem_of_mem_erase, rfl⟩) hqueue
  | @awaitRelease name others rest hq hold hr =>
    show (Roster.put { r with queue := others } name (.awaitingRelease rest)).Placed w
    exact h.advance hold (by simp) rfl rfl (fun n hn => keeps_others hq hn) hr
  | @awaitCancel name others rest hq hold hc =>
    show (Roster.put { r with queue := others, cancelQueue := r.cancelQueue ++ [name] } name
      (.awaitingCancel rest)).Placed w
    refine h.advance hold (by simp) rfl rfl (fun n hn => ?_) ⟨hc, List.mem_append_right _ List.mem_cons_self⟩
    exact ⟨(keeps_others hq hn).queue, id, List.mem_append_left _, id, rfl⟩
  | close hq hold _ => exact h.close hq hold _
  | cancel => exact (h.note _).cancel
  | trip => exact h.cancel

theorem Placed.play (h : r.Placed w) {act : Outside} (hplay : r.Play act r') : r'.Placed w := by
  cases hplay with
  | @release name rest hold =>
    show (Roster.put { r with queue := join r.queue name } name (.running rest)).Placed w
    exact h.advance hold (by simp) rfl rfl (fun n _ => .of_lines (fun hn => mem_join.2 (Or.inl hn)) rfl rfl rfl rfl)
      (mem_join.2 (Or.inr rfl))
  | @keep name hnone =>
    refine ⟨h.covered, fun n stage hn => ?_, h.lined, h.nodup⟩
    have hfits := h.fits n stage hn
    cases stage with
    | awaitingRelease rest =>
      have hne : n ≠ name := by
        rintro rfl
        exact hnone rest hn
      intro hmem
      rcases List.mem_append.1 hmem with hmem | hmem
      · exact hfits hmem
      · exact hne (List.mem_singleton.1 hmem)
    | _ => exact hfits
  | cancel => exact (h.note _).cancel
  | again => exact h
  | write => exact h.statuses _

end Roster

theorem State.placed_initial {w : Walk} (statuses : Table Status) (callerCancelled : Bool) :
    (State.initial w statuses callerCancelled).roster.Placed w := by
  refine ⟨fun n stage hn => (State.stage_initial hn).1, fun n stage hn => ?_, nofun, List.nodup_nil⟩
  rw [(State.stage_initial hn).2]
  trivial

/-- **In every state of a walk the visits stand in their places.** -/
theorem State.Reached.placed {w : Walk} {statuses : Table Status} {callerCancelled : Bool} {acts : List Outside}
    {s : State} (hw : w.Sound) (hst : ∀ n ∈ w.scope, n ∈ statuses.keys)
    (h : State.Reached w statuses callerCancelled acts s) : s.roster.Placed w := by
  refine State.Reached.roster_induction (P := fun _ r => r.Placed w) hw hst
    (State.placed_initial statuses callerCancelled) ?_ ?_ h
  · exact fun _ _ _ hplaced hmove => hplaced.move hmove
  · exact fun _ _ _ _ hplaced hplay => hplaced.play hplay

end Rollout
