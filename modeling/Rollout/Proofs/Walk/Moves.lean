import Rollout.Proofs.Walk.Roster
/-!
The machine seen through its roster.  Each operation on states is a chain of moves on their rosters, so every turn is
one (`step_moves`), and what every move keeps holds of every state of a walk (`Reached.roster_induction`).

The roster leaves out what a walk counts and what it records of failures.  What is left is who stands where, at which
stage each visit is, who holds the slots, and what is noted of it all.  Most operations that a turn is put together of
are a single move or none, and one that folds over a list, such as a wake-up or a round, is a chain of one move for each
element.  So an invariant of the run queue, of the lines or of the slots is shown for the moves, and the operations of
the machine need not be looked at again.
-/
namespace Rollout

open Relation (ReflTransGen)

namespace State

variable {w : Walk} {s : State} {name : String}

/-! ## What is one operation on the roster -/

theorem stage_roster (n : String) : s.roster.stage n = s.stages.get? n := rfl

theorem roster_setStage (name : String) (stage : Stage) :
    (s.setStage name stage).roster = s.roster.put name stage := by
  refine Roster.ext ?_ rfl rfl rfl rfl rfl rfl rfl rfl
  funext n
  show (s.stages.modify name fun _ => stage).get? n = if n = name then (s.stages.get? n).map _ else s.stages.get? n
  rw [Table.get?_modify]

theorem roster_note (e : Event) : (s.note e).roster = s.roster.note e := rfl

theorem roster_enqueue (name : String) : (s.enqueue name).roster = s.roster.enqueue name := by
  unfold enqueue Roster.enqueue join
  rw [show s.roster.queue = s.queue from rfl]
  split
  · rfl
  · rfl

theorem roster_begin (name : String) : (s.begin w name).roster = s.roster.begin w name := by
  unfold begin Roster.begin
  rw [roster_note, roster_setStage]

theorem roster_record (f : Failure) : (s.record f).roster = s.roster := by
  unfold record
  split
  · rfl
  · split
    · rfl
    · rfl

theorem roster_noteCancellation : s.noteCancellation.roster = s.roster := by
  unfold noteCancellation
  split
  · rfl
  · rfl

theorem roster_countOff (name : String) : (s.countOff name).roster = s.roster := by
  unfold countOff
  split
  · rfl
  · rfl
  · rfl

theorem roster_foldl_countOff : ∀ (names : List String) (s : State), (names.foldl countOff s).roster = s.roster
  | [], _ => rfl
  | name :: names, s => by rw [List.foldl_cons, roster_foldl_countOff names, roster_countOff]

/-! ## Cancellation -/

theorem Stage.woken_woken (stage : Stage) : stage.woken.woken = stage.woken := by
  cases stage <;> rfl

theorem roster_wake (name : String) : (s.wake name).roster = s.roster.wake [name] := by
  have hsame : (s.stages.get? name).map Stage.woken = s.stages.get? name →
      (s.enqueue name).roster = s.roster.wake [name] := by
    intro hwoken
    rw [roster_enqueue]
    refine Roster.ext ?_ rfl rfl rfl rfl rfl rfl rfl rfl
    funext n
    show s.stages.get? n = if n ∈ [name] then (s.stages.get? n).map Stage.woken else s.stages.get? n
    by_cases hn : n = name
    · subst hn
      rw [if_pos List.mem_cons_self, hwoken]
    · simp [hn]
  unfold wake
  cases h : s.stages.get? name with
  | none => exact hsame (by rw [h]; rfl)
  | some stage =>
    cases stage with
    | awaitingCancel rest =>
      dsimp only
      rw [roster_enqueue, roster_setStage]
      refine Roster.ext ?_ rfl rfl rfl rfl rfl rfl rfl rfl
      funext n
      show (if n = name then (s.stages.get? n).map _ else s.stages.get? n) =
        if n ∈ [name] then (s.stages.get? n).map Stage.woken else s.stages.get? n
      by_cases hn : n = name
      · subst hn
        simp [h, Stage.woken]
      · simp [hn]
    | _ => exact hsame (by rw [h]; rfl)

theorem Roster.wake_cons (r : Roster) (name : String) (names : List String) :
    (r.wake [name]).wake names = r.wake (name :: names) := by
  refine Roster.ext ?_ rfl rfl rfl rfl rfl rfl rfl rfl
  funext n
  unfold Roster.wake
  by_cases hn : n = name
  · by_cases hnames : n ∈ names
    · simp [hn, hn ▸ hnames, Function.comp_def, Stage.woken_woken]
    · simp [hn, hn ▸ hnames]
  · simp [hn]

theorem roster_foldl_wake : ∀ (names : List String) (s : State),
    (names.foldl wake s).roster = s.roster.wake names
  | [], s => by
    refine Roster.ext ?_ rfl rfl rfl rfl rfl rfl rfl rfl
    funext n
    simp [Roster.wake]
  | name :: names, s => by rw [List.foldl_cons, roster_foldl_wake names, roster_wake, Roster.wake_cons]

theorem roster_wakeAll (h : s.tokenCancelled = true) : s.wakeAll.roster = s.roster.cancel := by
  unfold wakeAll Roster.cancel
  rw [roster_foldl_wake]
  exact Roster.ext rfl rfl rfl rfl rfl rfl h rfl rfl

theorem roster_trip : s.trip.roster = s.roster.cancel := by
  have htripped : ({ s with tripped := true } : State).tokenCancelled = true := Bool.or_true _
  unfold trip
  rw [roster_wakeAll htripped]
  rfl

theorem roster_cancelCaller (h : s.callerCancelled = false) :
    s.cancelCaller.roster = (s.roster.note .cancelled).cancel := by
  have hcancelled : (({ s with callerCancelled := true } : State).note .cancelled).tokenCancelled = true := rfl
  unfold cancelCaller
  rw [h, if_neg Bool.false_ne_true, roster_wakeAll hcancelled]
  rfl

/-! ## Slots -/

theorem roster_passSlot : s.passSlot.roster = s.roster.pass := by
  unfold passSlot Roster.pass
  rw [show s.roster.slotQueue = s.slotQueue from rfl]
  cases s.slotQueue with
  | nil => rfl
  | cons next rest =>
    dsimp only
    rw [stage_roster]
    by_cases h : s.stages.get? next = some .awaitingSlot
    · rw [h, if_pos rfl]
      dsimp only
      rw [roster_enqueue, roster_setStage]
      rfl
    · rw [if_neg h]
      split
      · contradiction
      · rfl

/-! ## Chains of moves -/

/-- What can happen to the roster of a walk in one turn. -/
abbrev Moves (w : Walk) : Roster → Roster → Prop := ReflTransGen (Roster.Move w)

theorem moves_dispatch (name : String) : Moves w s.roster (s.dispatch name).roster := by
  unfold dispatch
  split
  · rename_i h
    rw [roster_note, roster_setStage]
    exact ReflTransGen.single (.dispatch h)
  · exact ReflTransGen.refl

theorem moves_foldl_dispatch : ∀ (names : List String) (s : State), Moves w s.roster (names.foldl dispatch s).roster
  | [], _ => ReflTransGen.refl
  | name :: names, _ => (moves_dispatch name).trans (moves_foldl_dispatch names _)

theorem moves_openRound : Moves w s.roster s.openRound.roster := by
  have hnoted : ({ s.noteCancellation with ready := [] } : State).roster = s.roster := roster_noteCancellation
  unfold openRound
  dsimp only
  split
  · have hround := moves_foldl_dispatch (w := w) s.noteCancellation.ready { s.noteCancellation with ready := [] }
    rwa [hnoted] at hround
  · rw [hnoted]

theorem moves_conclude_some (cause : Failure) : Moves w s.roster (s.conclude w name (some cause)).roster := by
  have htrip : Moves w s.roster ((s.trip).record (classify name cause)).roster := by
    rw [roster_record, roster_trip]
    exact ReflTransGen.single .trip
  exact htrip.trans moves_openRound

theorem mark_eq_ok (h : name ∈ s.statuses.keys) :
    s.mark w name = .ok { s with statuses := w.marked name s.statuses } := by
  unfold mark Walk.marked
  cases w.target with
  | none => rfl
  | some status =>
    dsimp only
    rw [if_pos ((s.statuses.contains_iff name).2 h)]

theorem moves_conclude_none (h : name ∈ s.statuses.keys) :
    Moves w { s.roster with statuses := w.marked name s.statuses } (s.conclude w name none).roster := by
  have hcounted : ∀ t : State, Moves w t.roster
      (if t.failure.isNone then (w.successors name).foldl countOff t else t).openRound.roster := by
    intro t
    by_cases hf : t.failure.isNone = true
    · rw [if_pos hf]
      have hround := moves_openRound (w := w) (s := (w.successors name).foldl countOff t)
      rwa [roster_foldl_countOff] at hround
    · rw [if_neg hf]
      exact moves_openRound
  unfold conclude
  rw [mark_eq_ok h]
  exact hcounted { s with statuses := w.marked name s.statuses }

theorem moves_turnAway (name : String) : Moves w (s.roster.turnAway name) (s.turnAway w name).roster := by
  have hput : ((s.setStage name (.ended (some .cancelled))).note (.turnedAway name)).roster = s.roster.turnAway name := by
    rw [roster_note, roster_setStage]
    rfl
  unfold turnAway
  rw [← hput]
  exact moves_conclude_some .cancelled

theorem moves_finish (error : Option Failure) (h : name ∈ s.statuses.keys) :
    Moves w (s.roster.close w name error) (s.finish w name error).roster := by
  have hput : ((s.setStage name (.ended error)).note (.ended name error)).roster =
      (s.roster.put name (.ended error)).note (.ended name error) := by
    rw [roster_note, roster_setStage]
  have hpassed : ∀ t : State, (if w.limit.isSome then t.passSlot else t).roster =
      if w.limit.isSome then t.roster.pass else t.roster := by
    intro t
    split
    · exact roster_passSlot
    · rfl
  -- giving a slot back leaves the statuses alone
  have hstatuses : ∀ t : State, (if w.limit.isSome then t.passSlot else t).statuses = t.statuses := by
    intro t
    have houtline : (if w.limit.isSome then t.passSlot else t).outline = t.outline := by
      split
      · exact outline_passSlot
      · rfl
    exact congrArg Outline.statuses houtline
  unfold finish Roster.close
  dsimp only
  rw [← hput, ← hpassed]
  generalize ht : (s.setStage name (.ended error)).note (.ended name error) = t
  have hkeys : name ∈ (if w.limit.isSome then t.passSlot else t).statuses.keys := by
    rw [hstatuses, ← ht]
    exact h
  cases error with
  | none => exact moves_conclude_none hkeys
  | some cause => exact moves_conclude_some cause

/-! ## Turns -/

theorem moves_enter {others : List String} (hq : s.queue = name :: others)
    (h : s.stages.get? name = some .dispatched) : Moves w s.roster (s.enter w name others).roster := by
  unfold enter
  split
  · rename_i hlimit
    rw [roster_begin]
    exact ReflTransGen.single (.begin hlimit h)
  · rename_i limit hlimit
    by_cases hc : s.tokenCancelled = true
    · rw [if_pos hc]
      have haway := Roster.Move.turnAway (w := w) (r := s.roster) hq h (by rw [hlimit]; rfl) hc
      exact (ReflTransGen.single haway).trans (moves_turnAway (s := { s with queue := others }) name)
    · rw [if_neg hc]
      have hlive : s.roster.cancelled = false := Bool.eq_false_iff.2 hc
      by_cases hfree : 0 < s.free
      · rw [if_pos hfree, roster_begin]
        exact ReflTransGen.single (.take hlimit h hlive hfree)
      · rw [if_neg hfree, roster_setStage]
        have hnone : s.roster.free = 0 := Nat.eq_zero_of_not_pos hfree
        exact ReflTransGen.single (.lineUp hlimit hq h hlive hnone)

theorem moves_perform {others : List String} {rest : List Action} {action : Action} (hq : s.queue = name :: others)
    (h : s.stages.get? name = some (.running (action :: rest))) (hmark : name ∈ s.statuses.keys) :
    Moves w s.roster (s.perform w name others rest action).roster := by
  have hclose : ∀ cause, action.Fails s.statuses.keys cause →
      Moves w s.roster (({ s with queue := others } : State).finish w name (some cause)).roster := by
    intro cause hfails
    have hmove := Roster.Move.close (w := w) (r := s.roster) hq h (.badly hfails)
    exact (ReflTransGen.single hmove).trans (moves_finish (s := { s with queue := others }) (some cause) hmark)
  cases action with
  | wait =>
    simp only [perform]
    by_cases hr : name ∈ s.releases
    · rw [if_pos hr, roster_setStage]
      exact ReflTransGen.single (.use h hr)
    · rw [if_neg hr, roster_setStage]
      exact ReflTransGen.single (.awaitRelease hq h hr)
  | waitCancel =>
    simp only [perform]
    by_cases hc : s.tokenCancelled = true
    · rw [if_pos hc, roster_setStage]
      exact ReflTransGen.single (.goOn h (Or.inr ⟨rfl, hc⟩))
    · rw [if_neg hc, roster_setStage]
      exact ReflTransGen.single (.awaitCancel hq h (Bool.eq_false_iff.2 hc))
  | cancel =>
    simp only [perform]
    have hgo : Moves w s.roster (s.setStage name (.running rest)).roster := by
      rw [roster_setStage]
      exact ReflTransGen.single (.goOn h (Or.inl rfl))
    refine hgo.trans ?_
    cases hc : (s.setStage name (.running rest)).callerCancelled with
    | true =>
      unfold cancelCaller
      rw [if_pos hc]
    | false =>
      rw [roster_cancelCaller hc]
      exact ReflTransGen.single .cancel
  | token =>
    simp only [perform]
    rw [roster_note, roster_setStage]
    exact ReflTransGen.single (.note h (by simp [Event.noteOf?]))
  | status other =>
    simp only [perform]
    rw [roster_note, roster_setStage]
    exact ReflTransGen.single (.note h (by simp [Event.noteOf?]))
  | setStatus other status =>
    simp only [perform]
    by_cases hknown : s.statuses.contains other = true
    · rw [if_pos hknown, roster_setStage]
      exact ReflTransGen.single (.write h ((s.statuses.contains_iff other).1 hknown))
    · rw [if_neg hknown]
      exact hclose _ (.setStatus status fun hmem => hknown ((s.statuses.contains_iff other).2 hmem))
  | log text =>
    simp only [perform]
    rw [roster_note, roster_setStage]
    exact ReflTransGen.single (.note h (by simp [Event.noteOf?]))
  | fail cause => exact hclose cause (.fail cause)

/-! ## A turn -/

section Turn

variable {others : List String} {action : Action} {rest : List Action}

theorem step_of_idle (hq : s.queue = []) : s.step w = s := by
  unfold step
  rw [hq]

theorem step_dispatched (hq : s.queue = name :: others) (h : s.stages.get? name = some .dispatched) :
    s.step w = s.enter w name others := by
  unfold step
  rw [hq]
  dsimp only
  rw [h]

theorem step_running (hq : s.queue = name :: others) (h : s.stages.get? name = some (.running (action :: rest))) :
    s.step w = s.perform w name others rest action := by
  unfold step
  rw [hq]
  dsimp only
  rw [h]

theorem step_finish (hq : s.queue = name :: others) (h : s.stages.get? name = some (.running [])) :
    s.step w = ({ s with queue := others } : State).finish w name none := by
  unfold step
  rw [hq]
  dsimp only
  rw [h]

end Turn

/-- **Every turn is a chain of moves.** -/
theorem step_moves (htidy : s.outline.Tidy w) : Moves w s.roster (s.step w).roster := by
  -- a visit has a status to record, as its service is covered
  have hmark : ∀ name stage, s.stages.get? name = some stage → name ∈ s.statuses.keys := by
    intro name stage h
    exact htidy.marked name (htidy.mem_scope (progress_of_get? h))
  unfold step
  cases hq : s.queue with
  | nil => exact ReflTransGen.refl
  | cons name others =>
    dsimp only
    have hskip : (∀ stage, s.stages.get? name = some stage → stage.hasTurn s.tokenCancelled = false) →
        Moves w s.roster ({ s with queue := others } : State).roster :=
      fun h => ReflTransGen.single (.skip hq h)
    cases h : s.stages.get? name with
    | none => exact hskip (by simp [h])
    | some stage =>
      cases stage with
      | dispatched => exact moves_enter hq h
      | awaitingSlot =>
        dsimp only
        by_cases hc : s.tokenCancelled = true
        · rw [if_pos hc]
          have hmove := Roster.Move.leaveLine (w := w) (r := s.roster) hq h hc
          refine (ReflTransGen.single hmove).trans ?_
          exact moves_turnAway (s := { s with queue := others, slotQueue := s.slotQueue.erase name }) name
        · rw [if_neg hc]
          exact hskip (by simpa [h, Stage.hasTurn] using hc)
      | granted =>
        dsimp only
        by_cases hc : s.tokenCancelled = true
        · rw [if_pos hc]
          have hmove := Roster.Move.decline (w := w) (r := s.roster) hq h hc
          have haway := moves_turnAway (w := w) (s := ({ s with queue := others } : State).passSlot) name
          rw [roster_passSlot] at haway
          exact (ReflTransGen.single hmove).trans haway
        · rw [if_neg hc, roster_begin, ← hq]
          exact ReflTransGen.single (.takeUp h (Bool.eq_false_iff.2 hc))
      | running rest =>
        cases rest with
        | nil =>
          have hmove := Roster.Move.close (w := w) (r := s.roster) hq h .well
          refine (ReflTransGen.single hmove).trans ?_
          exact moves_finish (s := { s with queue := others }) none (hmark name _ h)
        | cons action rest => exact moves_perform hq h (hmark name _ h)
      | idle => exact hskip (by simp [h, Stage.hasTurn])
      | awaitingRelease rest => exact hskip (by simp [h, Stage.hasTurn])
      | awaitingCancel rest => exact hskip (by simp [h, Stage.hasTurn])
      | ended error => exact hskip (by simp [h, Stage.hasTurn])

theorem roster_play (act : Outside) : s.roster.Play act (s.play act).roster := by
  cases act with
  | release service =>
    unfold play
    dsimp only
    cases h : s.stages.get? service with
    | none => exact .keep (by simp [stage_roster, h])
    | some stage =>
      cases stage with
      | awaitingRelease rest =>
        dsimp only
        rw [roster_enqueue, roster_setStage]
        exact .release h
      | _ => exact .keep (by simp [stage_roster, h])
  | cancel =>
    unfold play
    cases hc : s.callerCancelled with
    | true =>
      unfold cancelCaller
      rw [if_pos hc]
      exact .again
    | false =>
      rw [roster_cancelCaller hc]
      exact .cancel
  | setStatus service status => exact .write

/-! ## What holds of every roster -/

/-- **What every move keeps holds of every state reached**, if what happens from outside keeps it as well. -/
theorem Reached.roster_induction {statuses : Table Status} {callerCancelled : Bool} {P : List Outside → Roster → Prop}
    (hw : w.Sound) (hst : ∀ n ∈ w.scope, n ∈ statuses.keys) (first : P [] (initial w statuses callerCancelled).roster)
    (move : ∀ acts r r', P acts r → r.Move w r' → P acts r')
    (play : ∀ acts r act r', P acts r → r.Play act r' → P (acts ++ [act]) r')
    {acts : List Outside} {s : State} (h : Reached w statuses callerCancelled acts s) : P acts s.roster := by
  have moves : ∀ acts r r', P acts r → Moves w r r' → P acts r' := by
    intro acts r r' hr hmoves
    induction hmoves with
    | refl => exact hr
    | tail _ hmove ih => exact move acts _ _ ih hmove
  induction h with
  | refl => exact moves [] _ _ first moves_openRound
  | turn hrun ih => exact moves _ _ _ ih (step_moves (Reached.tidy hw hst hrun))
  | notice _ ih => rwa [roster_noteCancellation]
  | outside act _ _ ih => exact play _ _ act _ ih (roster_play act)

end State

end Rollout
