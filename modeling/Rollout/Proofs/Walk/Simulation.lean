import Rollout.Proofs.Walk.Outline
/-!
The machine seen through its outline.  Each operation on states is that operation on their outlines, so every step of
the machine is a step of its outline (`step_outline`).  The machine dispatches and counts off one name at a time and the
outline all at once, which comes to the same as long as no name is there twice.

There is one equation for each operation, and they are used from the inside out: a stage that is set, a token that is
cancelled, a round, the end of a visit, an action, a turn.  A stage that shows the same progress does not change the
outline, so most of what the machine does to a visit in line or in the run queue cannot be seen
(`outline_setStage_of_progress`).  The end of a visit is the one operation that needs more than its own equation:
nothing is ready when it comes, and what it makes ready is dispatched before the turn is over (`outline_conclude`).
-/
namespace Rollout

namespace State

variable {s : State}

/-! ## What does not change the outline -/

theorem outline_setStage (name : String) (stage : Stage) :
    (s.setStage name stage).outline = s.outline.put name stage.progress := by
  unfold outline setStage Outline.put
  congr 1
  funext n
  dsimp only
  rw [Table.get?_modify]
  by_cases h : n = name
  · rw [if_pos h, if_pos h]
    cases s.stages.get? n <;> rfl
  · rw [if_neg h, if_neg h]

theorem outline_setStage_of_progress {name : String} {old : Stage} (stage : Stage)
    (h : s.stages.get? name = some old) (hp : stage.progress = old.progress) :
    (s.setStage name stage).outline = s.outline := by
  have hput : s.outline.put name stage.progress = s.outline := by
    unfold Outline.put
    congr 1
    funext n
    by_cases hn : n = name
    · subst hn
      simp [outline, h, hp]
    · rw [if_neg hn]
      rfl
  rw [outline_setStage, hput]

theorem outline_note (e : Event) : (s.note e).outline = s.outline.note e := rfl

theorem outline_enqueue (name : String) : (s.enqueue name).outline = s.outline := by
  unfold enqueue
  split
  · rfl
  · rfl

theorem outline_wake (name : String) : (s.wake name).outline = s.outline := by
  unfold wake
  split
  · rename_i rest h
    rw [outline_enqueue]
    exact outline_setStage_of_progress (.running rest) h rfl
  · exact outline_enqueue name

theorem outline_foldl_wake : ∀ (names : List String) (s : State), (names.foldl wake s).outline = s.outline
  | [], _ => rfl
  | name :: names, s => by rw [List.foldl_cons, outline_foldl_wake names, outline_wake]

theorem outline_wakeAll : s.wakeAll.outline = s.outline := by
  unfold wakeAll
  rw [outline_foldl_wake]
  rfl

theorem outline_passSlot : s.passSlot.outline = s.outline := by
  unfold passSlot
  split
  · rfl
  · rename_i next rest _
    split
    · rename_i h
      rw [outline_enqueue]
      exact outline_setStage_of_progress (s := { s with slotQueue := rest }) .granted h rfl
    · rfl

/-! ## Cancellation and failure -/

theorem outline_cancelCaller : s.cancelCaller.outline = s.outline.cancel := by
  unfold cancelCaller Outline.cancel
  rw [show s.outline.callerCancelled = s.callerCancelled from rfl]
  cases h : s.callerCancelled with
  | true =>
    rw [if_pos rfl, if_pos rfl]
    exact Outline.ext rfl rfl rfl rfl h rfl rfl rfl rfl
  | false =>
    rw [if_neg Bool.false_ne_true, if_neg Bool.false_ne_true, outline_wakeAll]
    rfl

theorem outline_trip : s.trip.outline = { s.outline with tripped := true } := by
  unfold trip
  rw [outline_wakeAll]
  rfl

theorem outline_record (f : Failure) : (s.record f).outline = s.outline.record f := by
  unfold record Outline.record
  rw [show s.outline.failure = s.failure from rfl]
  cases h : s.failure with
  | none => rfl
  | some current =>
    dsimp only
    split
    · rfl
    · exact Outline.ext rfl rfl rfl rfl rfl rfl h rfl rfl

theorem outline_noteCancellation : s.noteCancellation.outline = s.outline.notice := by
  unfold noteCancellation Outline.notice
  rw [show s.outline.failure = s.failure from rfl, show s.outline.callerCancelled = s.callerCancelled from rfl]
  split
  · rfl
  · rfl

/-! ## Rounds -/

theorem outline_countOff (name : String) : (s.countOff name).outline = s.outline.countOff [name] := by
  have hunresolved : s.outline.unresolved = s.unresolved.get? := rfl
  have hmodify : ∀ k : Nat, (∀ m, s.unresolved.get? name = some m → m - 1 = k) →
      (s.unresolved.modify name fun _ => k).get? =
        fun n => if n ∈ [name] then (s.unresolved.get? n).map (· - 1) else s.unresolved.get? n := fun k hk => by
    funext n
    rw [Table.get?_modify]
    by_cases hn : n = name
    · subst hn
      cases hget : s.unresolved.get? n with
      | none => simp
      | some m => simp [hk m hget]
    · simp [hn]
  unfold countOff Outline.countOff
  rw [hunresolved]
  split
  · rename_i h
    rw [← hmodify 0 (by simp [h])]
    simp [h, outline]
  · rename_i k h
    rw [← hmodify (k + 1) (by simp [h])]
    simp [h, outline]
  · rename_i hone hmore
    -- nothing is left to count off, or the service is not covered
    have hsame : s.unresolved.get? = fun n =>
        if n ∈ [name] then (s.unresolved.get? n).map (· - 1) else s.unresolved.get? n := by
      funext n
      by_cases hn : n = name
      · subst hn
        cases hget : s.unresolved.get? n with
        | none => simp
        | some m =>
          cases m with
          | zero => simp
          | succ m => cases m <;> simp_all
      · simp [hn]
    have hne : ¬ s.unresolved.get? name = some 1 := hone
    rw [← hsame]
    simp [outline, hne]

theorem Outline.countOff_cons {o : Outline} {name : String} {names : List String} (h : name ∉ names) :
    (o.countOff [name]).countOff names = o.countOff (name :: names) := by
  have hne : ∀ n ∈ names, n ≠ name := fun n hn heq => h (heq ▸ hn)
  unfold Outline.countOff
  congr 1
  · funext n
    by_cases hn : n = name
    · subst hn
      simp [h]
    · simp [hn]
  · rw [List.filter_cons, List.append_assoc]
    have hfilter : (names.filter fun n =>
        (if n ∈ [name] then (o.unresolved n).map (· - 1) else o.unresolved n) = some 1) =
        names.filter fun n => o.unresolved n = some 1 :=
      List.filter_congr fun n hn => by simp [hne n hn]
    rw [hfilter]
    by_cases hone : o.unresolved name = some 1
    · simp [hone]
    · simp [hone]

theorem outline_foldl_countOff : ∀ (names : List String) (s : State), names.Nodup →
    (names.foldl countOff s).outline = s.outline.countOff names
  | [], s, _ => by simp [Outline.countOff]
  | name :: names, s, h => by
    obtain ⟨hname, hnd⟩ := List.nodup_cons.1 h
    rw [List.foldl_cons, outline_foldl_countOff names _ hnd, outline_countOff, Outline.countOff_cons hname]

theorem outline_dispatch (name : String) : (s.dispatch name).outline = s.outline.dispatch [name] := by
  have hprogress : ∀ n, s.outline.progress n = (s.stages.get? n).map Stage.progress := fun _ => rfl
  unfold dispatch
  split
  · rename_i h
    rw [outline_note, outline_setStage]
    have hidle : s.outline.progress name = some .idle := by rw [hprogress, h]; rfl
    unfold Outline.dispatch Outline.note Outline.put
    rw [show ({ s with queue := s.queue ++ [name] } : State).outline = s.outline from rfl]
    congr 1
    · funext n
      by_cases hn : n = name
      · subst hn
        simp [hidle, Stage.progress]
      · simp [hn]
    · simp [hidle]
  · rename_i h
    have hidle : s.outline.progress name ≠ some .idle := by
      rw [hprogress]
      cases hget : s.stages.get? name with
      | none => simp
      | some stage => cases stage <;> simp_all [Stage.progress]
    refine Outline.ext ?_ rfl rfl rfl rfl rfl rfl rfl ?_
    · funext n
      unfold Outline.dispatch
      by_cases hn : n = name
      · subst hn
        simp [hidle]
      · simp [hn]
    · simp [Outline.dispatch, hidle]

theorem Outline.dispatch_cons {o : Outline} {name : String} {names : List String} (h : name ∉ names) :
    (o.dispatch [name]).dispatch names = o.dispatch (name :: names) := by
  have hne : ∀ n ∈ names, n ≠ name := fun n hn heq => h (heq ▸ hn)
  unfold Outline.dispatch
  congr 1
  · funext n
    by_cases hn : n = name
    · subst hn
      simp [h]
    · simp [hn]
  · have hfilter : (names.filter fun n =>
        (if n ∈ [name] ∧ o.progress n = some .idle then some Progress.waiting else o.progress n) = some .idle) =
        names.filter fun n => o.progress n = some .idle :=
      List.filter_congr fun n hn => by simp [hne n hn]
    rw [hfilter]
    by_cases hidle : o.progress name = some .idle
    · simp [hidle]
    · simp [hidle]

theorem outline_foldl_dispatch : ∀ (names : List String) (s : State), names.Nodup →
    (names.foldl dispatch s).outline = s.outline.dispatch names
  | [], s, _ => by simp [Outline.dispatch]
  | name :: names, s, h => by
    obtain ⟨hname, hnd⟩ := List.nodup_cons.1 h
    rw [List.foldl_cons, outline_foldl_dispatch names _ hnd, outline_dispatch, Outline.dispatch_cons hname]

theorem outline_openRound (h : s.ready.Nodup) : s.openRound.outline = s.outline.openRound := by
  have hfailure : s.outline.notice.failure = s.noteCancellation.failure := by
    rw [← outline_noteCancellation]
    rfl
  have hready : s.noteCancellation.ready = s.ready := by
    unfold noteCancellation
    split
    · rfl
    · rfl
  have hclear : ({ s.noteCancellation with ready := [] } : State).outline = { s.outline.notice with ready := [] } := by
    rw [← outline_noteCancellation]
    rfl
  unfold openRound Outline.openRound
  rw [hfailure]
  dsimp only
  by_cases hnone : s.noteCancellation.failure.isNone = true
  · rw [if_pos hnone, if_pos hnone, hready, outline_foldl_dispatch _ _ h, hclear]
    rfl
  · rw [if_neg hnone, if_neg hnone, hclear]

/-! ## The end of a visit -/

variable {w : Walk}

theorem outline_mark (name : String) : s.outline.mark w name = (s.mark w name).map outline := by
  unfold mark Outline.mark
  rw [show s.outline.statuses = s.statuses from rfl]
  cases w.target with
  | none => rfl
  | some status =>
    dsimp only
    split
    · rfl
    · rfl

theorem ready_mark {name : String} {t : State} (h : s.mark w name = .ok t) : t.ready = s.ready := by
  unfold mark at h
  split at h
  · cases h
    rfl
  · split at h
    · cases h
      rfl
    · cases h

theorem outline_conclude (name : String) (error : Option Failure) (h : s.ready = []) :
    (s.conclude w name error).outline = s.outline.conclude w name error := by
  unfold conclude Outline.conclude
  cases error with
  | some cause =>
    have houtline : ((s.trip).record (classify name cause)).outline =
        { s.outline with tripped := true }.record (classify name cause) := by
      rw [outline_record, outline_trip]
    have hready : ((s.trip).record (classify name cause)).ready = [] := by
      rw [show ((s.trip).record (classify name cause)).ready = ((s.trip).record (classify name cause)).outline.ready
        from rfl, houtline]
      exact h
    dsimp only
    rw [outline_openRound (by rw [hready]; exact List.nodup_nil), houtline]
  | none =>
    rw [outline_mark]
    cases hmark : s.mark w name with
    | error f => rfl
    | ok t =>
      have hready : t.ready = [] := (ready_mark hmark).trans h
      dsimp only [Except.map]
      rw [show t.outline.failure = t.failure from rfl]
      by_cases hnone : t.failure.isNone = true
      · have hcounted := outline_foldl_countOff (w.successors name) t (w.nodup_successors name)
        have hnodup : ((w.successors name).foldl countOff t).ready.Nodup := by
          rw [show ((w.successors name).foldl countOff t).ready =
            ((w.successors name).foldl countOff t).outline.ready from rfl, hcounted]
          show (t.ready ++ _).Nodup
          rw [hready, List.nil_append]
          exact (w.nodup_successors name).sublist List.filter_sublist
        rw [if_pos hnone, if_pos hnone, outline_openRound hnodup, hcounted]
      · rw [if_neg hnone, if_neg hnone, outline_openRound (by rw [hready]; exact List.nodup_nil)]

theorem outline_begin (name : String) : (s.begin w name).outline = s.outline.begin name := by
  unfold begin Outline.begin
  rw [outline_note, outline_setStage]
  rfl

theorem outline_finish (name : String) (error : Option Failure) (h : s.ready = []) :
    (s.finish w name error).outline = s.outline.finish w name error := by
  unfold finish Outline.finish
  have hnoted : ((s.setStage name (.ended error)).note (.ended name error)).outline =
      (s.outline.put name (.ended error)).note (.ended name error) := by
    rw [outline_note, outline_setStage]
    rfl
  dsimp only
  split
  · rw [outline_conclude, outline_passSlot, hnoted]
    have hready := congrArg Outline.ready
      (outline_passSlot (s := (s.setStage name (.ended error)).note (.ended name error)))
    exact hready.trans h
  · rw [outline_conclude, hnoted]
    exact h

theorem outline_turnAway (name : String) (h : s.ready = []) :
    (s.turnAway w name).outline = s.outline.turnAway w name := by
  unfold turnAway Outline.turnAway
  rw [outline_conclude, outline_note, outline_setStage]
  · rfl
  · exact h

/-! ## What a step shows -/

theorem progress_of_get? {name : String} {stage : Stage} (h : s.stages.get? name = some stage) :
    s.outline.progress name = some stage.progress := by
  show (s.stages.get? name).map Stage.progress = _
  rw [h]
  rfl

theorem step_enter {name : String} {others : List String} (hready : s.ready = [])
    (h : s.stages.get? name = some .dispatched) : s.outline.Step w (s.enter w name others).outline := by
  have hprogress := progress_of_get? h
  unfold enter
  split
  · rename_i hlimit
    rw [outline_begin]
    exact .begin hprogress (by simp [hlimit])
  · rename_i limit hlimit
    split
    · rename_i hc
      rw [outline_turnAway]
      · exact .turnAway hprogress hc
      · exact hready
    · rename_i hc
      split
      · rw [outline_begin]
        exact .begin hprogress fun _ => Bool.not_eq_true _ ▸ hc
      · exact .of_eq (outline_setStage_of_progress _ h rfl)

theorem step_perform {name : String} {others : List String} {rest : List Action} {action : Action}
    (hready : s.ready = []) (h : s.stages.get? name = some (.running (action :: rest))) :
    s.outline.Step w (s.perform w name others rest action).outline := by
  have hprogress := progress_of_get? h
  have hgo : (s.setStage name (.running rest)).outline = s.outline := outline_setStage_of_progress _ h rfl
  cases action with
  | wait =>
    simp only [perform]
    split
    · exact .of_eq (outline_setStage_of_progress _ h rfl)
    · exact .of_eq (outline_setStage_of_progress _ h rfl)
  | waitCancel =>
    simp only [perform]
    split
    · exact .of_eq hgo
    · exact .of_eq (outline_setStage_of_progress _ h rfl)
  | cancel =>
    simp only [perform]
    rw [outline_cancelCaller, hgo]
    exact .cancel hprogress
  | token =>
    simp only [perform]
    rw [outline_note, hgo]
    exact .token hprogress
  | status other =>
    simp only [perform]
    rw [outline_note, hgo]
    exact .status other hprogress
  | setStatus other status =>
    simp only [perform]
    split
    · rename_i hc
      have hsame :
          ({ s with statuses := s.statuses.modify other fun _ => status }.setStage name (.running rest)).outline =
          { s.outline with statuses := s.outline.statuses.modify other fun _ => status } :=
        outline_setStage_of_progress _ h rfl
      rw [hsame]
      exact .write other status ((s.statuses.contains_iff other).1 hc)
    · rw [outline_finish]
      · exact .finish _ hprogress
      · exact hready
  | log text =>
    simp only [perform]
    rw [outline_note, hgo]
    exact .log text hprogress
  | fail cause =>
    simp only [perform]
    rw [outline_finish]
    · exact .finish _ hprogress
    · exact hready

/-- **Every step of the machine is a step of its outline.** -/
theorem step_outline (w : Walk) (s : State) (hready : s.ready = []) : s.outline.Step w (s.step w).outline := by
  unfold step
  split
  · exact .still
  · rename_i name others hq
    split
    · rename_i h
      exact step_enter hready h
    · rename_i h
      split
      · rename_i hc
        rw [outline_turnAway]
        · exact .turnAway (progress_of_get? h) hc
        · exact hready
      · exact .still
    · rename_i h
      split
      · rename_i hc
        have hpass : ({ s with queue := others } : State).passSlot.outline = s.outline := outline_passSlot
        rw [outline_turnAway, hpass]
        · exact .turnAway (progress_of_get? h) hc
        · exact (congrArg Outline.ready hpass).trans hready
      · rename_i hc
        rw [outline_begin]
        exact .begin (progress_of_get? h) fun _ => Bool.not_eq_true _ ▸ hc
    · rename_i h
      rw [outline_finish]
      · exact .finish _ (progress_of_get? h)
      · exact hready
    · rename_i action rest h
      exact step_perform hready h
    · exact .still

end State

end Rollout
