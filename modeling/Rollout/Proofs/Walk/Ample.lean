import Rollout.Proofs.Walk.Late
import Rollout.Proofs.Walk.Rests
/-!
A limit that is never felt.  If there are as many slots as services to visit, a visit that asks for a slot finds one, so
as long as nothing is cancelled a limited walk takes the same turns as one without a limit, and their states differ in
the count of the free slots alone (`step_withFree`).

The two runs are taken side by side (`Paired`).  A state and a number of free slots give the other state (`withFree`),
and each function of the machine that does not concern slots gives the same on both; the ones that do are the first turn
of a visit and the end of one.  A visit that asks for a slot has none itself, so the others do not hold them all
(`Paired.free_pos`).  From a turn the pairing goes on to a whole rest and to the phases of a script (`Paired.settle`,
`Paired.phases`), as long as neither run has been disturbed; a run that goes on to an undisturbed state was undisturbed
before.
-/
namespace Rollout

def Walk.within (w : Walk) (limit : Limit) : Walk := { w with limit := some limit }

theorem Walk.Sound.within {w : Walk} (hw : w.Sound) (limit : Limit) : (w.within limit).Sound :=
  ⟨hw.accepted, hw.ascending, hw.services, hw.dependents⟩

namespace State

def withFree (s : State) (free : Nat) : State := { s with free := free }

variable {w : Walk} {limit : Limit} {s : State} {f : Nat} {name : String}

/-! ## What does not look at the free slots -/

theorem enqueue_withFree (name : String) : (s.withFree f).enqueue name = (s.enqueue name).withFree f := by
  unfold enqueue
  rw [show (s.withFree f).queue = s.queue from rfl]
  split
  · rfl
  · rfl

theorem record_withFree (failure : Failure) : (s.withFree f).record failure = (s.record failure).withFree f := by
  unfold record
  rw [show (s.withFree f).failure = s.failure from rfl]
  split
  · rfl
  · split
    · rfl
    · rfl

theorem noteCancellation_withFree : (s.withFree f).noteCancellation = s.noteCancellation.withFree f := by
  unfold noteCancellation
  rw [show (s.withFree f).failure = s.failure from rfl,
    show (s.withFree f).callerCancelled = s.callerCancelled from rfl]
  split
  · rfl
  · rfl

theorem wake_withFree (name : String) : (s.withFree f).wake name = (s.wake name).withFree f := by
  unfold wake
  rw [show (s.withFree f).stages = s.stages from rfl]
  split
  · exact enqueue_withFree (s := s.setStage name _) name
  · exact enqueue_withFree name

theorem foldl_wake_withFree : ∀ (names : List String) (s : State),
    names.foldl wake (s.withFree f) = (names.foldl wake s).withFree f
  | [], _ => rfl
  | name :: names, s => by rw [List.foldl_cons, List.foldl_cons, wake_withFree, foldl_wake_withFree names]

theorem wakeAll_withFree : (s.withFree f).wakeAll = s.wakeAll.withFree f :=
  foldl_wake_withFree s.cancelQueue { s with cancelQueue := [] }

theorem cancelCaller_withFree : (s.withFree f).cancelCaller = s.cancelCaller.withFree f := by
  unfold cancelCaller
  rw [show (s.withFree f).callerCancelled = s.callerCancelled from rfl]
  split
  · rfl
  · exact wakeAll_withFree (s := { s with callerCancelled := true }.note .cancelled)

theorem trip_withFree : (s.withFree f).trip = s.trip.withFree f := wakeAll_withFree (s := { s with tripped := true })

theorem countOff_withFree (name : String) : (s.withFree f).countOff name = (s.countOff name).withFree f := by
  unfold countOff
  rw [show (s.withFree f).unresolved = s.unresolved from rfl]
  split
  · rfl
  · rfl
  · rfl

theorem foldl_countOff_withFree : ∀ (names : List String) (s : State),
    names.foldl countOff (s.withFree f) = (names.foldl countOff s).withFree f
  | [], _ => rfl
  | name :: names, s => by rw [List.foldl_cons, List.foldl_cons, countOff_withFree, foldl_countOff_withFree names]

theorem dispatch_withFree (name : String) : (s.withFree f).dispatch name = (s.dispatch name).withFree f := by
  unfold dispatch
  rw [show (s.withFree f).stages = s.stages from rfl]
  split
  · rfl
  · rfl

theorem foldl_dispatch_withFree : ∀ (names : List String) (s : State),
    names.foldl dispatch (s.withFree f) = (names.foldl dispatch s).withFree f
  | [], _ => rfl
  | name :: names, s => by rw [List.foldl_cons, List.foldl_cons, dispatch_withFree, foldl_dispatch_withFree names]

theorem openRound_withFree : (s.withFree f).openRound = s.openRound.withFree f := by
  unfold openRound
  rw [noteCancellation_withFree]
  dsimp only
  rw [show (s.noteCancellation.withFree f).failure = s.noteCancellation.failure from rfl]
  split
  · exact foldl_dispatch_withFree s.noteCancellation.ready { s.noteCancellation with ready := [] }
  · rfl

theorem mark_withFree (name : String) :
    (s.withFree f).mark (w.within limit) name = (s.mark w name).map fun t => t.withFree f := by
  unfold mark
  rw [show (w.within limit).target = w.target from rfl, show (s.withFree f).statuses = s.statuses from rfl]
  split
  · rfl
  · split
    · rfl
    · rfl

theorem conclude_withFree (error : Option Failure) :
    (s.withFree f).conclude (w.within limit) name error = (s.conclude w name error).withFree f := by
  unfold conclude
  cases error with
  | some cause =>
    dsimp only
    rw [trip_withFree, record_withFree, openRound_withFree]
  | none =>
    dsimp only
    rw [mark_withFree]
    cases s.mark w name with
    | error failure => rfl
    | ok t =>
      show openRound (if (t.withFree f).failure.isNone then (w.successors name).foldl countOff (t.withFree f)
        else t.withFree f) = _
      rw [show (t.withFree f).failure = t.failure from rfl]
      dsimp only
      split
      · rw [foldl_countOff_withFree, openRound_withFree]
      · exact openRound_withFree

theorem play_withFree (act : Outside) : (s.withFree f).play act = (s.play act).withFree f := by
  cases act with
  | release service =>
    unfold play
    rw [show (s.withFree f).stages = s.stages from rfl]
    dsimp only
    split
    · exact enqueue_withFree (s := s.setStage service _) service
    · rfl
  | cancel => exact cancelCaller_withFree
  | setStatus service status => rfl

theorem foldl_play_withFree : ∀ (acts : List Outside) (s : State),
    acts.foldl play (s.withFree f) = (acts.foldl play s).withFree f
  | [], _ => rfl
  | act :: acts, s => by rw [List.foldl_cons, List.foldl_cons, play_withFree, foldl_play_withFree acts]

/-! ## Turns -/

theorem passSlot_withFree (hline : s.slotQueue = []) : (s.withFree f).passSlot = s.withFree (f + 1) := by
  unfold passSlot
  split
  · rfl
  · rename_i next rest hcons
    cases hcons.symm.trans hline

theorem finish_withFree (hnone : w.limit = none) (hline : s.slotQueue = []) (error : Option Failure) :
    (s.withFree f).finish (w.within limit) name error = (s.finish w name error).withFree (f + 1) := by
  have hended : (((s.withFree f).setStage name (.ended error)).note (.ended name error)).passSlot =
      ((s.setStage name (.ended error)).note (.ended name error)).withFree (f + 1) :=
    passSlot_withFree (s := (s.setStage name (.ended error)).note (.ended name error)) hline
  have hunlimited : w.limit.isSome = false := by
    rw [hnone]
    rfl
  unfold finish
  dsimp only
  rw [hunlimited, if_neg Bool.false_ne_true, if_pos (show (w.within limit).limit.isSome = true from rfl), hended,
    conclude_withFree]

theorem perform_withFree (hnone : w.limit = none) (hline : s.slotQueue = []) (others : List String)
    (rest : List Action) (action : Action) :
    ∃ f', (s.withFree f).perform (w.within limit) name others rest action =
      (s.perform w name others rest action).withFree f' := by
  cases action with
  | wait =>
    refine ⟨f, ?_⟩
    simp only [perform]
    rw [show (s.withFree f).releases = s.releases from rfl]
    split
    · rfl
    · rfl
  | waitCancel =>
    refine ⟨f, ?_⟩
    simp only [perform]
    rw [show (s.withFree f).tokenCancelled = s.tokenCancelled from rfl]
    split
    · rfl
    · rfl
  | cancel => exact ⟨f, cancelCaller_withFree (s := s.setStage name (.running rest))⟩
  | token => exact ⟨f, rfl⟩
  | status other => exact ⟨f, rfl⟩
  | setStatus other status =>
    simp only [perform]
    rw [show (s.withFree f).statuses = s.statuses from rfl]
    split
    · exact ⟨f, rfl⟩
    · exact ⟨f + 1, finish_withFree (s := { s with queue := others }) hnone hline _⟩
  | log text => exact ⟨f, rfl⟩
  | fail cause =>
    simp only [perform]
    exact ⟨f + 1, finish_withFree (s := { s with queue := others }) hnone hline _⟩

/-- **A limited walk takes the same turn as one without a limit**, as long as nothing is cancelled and a visit that asks
for a slot finds one. -/
theorem step_withFree (hnone : w.limit = none) (hline : s.slotQueue = [])
    (hwaits : ∀ n, s.stages.get? n ≠ some .awaitingSlot ∧ s.stages.get? n ≠ some .granted)
    (hlive : s.tokenCancelled = false) (hfree : ∀ n, s.stages.get? n = some .dispatched → 0 < f) :
    ∃ f', (s.withFree f).step (w.within limit) = (s.step w).withFree f' := by
  unfold step
  rw [show (s.withFree f).queue = s.queue from rfl, show (s.withFree f).stages = s.stages from rfl]
  cases s.queue with
  | nil => exact ⟨f, rfl⟩
  | cons name others =>
    dsimp only
    cases hstage : s.stages.get? name with
    | none => exact ⟨f, rfl⟩
    | some stage =>
      cases stage with
      | dispatched =>
        refine ⟨f - 1, ?_⟩
        dsimp only
        unfold enter
        rw [hnone]
        show (if s.tokenCancelled = true then _ else if 0 < f then _ else _) = _
        rw [hlive, if_neg Bool.false_ne_true, if_pos (hfree name hstage)]
        rfl
      | awaitingSlot => exact absurd hstage (hwaits name).1
      | granted => exact absurd hstage (hwaits name).2
      | running rest =>
        cases rest with
        | nil => exact ⟨f + 1, finish_withFree (s := { s with queue := others }) hnone hline none⟩
        | cons action rest => exact perform_withFree hnone hline others rest action
      | _ => exact ⟨f, rfl⟩

/-! ## Both walks side by side -/

variable {statuses : Table Status} {callerCancelled : Bool} {acts more more' : List Outside} {t t' : State}

/-- With and without the limit, a walk reaches states that differ in the free slots alone. -/
structure Paired (w : Walk) (limit : Limit) (statuses : Table Status) (callerCancelled : Bool) (acts : List Outside)
    (s : State) (free : Nat) : Prop where
  plain : Reached w statuses callerCancelled acts s
  limited : Reached (w.within limit) statuses callerCancelled acts (s.withFree free)

theorem paired_initial (w : Walk) (limit : Limit) (statuses : Table Status) (callerCancelled : Bool) :
    Paired w limit statuses callerCancelled [] (initial w statuses callerCancelled).openRound limit.slots := by
  have hfirst : initial (w.within limit) statuses callerCancelled =
      (initial w statuses callerCancelled).withFree limit.slots := rfl
  refine ⟨.refl, ?_⟩
  unfold Reached
  rw [hfirst, openRound_withFree]
  exact .refl

theorem Paired.runs (h : Paired w limit statuses callerCancelled acts s f) {f' : Nat} (hrun : Runs w s more t)
    (hrun' : Runs (w.within limit) (s.withFree f) more (t.withFree f')) :
    Paired w limit statuses callerCancelled (acts ++ more) t f' := ⟨h.plain.trans hrun, h.limited.trans hrun'⟩

theorem Paired.undisturbed (h : Paired w limit statuses callerCancelled acts s f) (hw : w.Sound)
    (hst : ∀ n ∈ w.scope, n ∈ statuses.keys) (hrun : Runs w s more t)
    (hrun' : Runs (w.within limit) (s.withFree f) more' t')
    (hquiet : ¬ Disturbed t.history ∨ ¬ Disturbed t'.history) : ¬ Disturbed s.history := by
  intro hdisturbed
  rcases hquiet with hquiet | hquiet
  · exact hquiet (h.plain.disturbed_of_runs hw hst hrun hdisturbed)
  · exact hquiet (h.limited.disturbed_of_runs (hw.within limit) hst hrun' hdisturbed)

theorem Paired.free_pos (h : Paired w limit statuses callerCancelled acts s f) (hw : w.Sound)
    (hst : ∀ n ∈ w.scope, n ∈ statuses.keys) (hample : w.scope.length ≤ limit.slots) {n : String}
    (hn : s.stages.get? n = some .dispatched) : 0 < f := by
  have htotal : f + (s.withFree f).roster.held (w.within limit) = limit.slots :=
    (h.limited.shared (hw.within limit) hst rfl).total
  have hcovered : n ∈ w.scope := (h.plain.placed hw hst).covered n _ hn
  have hless : (s.withFree f).roster.held (w.within limit) < w.scope.length := by
    refine Nat.lt_of_le_of_ne List.countP_le_length fun hall => ?_
    have hholds := List.countP_eq_length.1 hall n hcovered
    rw [show (s.withFree f).roster.stage n = some .dispatched from hn] at hholds
    cases hholds
  omega

theorem Paired.step (h : Paired w limit statuses callerCancelled acts s f) (hw : w.Sound)
    (hst : ∀ n ∈ w.scope, n ∈ statuses.keys) (hnone : w.limit = none) (hample : w.scope.length ≤ limit.slots)
    (hquiet : ¬ Disturbed s.history) : ∃ f', (s.withFree f).step (w.within limit) = (s.step w).withFree f' := by
  have hplaced := h.plain.placed hw hst
  have hunlimited : ¬ w.limit.isSome := by simp [hnone]
  have hwaits : ∀ n, s.stages.get? n ≠ some .awaitingSlot ∧ s.stages.get? n ≠ some .granted := fun n =>
    ⟨fun hn => hunlimited (hplaced.fits n _ hn).1, fun hn => hunlimited (hplaced.fits n _ hn).1⟩
  have hline : s.slotQueue = [] := List.eq_nil_iff_forall_not_mem.2 fun n hn => (hwaits n).1 (hplaced.lined n hn)
  have hlive : s.tokenCancelled = false :=
    Bool.eq_false_iff.2 fun htoken => hquiet ((h.plain.tokenCancelled_iff hw hst).1 htoken)
  exact step_withFree hnone hline hwaits hlive fun n hn => h.free_pos hw hst hample hn

/-- **Both walks come to the same rest.** -/
theorem Paired.settle (h : Paired w limit statuses callerCancelled acts s f) (hw : w.Sound)
    (hst : ∀ n ∈ w.scope, n ∈ statuses.keys) (hnone : w.limit = none) (hample : w.scope.length ≤ limit.slots)
    (hquiet : ¬ Disturbed (s.settle w).history ∨ ¬ Disturbed ((s.withFree f).settle (w.within limit)).history) :
    ∃ f', (s.withFree f).settle (w.within limit) = (s.settle w).withFree f' := by
  fun_induction State.settle w s generalizing f with
  | case1 s hqueue =>
    refine ⟨f, ?_⟩
    unfold State.settle
    rw [if_pos (show (s.withFree f).queue = [] from hqueue)]
    exact noteCancellation_withFree
  | case2 s hqueue ih =>
    have hturn : (s.withFree f).settle (w.within limit) =
        ((s.withFree f).step (w.within limit)).settle (w.within limit) := by
      conv_lhs => unfold State.settle
      exact if_neg hqueue
    have hundisturbed : ¬ Disturbed s.history :=
      h.undisturbed hw hst ((Runs.turn .refl).trans (runs_settle w _)) (runs_settle _ _) hquiet
    obtain ⟨f', hstep⟩ := h.step hw hst hnone hample hundisturbed
    rw [hturn, hstep] at hquiet ⊢
    have hnext : Paired w limit statuses callerCancelled acts (s.step w) f' := ⟨h.plain.turn, hstep ▸ h.limited.turn⟩
    exact ih hnext hquiet

theorem Paired.resume (h : Paired w limit statuses callerCancelled acts s f) (hw : w.Sound)
    (hst : ∀ n ∈ w.scope, n ∈ statuses.keys) (hnone : w.limit = none) (hample : w.scope.length ≤ limit.slots)
    (hdone : s.done = false)
    (hquiet : ¬ Disturbed (s.resume w more).history ∨
      ¬ Disturbed ((s.withFree f).resume (w.within limit) more).history) :
    ∃ f', (s.withFree f).resume (w.within limit) more = (s.resume w more).withFree f' := by
  unfold State.resume at hquiet ⊢
  rw [foldl_play_withFree, noteCancellation_withFree] at hquiet ⊢
  have hplayed : Paired w limit statuses callerCancelled (acts ++ more) (more.foldl play s).noteCancellation f := by
    refine h.runs (runs_foldl_play more s hdone).notice ?_
    rw [← noteCancellation_withFree, ← foldl_play_withFree]
    exact (runs_foldl_play more (s.withFree f) hdone).notice
  exact hplayed.settle hw hst hnone hample hquiet

theorem start_within (hw : w.Sound) (hst : ∀ n ∈ w.scope, n ∈ statuses.keys) (hnone : w.limit = none)
    (hample : w.scope.length ≤ limit.slots)
    (hquiet : ¬ Disturbed (start w statuses callerCancelled).history ∨
      ¬ Disturbed (start (w.within limit) statuses callerCancelled).history) :
    ∃ f, start (w.within limit) statuses callerCancelled = (start w statuses callerCancelled).withFree f ∧
      Paired w limit statuses callerCancelled [] (start w statuses callerCancelled) f := by
  have hfirst : start (w.within limit) statuses callerCancelled =
      ((initial w statuses callerCancelled).openRound.withFree limit.slots).settle (w.within limit) := by
    rw [← openRound_withFree]
    rfl
  rw [hfirst] at hquiet ⊢
  obtain ⟨f, hsettle⟩ := (paired_initial w limit statuses callerCancelled).settle hw hst hnone hample hquiet
  refine ⟨f, hsettle, (paired_initial w limit statuses callerCancelled).runs (runs_settle w _) ?_⟩
  rw [show start w statuses callerCancelled = ((initial w statuses callerCancelled).openRound).settle w from rfl,
    ← hsettle]
  exact runs_settle _ _

/-- **Both walks show the same phases**, and are left in states that differ in the free slots alone. -/
theorem Paired.phases (hw : w.Sound) (hst : ∀ n ∈ w.scope, n ∈ statuses.keys) (hnone : w.limit = none)
    (hample : w.scope.length ≤ limit.slots) :
    ∀ (script : Script) (s : State) (f : Nat) (acts : List Outside) (seen : Nat),
      Paired w limit statuses callerCancelled acts s f →
      ¬ Disturbed (s.last w script).history ∨ ¬ Disturbed ((s.withFree f).last (w.within limit) script).history →
      State.phases seen ((s.withFree f).rests (w.within limit) script) = State.phases seen (s.rests w script) ∧
        ∃ f', (s.withFree f).last (w.within limit) script = (s.last w script).withFree f'
  | [], _, f, _, _, _, _ => ⟨rfl, f, rfl⟩
  | more :: script, s, f, acts, seen, h, hquiet => by
    cases hdone : s.done with
    | true =>
      have hdone' : (s.withFree f).done = true := hdone
      rw [rests_of_done hdone, rests_of_done hdone', last_of_done hdone, last_of_done hdone']
      exact ⟨rfl, f, rfl⟩
    | false =>
      have hdone' : (s.withFree f).done = false := hdone
      rw [last_cons hdone, last_cons hdone'] at hquiet ⊢
      have hrun : Runs w s more (s.resume w more) := runs_resume hdone
      have hrun' : Runs (w.within limit) (s.withFree f) more ((s.withFree f).resume (w.within limit) more) :=
        runs_resume hdone'
      -- neither walk is disturbed at the next rest, as one of them is not at the last
      have hresumed : ¬ Disturbed (s.resume w more).history ∨
          ¬ Disturbed ((s.withFree f).resume (w.within limit) more).history := by
        have hplain : Reached w statuses callerCancelled _ (s.resume w more) := h.plain.trans hrun
        have hlimited : Reached (w.within limit) statuses callerCancelled _ _ := h.limited.trans hrun'
        exact hquiet.imp (mt (hplain.disturbed_of_runs hw hst (runs_last script _)))
          (mt (hlimited.disturbed_of_runs (hw.within limit) hst (runs_last script _)))
      obtain ⟨f', hresume⟩ := h.resume hw hst hnone hample hdone hresumed
      rw [hresume] at hquiet hrun' ⊢
      have hnext := Paired.phases hw hst hnone hample script (s.resume w more) f' (acts ++ more) s.history.length
        (h.runs hrun hrun') hquiet
      rw [rests_cons hdone, rests_cons hdone', phases_cons, phases_cons, hresume]
      exact ⟨congrArg (_ :: ·) hnext.1, hnext.2⟩

end State

end Rollout
