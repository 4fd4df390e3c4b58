import Rollout.Proofs.Walk.Moves
/-!
What a round does.  As long as there is no failure and no cancellation by the caller, a round puts all that is ready at
the end of the run queue, in order (`State.roster_openRound`).  The first round does so with the seeds of the walk, the
covered services that wait for nothing (`State.roster_openRound_initial`), and a visit that ends well with those it was
the last prerequisite of (`State.roster_conclude_none`).

The machine dispatches one service after the other and skips one that is not idle any more.  No service is ready twice
and what is ready is idle, so nothing is skipped, and the fold is one change of the roster (`Roster.round`).  These
equations are what a run that is followed turn by turn needs, where the chains of moves would say too little: they do
not tell in which order services come into the run queue.
-/
namespace Rollout

/-- The covered services without covered prerequisites. -/
def Walk.seeds (w : Walk) : List String := w.scope.filter fun name => (w.prerequisites name).isEmpty

def Roster.round (r : Roster) (names : List String) : Roster :=
  { r with
    stage := fun n => if n ∈ names then some .dispatched else r.stage n
    queue := r.queue ++ names
    history := (names.map .dispatched).reverse ++ r.history }

namespace State

variable {w : Walk} {s : State} {name : String}

theorem roster_dispatch (h : s.stages.get? name = some .idle) : (s.dispatch name).roster = s.roster.round [name] := by
  unfold dispatch
  rw [h]
  dsimp only
  rw [roster_note, roster_setStage]
  refine Roster.ext ?_ rfl rfl rfl rfl rfl rfl rfl rfl
  funext n
  show (if n = name then (s.stages.get? n).map _ else s.stages.get? n) = if n ∈ [name] then _ else s.stages.get? n
  by_cases hn : n = name
  · subst hn
    simp [h]
  · simp [hn]

theorem Roster.round_cons (r : Roster) (name : String) (names : List String) :
    (r.round [name]).round names = r.round (name :: names) := by
  refine Roster.ext ?_ (List.append_assoc _ _ _) rfl rfl rfl rfl rfl rfl ?_
  · funext n
    unfold Roster.round
    by_cases hn : n = name
    · simp [hn]
    · simp [hn]
  · unfold Roster.round
    simp

theorem roster_foldl_dispatch : ∀ (names : List String) (s : State), names.Nodup →
    (∀ n ∈ names, s.stages.get? n = some .idle) → (names.foldl dispatch s).roster = s.roster.round names
  | [], s, _, _ => by
    refine Roster.ext ?_ (List.append_nil _).symm rfl rfl rfl rfl rfl rfl rfl
    funext n
    simp [Roster.round]
  | name :: names, s, hnd, hidle => by
    obtain ⟨hname, hnd⟩ := List.nodup_cons.1 hnd
    have hfirst := roster_dispatch (hidle name List.mem_cons_self)
    rw [List.foldl_cons, roster_foldl_dispatch names _ hnd, hfirst, Roster.round_cons]
    intro n hn
    have hother : n ∉ [name] := by
      rw [List.mem_singleton]
      rintro rfl
      exact hname hn
    have hstage : (s.dispatch name).roster.stage n = s.roster.stage n := by
      rw [hfirst]
      exact if_neg hother
    exact hstage.trans (hidle n (List.mem_cons_of_mem _ hn))

/-- **A round puts what is ready at the end of the run queue.** -/
theorem roster_openRound (hf : s.failure = none) (hc : s.callerCancelled = false) (hnd : s.ready.Nodup)
    (hidle : ∀ n ∈ s.ready, s.stages.get? n = some .idle) : s.openRound.roster = s.roster.round s.ready := by
  have hnotice : s.noteCancellation = s := by
    unfold noteCancellation
    rw [hc, Bool.and_false, if_neg Bool.false_ne_true]
  unfold openRound
  rw [hnotice]
  dsimp only
  rw [if_pos (by rw [hf]; rfl)]
  exact roster_foldl_dispatch s.ready { s with ready := [] } hnd hidle

/-- **The first round dispatches the seeds.** -/
theorem roster_openRound_initial (hw : w.Sound) (statuses : Table Status) :
    (initial w statuses false).openRound.roster = (initial w statuses false).roster.round w.seeds := by
  refine roster_openRound rfl rfl (hw.nodup.sublist List.filter_sublist) fun n hn => ?_
  have hget := Table.get?_ofNames w.scope (fun _ => Stage.idle) n
  rw [if_pos (List.mem_filter.1 hn).1] at hget
  exact hget

/-- **A visit that ends well dispatches those it was the last prerequisite of.** -/
theorem roster_conclude_none (hready : s.ready = []) (hmark : name ∈ s.statuses.keys) (hf : s.failure = none)
    (hc : s.callerCancelled = false) (hidle : ∀ n ∈ s.outline.lastFor w name, s.stages.get? n = some .idle) :
    (s.conclude w name none).roster =
      Roster.round { s.roster with statuses := w.marked name s.statuses } (s.outline.lastFor w name) := by
  let marked : State := { s with statuses := w.marked name s.statuses }
  have hcounted := outline_foldl_countOff (w.successors name) marked (w.nodup_successors name)
  have hroster : ((w.successors name).foldl countOff marked).roster = marked.roster := roster_foldl_countOff _ _
  have hlast : ((w.successors name).foldl countOff marked).ready = s.outline.lastFor w name := by
    refine (congrArg Outline.ready hcounted).trans ?_
    show s.ready ++ s.outline.lastFor w name = _
    rw [hready, List.nil_append]
  have hconclude : s.conclude w name none = ((w.successors name).foldl countOff marked).openRound := by
    unfold conclude
    dsimp only
    rw [mark_eq_ok hmark]
    dsimp only
    rw [if_pos (by rw [hf]; rfl)]
  have hfailure : ((w.successors name).foldl countOff marked).failure = none :=
    (congrArg Outline.failure hcounted).trans hf
  have hcaller : ((w.successors name).foldl countOff marked).callerCancelled = false :=
    (congrArg Outline.callerCancelled hcounted).trans hc
  have hnodup : (s.outline.lastFor w name).Nodup := (w.nodup_successors name).sublist List.filter_sublist
  have hstages : ∀ n ∈ s.outline.lastFor w name,
      ((w.successors name).foldl countOff marked).stages.get? n = some .idle := fun n hn =>
    (congrFun (congrArg Roster.stage hroster) n).trans (hidle n hn)
  rw [← hlast] at hnodup hstages
  rw [hconclude, roster_openRound hfailure hcaller hnodup hstages, hroster, hlast]
  rfl

/-! ## The first turn of a visit -/

/-- **A visit that is dispatched begins in its turn**, if the token is not cancelled and a slot is free or not
needed. -/
theorem roster_step_dispatched {others : List String} (hq : s.queue = name :: others)
    (h : s.stages.get? name = some .dispatched) (hlive : s.tokenCancelled = false)
    (hfree : w.limit.isSome → 0 < s.free) : (s.step w).roster =
      Roster.begin w { s.roster with free := if w.limit.isSome then s.free - 1 else s.free } name := by
  rw [step_dispatched hq h]
  unfold enter
  cases hlimit : w.limit with
  | none => exact roster_begin name
  | some limit =>
    rw [hlimit] at hfree
    dsimp only
    rw [hlive, if_neg Bool.false_ne_true, if_pos (hfree rfl), roster_begin]
    rfl

end State

end Rollout
