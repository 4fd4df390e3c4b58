import Rollout.Proofs.Traverse.Outcome
import Rollout.Proofs.Walk.Counters
/-!
What the counters of a traversal say about its services.  A service can be found ready only inside of a turn, after a
visit is counted off and before the round opens, and before the first round; so these states are looked at along with
those between the turns (`State.Moment`).  At each of them, while no failure is recorded, a counter is the number of
prerequisites that are left, and sorts its service (`State.Moment.sorts`).

Where a service stands is shown by its visit and by what is left for it: it is not eligible yet, ready, under way, or
done with.  In each state it is at one of these places (`isAt_iff`).  The log of a walk holds the decrements in their
order, and says of each which service it counted and what it left; those that left nothing reported their service as
eligible, and there is one of these for each service with prerequisites that was dispatched (`Decremented`).
-/
namespace Rollout

/-- How far a covered service has come, as far as its counter is concerned. -/
inductive Eligibility where
  | notYet
  | ready
  | inFlight
  | ended
deriving DecidableEq, Repr

def Progress.place (p : Progress) (left : Nat) : Eligibility :=
  match p with
  | idle => if left = 0 then .ready else .notYet
  | waiting => .inFlight
  | underWay => .inFlight
  | ended _ => .ended

namespace State

variable {w : Walk} {s : State} {name : String}

def IsAt (s : State) (name : String) : Eligibility → Prop
  | .notYet => ∃ k, s.unresolved.get? name = some (k + 1)
  | .ready => name ∈ s.ready
  | .inFlight => name ∈ s.inFlight
  | .ended => ∃ error, s.stages.get? name = some (.ended error)

/-- What the counters say, where they say it. -/
structure Sorts (w : Walk) (s : State) : Prop where
  counted : ∀ n ∈ w.scope, s.unresolved.get? n =
    some ((w.prerequisites n).countP fun b => s.stages.get? b ≠ some (.ended none))
  sorted : ∀ n ∈ w.scope, ∃! e, s.IsAt n e

/-! ## From outlines to states -/

theorem progress_eq_ended_iff {error : Option Failure} :
    s.outline.progress name = some (.ended error) ↔ s.stages.get? name = some (.ended error) := by
  show (s.stages.get? name).map Stage.progress = _ ↔ _
  cases s.stages.get? name with
  | none => simp
  | some stage => cases stage <;> simp [Stage.progress]

theorem mem_inFlight_iff_progress : name ∈ s.inFlight ↔
    s.outline.progress name = some .waiting ∨ s.outline.progress name = some .underWay := by
  show _ ↔ (s.stages.get? name).map Stage.progress = _ ∨ (s.stages.get? name).map Stage.progress = _
  rw [mem_inFlight_iff]
  cases s.stages.get? name with
  | none => simp
  | some stage => simp [Stage.inFlight_eq]

theorem isAt_notYet_iff (h : s.outline.Sorted w) (hname : name ∈ w.scope) :
    s.IsAt name .notYet ↔ s.outline.remaining w name ≠ 0 := by
  have hcounted : s.unresolved.get? name = some (s.outline.remaining w name) := h.counted name hname
  unfold IsAt
  simp only [hcounted, Option.some.injEq]
  exact Nat.exists_eq_add_one.trans Nat.pos_iff_ne_zero

theorem isAt_iff (h : s.outline.Sorted w) (hname : name ∈ w.scope) {p : Progress}
    (hp : s.outline.progress name = some p) {e : Eligibility} :
    s.IsAt name e ↔ p.place (s.outline.remaining w name) = e := by
  have hmoved := h.moved name p hp
  cases e with
  | notYet =>
    rw [isAt_notYet_iff h hname]
    cases p with
    | idle => simp [Progress.place]
    | _ => simp [Progress.place, hmoved]
  | ready =>
    have hready : s.IsAt name .ready ↔ _ := h.ready name hname
    rw [hready, hp]
    cases p <;> simp [Progress.place]
  | inFlight =>
    have hinFlight : s.IsAt name .inFlight ↔ _ := mem_inFlight_iff_progress
    rw [hinFlight, hp]
    cases p with
    | idle => by_cases hzero : s.outline.remaining w name = 0 <;> simp [Progress.place, hzero]
    | _ => simp [Progress.place]
  | ended =>
    have hended : s.IsAt name .ended ↔ ∃ error, s.outline.progress name = some (.ended error) :=
      exists_congr fun error => progress_eq_ended_iff.symm
    rw [hended, hp]
    cases p with
    | idle => by_cases hzero : s.outline.remaining w name = 0 <;> simp [Progress.place, hzero]
    | _ => simp [Progress.place]

/-- **What is sorted in the outline is sorted in the state.** -/
theorem sorts_of_sorted (h : s.outline.Sorted w) : s.Sorts w := by
  refine ⟨fun n hn => (h.counted n hn).trans (congrArg some ?_), fun n hn => ?_⟩
  · refine List.countP_congr fun b _ => ?_
    rw [decide_eq_true_eq, decide_eq_true_eq]
    exact not_congr progress_eq_ended_iff
  · obtain ⟨p, hp⟩ := Option.ne_none_iff_exists'.1 (h.covered n hn)
    exact ⟨p.place (s.outline.remaining w n), (isAt_iff h hn hp).2 rfl, fun e he => ((isAt_iff h hn hp).1 he).symm⟩

/-! ## The states that are looked at -/

variable {statuses : Table Status} {callerCancelled : Bool} {acts : List Outside} {log : List (String × Option Nat)}

/-- A state between the turns of a walk, or one right before a round opens. -/
inductive Moment (w : Walk) (statuses : Table Status) (callerCancelled : Bool) : State → Prop where
  | between {acts : List Outside} {s : State} : Reached w statuses callerCancelled acts s →
      Moment w statuses callerCancelled s
  | first : Moment w statuses callerCancelled (initial w statuses callerCancelled)
  | round {acts : List Outside} {s : State} {name : String} {others : List String} :
      Reached w statuses callerCancelled acts s → s.failure = none → s.endsWell? = some (name, others) →
      Moment w statuses callerCancelled (s.beforeRound w name others)

/-- **The counters sort the services in every state**, while no failure is recorded. -/
theorem Moment.sorts (hw : w.Sound) (hst : ∀ n ∈ w.scope, n ∈ statuses.keys) (h : Moment w statuses callerCancelled s)
    (hf : s.failure = none) : s.Sorts w := by
  refine sorts_of_sorted ?_
  cases h with
  | between h => exact (h.balanced hw hst).sorted (h.tidy hw hst) hf
  | first =>
    rw [outline_initial]
    exact Outline.sorted_initial statuses callerCancelled
  | round h hnone hends =>
    rw [outline_beforeRound]
    exact (h.balanced hw hst).sorted_beforeRound (h.tidy hw hst) hnone (underWay_of_endsWell? hends)

/-! ## The decrements -/

def reported (log : List (String × Option Nat)) : List String := (log.filter fun e => e.2 = some 1).map Prod.fst

/-- What the log of a walk says of its decrements. -/
structure Decremented (w : Walk) (log : List (String × Option Nat)) (s : State) : Prop extends CountsDown w log s where
  positive : ∀ n met, (n, met) ∈ log → ∃ k, met = some (k + 1)
  /-- A service with prerequisites is reported once, by the time that its counter is zero. -/
  reports : ∀ n ∈ w.scope, w.prerequisites n ≠ [] →
    log.count (n, some 1) = if s.unresolved.get? n = some 0 then 1 else 0
  /-- In a walk that ends well all of them are reported. -/
  complete : s.done = true → s.failure = none → ∀ n ∈ w.scope, w.prerequisites n ≠ [] → log.count (n, some 1) = 1
  /-- What is reported is what is ready when the next round opens. -/
  ready : ∀ name others, s.failure = none → s.endsWell? = some (name, others) →
    (s.beforeRound w name others).ready = reported (s.counts w) ∧ s.step w = (s.beforeRound w name others).openRound

theorem reported_map (f : String → Option Nat) (names : List String) :
    reported (names.map fun n => (n, f n)) = names.filter fun n => f n = some 1 := by
  unfold reported
  rw [List.filter_map, List.map_map]
  exact List.map_id' _

theorem Counted.decremented (hw : w.Sound) (hst : ∀ n ∈ w.scope, n ∈ statuses.keys)
    (h : Counted w statuses callerCancelled acts log s) : Decremented w log s where
  toCountsDown := h.countsDown hw hst
  positive := fun _ _ => (h.countsDown hw hst).positive
  reports := fun _ => (h.countsDown hw hst).reports
  complete := fun hdone hf n hn hne => by
    have hended := h.reached.ended_of_done hw hst hdone hf
    have hzero : s.outline.remaining w n = 0 :=
      Outline.remaining_eq_zero_iff.2 fun b hb => hended b (Walk.mem_prerequisites_iff.1 hb).2
    have hcounter : s.unresolved.get? n = some 0 :=
      ((h.reached.balanced hw hst).counted hf n hn).trans (congrArg some hzero)
    rw [(h.countsDown hw hst).reports hn hne, if_pos hcounter]
  ready := fun name others hf hends => by
    have htidy := h.reached.tidy hw hst
    have hmark := htidy.marked name (htidy.mem_scope (underWay_of_endsWell? hends))
    refine ⟨?_, ?_⟩
    · rw [ready_beforeRound htidy.ready, counts_of_endsWell? hends hf, reported_map]
    · rw [step_of_endsWell? hends hmark, if_pos hf]

end State

namespace Deployment

variable {d : Deployment} {t : Traversal}

/-- **The counters of a traversal say how many prerequisites are left.**  While no failure is recorded they sort the
services it covers; each decrement meets a counter that is positive, and one for each service with prerequisites
reports that the service is ready. -/
theorem traverse_counters (hd : d.Sound) (ht : t.Known d.graph) (limit : Option Limit) (visitor : Visitor)
    (callerCancelled : Bool) :
    ∃ w, t.walk d.graph limit visitor = .ok w ∧ (∀ name, name ∈ w.scope ↔ t.Covers d.graph name) ∧
      (∀ s, State.Moment w d.statuses callerCancelled s → s.failure = none → s.Sorts w) ∧
      ∀ acts s, State.Reached w d.statuses callerCancelled acts s →
        (∃ log, State.Counted w d.statuses callerCancelled acts log s) ∧
          ∀ log, State.Counted w d.statuses callerCancelled acts log s → State.Decremented w log s := by
  obtain ⟨w, hwalk, hw, -, -, -, hmem, hst⟩ := hd.exists_walk ht limit visitor
  refine ⟨w, hwalk, hmem, fun s h hf => h.sorts hw hst hf, fun acts s h => ⟨h.exists_counted, fun log hlog => ?_⟩⟩
  exact hlog.decremented hw hst

theorem traverse_counters_pair : ∃ w log s, Traversal.forward.walk pair.graph none (fun _ => []) = .ok w ∧
    State.Counted w pair.statuses false [] log s ∧ s.failure = none ∧ s.unresolved.get? "api" = some 0 ∧
    log.count ("api", some 1) = 1 ∧ ∃! e, s.IsAt "api" e := by
  obtain ⟨w, hwalk, -, hsorts, hlogs⟩ := traverse_counters (t := .forward) sound_pair nofun none (fun _ => []) false
  have hlog : State.Counted w pair.statuses false _ _ _ := State.Counted.first.turn.turn
  have hdecremented := (hlogs _ _ hlog.reached).2 _ hlog
  obtain rfl := Except.ok.inj (hwalk.symm.trans rfl)
  have hreports := hdecremented.reports "api" (by decide +kernel) (by decide +kernel)
  refine ⟨_, _, _, hwalk, hlog, by decide +kernel, by decide +kernel, hreports.trans (by decide +kernel), ?_⟩
  exact (hsorts _ (.between hlog.reached) (by decide +kernel)).sorted "api" (by decide +kernel)

end Deployment

end Rollout
