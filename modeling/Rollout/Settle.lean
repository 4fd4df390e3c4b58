import Rollout.Walk
/-!
Running the machine of a walk to rest.  Each step lowers the effort that is left (`effort_step_lt`), so `State.settle`
needs no bound from outside.

The effort counts what each visit still has to go through, one more for every action that is still to be done, and the
places in the run queue and in the line for a cancellation.  A visit that is woken leaves the second for the first, and
whatever else puts a visit into the run queue moves it on by one stage.

Each operation has a lemma that says what it costs at most.  Most of them cost nothing; the end of a visit that was
under way or in line pays for its place at the head of the queue and for everything that it sets off, since a wake-up
only moves others from one line into another and a dispatch moves a visit on (`effort_finish_lt`, `effort_turnAway_lt`).
A visit at rest in the queue would be a loop without end; that there is none is the last case of `effort_step_lt`, in
which the visit leaves the queue.
-/
namespace Rollout

/-- What a visit still has to go through, when its visitor has `actions` to do. -/
def Stage.effort (actions : Nat) : Stage → Nat
  | idle => actions + 5
  | dispatched => actions + 4
  | awaitingSlot => actions + 3
  | granted => actions + 2
  | running rest => rest.length + 1
  | awaitingRelease rest => rest.length + 1
  | awaitingCancel rest => rest.length + 1
  | ended _ => 0

@[simp] theorem Stage.effort_ended (actions : Nat) (error : Option Failure) :
    (Stage.ended error).effort actions = 0 := rfl

@[simp] theorem Stage.effort_running (actions : Nat) (rest : List Action) :
    (Stage.running rest).effort actions = rest.length + 1 := rfl

namespace State

def total {α : Type} (weight : String → α → Nat) : List (String × α) → Nat
  | [] => 0
  | (name, value) :: rest => weight name value + total weight rest

/-- What the visits still have to go through. -/
def visitEffort (w : Walk) (s : State) : Nat :=
  total (fun name stage => stage.effort (w.visitor name).length) s.stages.entries

def effort (w : Walk) (s : State) : Nat := s.visitEffort w + s.queue.length + s.cancelQueue.length

theorem total_modify {α : Type} (weight : String → α → Nat) (name : String) (f : α → α) {old : α} :
    ∀ (l : List (String × α)), Ascending (l.map Prod.fst) → l.lookup name = some old →
      total weight (l.map fun e => (e.1, if e.1 = name then f e.2 else e.2)) + weight name old =
        total weight l + weight name (f old)
  | [], _, h => by simp at h
  | (n, v) :: l, hasc, h => by
    simp only [List.map_cons] at hasc
    obtain ⟨hn, hl⟩ := List.pairwise_cons.1 hasc
    rw [Table.lookup_cons_ite] at h
    by_cases hname : name = n
    · subst hname
      simp only [if_true, Option.some.injEq] at h
      subst h
      have hid : (l.map fun e => (e.1, if e.1 = name then f e.2 else e.2)) = l := by
        conv => rhs; rw [← List.map_id l]
        refine List.map_congr_left fun e he => ?_
        have hne : e.1 ≠ name := fun heq =>
          String.lt_irrefl name (hn name (heq ▸ List.mem_map_of_mem he))
        simp [hne]
      rw [List.map_cons, hid]
      simp only [if_true, total]
      omega
    · rw [if_neg hname] at h
      have ih := total_modify weight name f l hl h
      simp only [List.map_cons, total, if_neg (Ne.symm hname)]
      omega

theorem visitEffort_setStage (w : Walk) (s : State) (name : String) (stage : Stage) {old : Stage}
    (h : s.stages.get? name = some old) :
    (s.setStage name stage).visitEffort w + old.effort (w.visitor name).length =
      s.visitEffort w + stage.effort (w.visitor name).length := by
  have := total_modify (fun n (v : Stage) => v.effort (w.visitor n).length) name (fun _ => stage)
    s.stages.entries s.stages.ascending h
  exact this

/-! ## What the small changes cost -/

variable {w : Walk} {s : State}

theorem effort_note (e : Event) : (s.note e).effort w = s.effort w := rfl

theorem effort_setStage_le (stage : Stage) {name : String} {old : Stage} {n : Nat} (h : s.stages.get? name = some old)
    (hle : stage.effort (w.visitor name).length + n ≤ old.effort (w.visitor name).length) :
    (s.setStage name stage).effort w + n ≤ s.effort w := by
  have := visitEffort_setStage w s name stage h
  have hq : (s.setStage name stage).queue = s.queue := rfl
  have hc : (s.setStage name stage).cancelQueue = s.cancelQueue := rfl
  unfold effort
  rw [hq, hc]
  omega

theorem effort_enqueue_le (name : String) : (s.enqueue name).effort w ≤ s.effort w + 1 := by
  unfold enqueue
  split
  · omega
  · simp [effort, visitEffort]
    omega

theorem effort_record (f : Failure) : (s.record f).effort w = s.effort w := by
  unfold record
  split
  · rfl
  · split <;> rfl

theorem effort_noteCancellation : s.noteCancellation.effort w = s.effort w := by
  unfold noteCancellation
  split <;> rfl

theorem effort_wake_le (name : String) : (s.wake name).effort w ≤ s.effort w + 1 := by
  unfold wake
  split
  · next rest h =>
    have := effort_enqueue_le (w := w) (s := s.setStage name (.running rest)) name
    have := effort_setStage_le (w := w) (.running rest) (n := 0) h (by simp [Stage.effort])
    omega
  · exact effort_enqueue_le name

theorem effort_foldl_wake_le (names : List String) : (names.foldl wake s).effort w ≤ s.effort w + names.length := by
  induction names generalizing s with
  | nil => simp
  | cons name names ih =>
    have h₁ := ih (s := s.wake name)
    have h₂ := effort_wake_le (w := w) (s := s) name
    simp only [List.foldl_cons, List.length_cons]
    omega

theorem effort_wakeAll_le : s.wakeAll.effort w ≤ s.effort w := by
  have := effort_foldl_wake_le (w := w) (s := { s with cancelQueue := [] }) s.cancelQueue
  have h : ({ s with cancelQueue := [] } : State).effort w + s.cancelQueue.length = s.effort w := by
    simp [effort, visitEffort]
  unfold wakeAll
  omega

theorem effort_cancelCaller_le : s.cancelCaller.effort w ≤ s.effort w := by
  unfold cancelCaller
  split
  · omega
  · exact effort_wakeAll_le

theorem effort_trip_le : s.trip.effort w ≤ s.effort w := effort_wakeAll_le

theorem effort_countOff (name : String) : (s.countOff name).effort w = s.effort w := by
  unfold countOff
  split <;> rfl

theorem effort_foldl_countOff (names : List String) : (names.foldl countOff s).effort w = s.effort w := by
  induction names generalizing s with
  | nil => rfl
  | cons name names ih => rw [List.foldl_cons, ih, effort_countOff]

theorem effort_dispatch_le (name : String) : (s.dispatch name).effort w ≤ s.effort w := by
  unfold dispatch
  split
  · next h =>
    have := effort_setStage_le (w := w) (s := { s with queue := s.queue ++ [name] }) .dispatched (n := 1) h
      (by simp [Stage.effort])
    have hq : ({ s with queue := s.queue ++ [name] } : State).effort w = s.effort w + 1 := by
      simp [effort, visitEffort]
      omega
    rw [effort_note]
    omega
  · omega

theorem effort_foldl_dispatch_le (names : List String) : (names.foldl dispatch s).effort w ≤ s.effort w := by
  induction names generalizing s with
  | nil => simp
  | cons name names ih => exact Nat.le_trans ih (effort_dispatch_le name)

theorem effort_openRound_le : s.openRound.effort w ≤ s.effort w := by
  unfold openRound
  rw [← effort_noteCancellation (w := w) (s := s)]
  dsimp only
  split
  · exact effort_foldl_dispatch_le (s := { s.noteCancellation with ready := [] }) _
  · exact Nat.le_refl _

theorem effort_passSlot_le : s.passSlot.effort w ≤ s.effort w := by
  unfold passSlot
  split
  · exact Nat.le_refl _
  · next next rest _ =>
    split
    · next h =>
      have h₁ := effort_setStage_le (w := w) (s := { s with slotQueue := rest }) .granted (n := 1) h
        (by simp [Stage.effort])
      have h₂ := effort_enqueue_le (w := w) (s := { s with slotQueue := rest }.setStage next .granted) next
      have h₃ : ({ s with slotQueue := rest } : State).effort w = s.effort w := rfl
      omega
    · exact Nat.le_refl _

theorem get?_passSlot_of_granted {name : String} (h : s.stages.get? name = some .granted) :
    s.passSlot.stages.get? name = some .granted := by
  unfold passSlot
  split
  · exact h
  · next next rest _ =>
    split
    · have hst : (({ s with slotQueue := rest } : State).setStage next .granted).stages.get? name = some .granted := by
        simp only [setStage]
        rw [Table.get?_modify]
        split <;> simp [h]
      unfold enqueue
      split <;> exact hst
    · exact h

theorem effort_mark {name : String} {t : State} (h : s.mark w name = .ok t) : t.effort w = s.effort w := by
  unfold mark at h
  split at h
  · cases h
    rfl
  · split at h
    · cases h
      rfl
    · cases h

theorem effort_abort_le (f : Failure) : (s.abort f).effort w ≤ s.effort w := by
  simp only [abort, effort, visitEffort, List.length_nil]
  omega

theorem effort_conclude_le (name : String) (error : Option Failure) :
    (s.conclude w name error).effort w ≤ s.effort w := by
  unfold conclude
  split
  · split
    · exact effort_abort_le _
    · next t hmark =>
      rw [← effort_mark hmark]
      refine Nat.le_trans effort_openRound_le ?_
      split
      · exact Nat.le_of_eq (effort_foldl_countOff _)
      · exact Nat.le_refl _
  · refine Nat.le_trans effort_openRound_le ?_
    rw [effort_record]
    exact effort_trip_le

theorem effort_finish_lt {name : String} {old : Stage} (error : Option Failure) (h : s.stages.get? name = some old)
    (hpos : 0 < old.effort (w.visitor name).length) : (s.finish w name error).effort w < s.effort w := by
  have h₁ := effort_setStage_le (w := w) (.ended error) (n := 1) h (by rw [Stage.effort_ended]; omega)
  unfold finish
  refine Nat.lt_of_le_of_lt (effort_conclude_le name error) ?_
  split
  · refine Nat.lt_of_le_of_lt effort_passSlot_le ?_
    rw [effort_note]
    omega
  · rw [effort_note]
    omega

theorem effort_turnAway_lt {name : String} {old : Stage} (h : s.stages.get? name = some old)
    (hpos : 0 < old.effort (w.visitor name).length) : (s.turnAway w name).effort w < s.effort w := by
  have h₁ := effort_setStage_le (w := w) (.ended (some .cancelled)) (n := 1) h
    (by rw [Stage.effort_ended]; omega)
  unfold turnAway
  refine Nat.lt_of_le_of_lt (effort_conclude_le name _) ?_
  rw [effort_note]
  omega

theorem effort_begin_lt {name : String} {old : Stage} (h : s.stages.get? name = some old)
    (hlt : (w.visitor name).length + 1 < old.effort (w.visitor name).length) :
    (s.begin w name).effort w < s.effort w := by
  have h₁ := effort_setStage_le (w := w) (.running (w.visitor name)) (n := 1) h
    (by rw [Stage.effort_running]; omega)
  unfold begin
  rw [effort_note]
  omega

theorem effort_dequeue {name : String} {others : List String} (h : s.queue = name :: others) :
    ({ s with queue := others } : State).effort w + 1 = s.effort w := by
  simp only [effort, visitEffort, h, List.length_cons]
  omega

theorem effort_enter_lt {name : String} {others : List String} (hq : s.queue = name :: others)
    (h : s.stages.get? name = some .dispatched) : (s.enter w name others).effort w < s.effort w := by
  have hdq := effort_dequeue (w := w) hq
  unfold enter
  split
  · exact effort_begin_lt h (by simp [Stage.effort])
  · split
    · have := effort_turnAway_lt (w := w) (s := { s with queue := others }) h (by simp [Stage.effort])
      omega
    · split
      · exact effort_begin_lt (s := { s with free := s.free - 1 }) h (by simp [Stage.effort])
      · have h₁ := effort_setStage_le (w := w) .awaitingSlot (n := 1)
          (s := { s with queue := others, slotQueue := s.slotQueue ++ [name],
                         cancelQueue := s.cancelQueue ++ [name] }) h (by simp [Stage.effort])
        have h₂ : ({ s with queue := others, slotQueue := s.slotQueue ++ [name],
                            cancelQueue := s.cancelQueue ++ [name] } : State).effort w = s.effort w := by
          simp only [effort, visitEffort, hq, List.length_cons, List.length_append, List.length_nil]
          omega
        omega

theorem effort_perform_lt {name : String} {others : List String} {rest : List Action} {action : Action}
    (hq : s.queue = name :: others) (h : s.stages.get? name = some (.running (action :: rest))) :
    (s.perform w name others rest action).effort w < s.effort w := by
  have hdq := effort_dequeue (w := w) hq
  have hgo : (s.setStage name (.running rest)).effort w + 1 ≤ s.effort w := effort_setStage_le _ h (by simp)
  have hpos : 0 < (Stage.running (action :: rest)).effort (w.visitor name).length := by simp
  cases action with
  | wait =>
    simp only [perform]
    split
    · exact hgo
    · have := effort_setStage_le (w := w) (.awaitingRelease rest) (n := 1)
        (s := { s with queue := others }) h (by simp [Stage.effort])
      omega
  | waitCancel =>
    simp only [perform]
    split
    · exact hgo
    · have h₁ := effort_setStage_le (w := w) (.awaitingCancel rest) (n := 1)
        (s := { s with queue := others, cancelQueue := s.cancelQueue ++ [name] }) h (by simp [Stage.effort])
      have h₂ : ({ s with queue := others, cancelQueue := s.cancelQueue ++ [name] } : State).effort w =
          s.effort w := by
        simp only [effort, visitEffort, hq, List.length_cons, List.length_append, List.length_nil]
        omega
      omega
  | cancel => exact Nat.lt_of_le_of_lt effort_cancelCaller_le hgo
  | token => exact hgo
  | status other => exact hgo
  | setStatus other status =>
    simp only [perform]
    split
    · exact hgo
    · have := effort_finish_lt (w := w) (s := { s with queue := others }) (some (.serviceNotFound other)) h hpos
      omega
  | log text => exact hgo
  | fail cause =>
    have := effort_finish_lt (w := w) (s := { s with queue := others }) (some cause) h hpos
    simp only [perform]
    omega

/-- **Every step lowers the effort that is left.** -/
theorem effort_step_lt (w : Walk) (s : State) (h : s.queue ≠ []) : (s.step w).effort w < s.effort w := by
  unfold step
  split
  · next hq => exact absurd hq h
  · next name others hq =>
    have hdq := effort_dequeue (w := w) hq
    split
    · next hst => exact effort_enter_lt hq hst
    · next hst =>
      split
      · have := effort_turnAway_lt (w := w)
          (s := { s with queue := others, slotQueue := s.slotQueue.erase name }) hst (by simp [Stage.effort])
        have heq : ({ s with queue := others, slotQueue := s.slotQueue.erase name } : State).effort w =
          ({ s with queue := others } : State).effort w := rfl
        omega
      · omega
    · next hst =>
      split
      · have h₁ := effort_turnAway_lt (w := w) (get?_passSlot_of_granted (s := { s with queue := others }) hst)
          (by simp [Stage.effort])
        have h₂ := effort_passSlot_le (w := w) (s := { s with queue := others })
        omega
      · have h₁ := effort_begin_lt (w := w) (s := { s with cancelQueue := s.cancelQueue.erase name }) hst
          (by simp [Stage.effort])
        have h₂ : ({ s with cancelQueue := s.cancelQueue.erase name } : State).effort w ≤ s.effort w := by
          have := List.length_erase_le (a := name) (l := s.cancelQueue)
          simp only [effort, visitEffort]
          omega
        omega
    · next hst =>
      have := effort_finish_lt (w := w) (s := { s with queue := others }) none hst (by simp)
      omega
    · next action rest hst => exact effort_perform_lt hq hst
    · omega

def settle (w : Walk) (s : State) : State :=
  if s.queue = [] then s.noteCancellation else settle w (s.step w)
termination_by s.effort w
decreasing_by exact effort_step_lt w s (by assumption)

end State

end Rollout
