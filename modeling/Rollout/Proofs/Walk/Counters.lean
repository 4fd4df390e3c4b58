import Rollout.Proofs.Walk.Balance
import Rollout.Proofs.Walk.Held
/-!
The counters of a walk, one decrement at a time.  Only the end of a visit that went well counts anything off, and only
while no failure is recorded (`State.counts`, `unresolved_step`).  All that a walk has counted off is kept in a log
beside its states (`State.Counted`), with the counter that each decrement met: for each service that goes from the
number of its prerequisites down to the counter it has now (`Counted.countsDown`).  Between the turns of a walk and
inside of them, right before a round opens, the counters sort the services (`Outline.Sorted`).

The turn of a visit that ends well is taken apart into what it is made of: the visit ends and gives its slot back, its
status is recorded, it is counted off unless a failure is recorded, and a round opens (`step_of_endsWell?`).  The state
before the last of these is one in which services are ready and not dispatched; in no other state is anything ready.

The decrements of a turn are those of the services that wait for the visit, in their order, and each of them once; so
each meets its counter as it was before the turn (`decrements_eq_map`).  What is counted off waits for the visit that
ended, so the counter that is met is positive.  The counters that the decrements of one service have met are an initial
piece of the way from the number of its prerequisites down to nothing, on which one is met once: that decrement reports
that the service is ready, and it is the one that brings the counter to zero (`CountsDown.reports`).
-/
namespace Rollout

/-! ## Counting down -/

def countdown : Nat → List (Option Nat)
  | 0 => []
  | n + 1 => some (n + 1) :: countdown n

theorem positive_of_mem_countdown {met : Option Nat} : ∀ {n : Nat}, met ∈ countdown n → ∃ k, met = some (k + 1)
  | 0, h => by cases h
  | n + 1, h => by
    rcases List.mem_cons.1 h with rfl | h
    · exact ⟨n, rfl⟩
    · exact positive_of_mem_countdown h

theorem count_one_countdown : ∀ n : Nat, (countdown n).count (some 1) = if n = 0 then 0 else 1
  | 0 => rfl
  | 1 => rfl
  | n + 2 => by
    rw [countdown, List.count_cons_of_ne (by simp), count_one_countdown (n + 1)]
    rfl

namespace Outline

variable {w : Walk} {o o' : Outline} {name : String}

/-! ## What leaves the counters alone -/

theorem unresolved_openRound (o : Outline) : o.openRound.unresolved = o.unresolved := by
  unfold openRound
  split
  · rfl
  · rfl

theorem unresolved_conclude_some (cause : Failure) : (o.conclude w name (some cause)).unresolved = o.unresolved :=
  unresolved_openRound _

theorem unresolved_finish_some (cause : Failure) : (o.finish w name (some cause)).unresolved = o.unresolved :=
  unresolved_conclude_some cause

/-! ## Where services stand -/

/-- While no failure is recorded, a counter says how many prerequisites have not ended well; a service is ready if it is
idle and none is left, and it has moved on only then. -/
structure Sorted (w : Walk) (o : Outline) : Prop where
  covered : ∀ n ∈ w.scope, o.progress n ≠ none
  counted : ∀ n ∈ w.scope, o.unresolved n = some (o.remaining w n)
  ready : ∀ n ∈ w.scope, n ∈ o.ready ↔ o.progress n = some .idle ∧ o.remaining w n = 0
  moved : ∀ n p, o.progress n = some p → p ≠ .idle → o.remaining w n = 0

theorem Balanced.sorted (h : o.Balanced w) (htidy : o.Tidy w) (hf : o.failure = none) : o.Sorted w where
  covered := fun n hn => (htidy.covered n).1 hn
  counted := h.counted hf
  ready := fun n _ => by
    rw [htidy.ready]
    exact iff_of_false List.not_mem_nil fun hidle => h.waits hf n hidle.1 hidle.2
  moved := fun n p hn hp => remaining_eq_zero_iff.2 (h.begun n p hn hp)

/-- The outline in which a visit has ended well and is counted off, with what it made ready not dispatched yet. -/
def beforeRound (w : Walk) (o : Outline) (name : String) : Outline :=
  let ended := (o.put name (.ended none)).note (.ended name none)
  { ended with statuses := w.marked name o.statuses }.countOff (w.successors name)

theorem Balanced.sorted_beforeRound (h : o.Balanced w) (htidy : o.Tidy w) (hf : o.failure = none)
    (hname : o.progress name = some .underWay) : (o.beforeRound w name).Sorted w := by
  have hscope : name ∈ w.scope := htidy.mem_scope hname
  have howed := h.ended hname (by simp) (by simp)
  have htidy' := (htidy.put name (.ended none)).note (.ended name none)
  refine ⟨fun n hn => (htidy'.covered n).1 hn, fun n hn => ?_, fun n hn => ?_, fun n p hn hp => ?_⟩
  · show (if n ∈ w.successors name then (o.unresolved n).map (· - 1) else o.unresolved n) =
      some (((o.put name (.ended none)).note (.ended name none)).remaining w n)
    have hcounted := howed.counted hf n hn
    rw [show o.unresolved n = _ from hcounted]
    by_cases hb : name ∈ w.prerequisites n
    · rw [if_pos ((Walk.mem_successors_iff hscope).2 ⟨hn, hb⟩), if_pos hb]
      rfl
    · rw [if_neg fun hs => hb ((Walk.mem_successors_iff hscope).1 hs).2, if_neg hb]
      rfl
  · have hready : n ∈ (o.beforeRound w name).ready ↔
        n ∈ ((o.put name (.ended none)).note (.ended name none)).lastFor w name := by
      show n ∈ o.ready ++ _ ↔ _
      rw [htidy.ready, List.nil_append]
      rfl
    rw [hready, howed.mem_lastFor_iff hscope hf]
    constructor
    · rintro ⟨-, hb, hzero⟩
      -- it waits for `name`, which was under way up to now
      have hidle := h.idle_of_awaits htidy hname hn hb
      have hne : n ≠ name := by
        rintro rfl
        rw [hname] at hidle
        cases hidle
      exact ⟨(progress_put_other hne).trans hidle, hzero⟩
    · rintro ⟨hidle, hzero⟩
      refine ⟨hn, ?_, hzero⟩
      by_contra hb
      refine howed.waits hf n hidle ?_
      rw [if_neg hb]
      exact hzero
  · exact remaining_eq_zero_iff.2 (howed.begun n p hn hp)

theorem sorted_initial (statuses : Table Status) (callerCancelled : Bool) :
    (Outline.initial w statuses callerCancelled).Sorted w := by
  have hidle : ∀ n ∈ w.scope, (Outline.initial w statuses callerCancelled).progress n = some .idle :=
    fun n hn => if_pos hn
  refine ⟨fun n hn => ?_, fun n hn => ?_, fun n hn => ?_, fun n p hn hp => ?_⟩
  · simp [hidle n hn]
  · rw [remaining_initial]
    exact if_pos hn
  · rw [remaining_initial, List.length_eq_zero_iff, ← List.isEmpty_iff, and_iff_right (hidle n hn)]
    exact List.mem_filter.trans (and_iff_right hn)
  · exact absurd (idle_initial statuses callerCancelled hn).2 hp

end Outline

namespace State

variable {w : Walk} {s : State} {name : String} {others : List String}

/-! ## A visit that ends well -/

/-- The visit at the head of the run queue that has come to its end without an error, and the queue without it. -/
def endsWell? (s : State) : Option (String × List String) :=
  match s.queue with
  | [] => none
  | name :: others => if s.stages.get? name = some (.running []) then some (name, others) else none

theorem endsWell?_eq_some_iff :
    s.endsWell? = some (name, others) ↔ s.queue = name :: others ∧ s.stages.get? name = some (.running []) := by
  unfold endsWell?
  split
  · rename_i hqueue
    simp [hqueue]
  · rename_i first later hqueue
    rw [hqueue]
    split
    · rename_i hstage
      simp only [Option.some.injEq, Prod.mk.injEq, List.cons.injEq]
      exact ⟨fun h => ⟨h, h.1 ▸ hstage⟩, And.left⟩
    · rename_i hstage
      refine iff_of_false nofun ?_
      rintro ⟨hcons, hrunning⟩
      obtain ⟨rfl, -⟩ := List.cons.inj hcons
      exact hstage hrunning

theorem underWay_of_endsWell? (h : s.endsWell? = some (name, others)) : s.outline.progress name = some .underWay :=
  progress_of_get? (endsWell?_eq_some_iff.1 h).2

def left (w : Walk) (s : State) (name : String) (others : List String) : State :=
  let ended := ({ s with queue := others }.setStage name (.ended none)).note (.ended name none)
  if w.limit.isSome then ended.passSlot else ended

def wellEnded (w : Walk) (s : State) (name : String) (others : List String) : State :=
  { s.left w name others with statuses := w.marked name (s.left w name others).statuses }

/-- It is counted off, and the next round is about to open. -/
def beforeRound (w : Walk) (s : State) (name : String) (others : List String) : State :=
  (w.successors name).foldl countOff (s.wellEnded w name others)

theorem outline_left :
    (s.left w name others).outline = (s.outline.put name (.ended none)).note (.ended name none) := by
  have hended : ((({ s with queue := others } : State).setStage name (.ended none)).note (.ended name none)).outline =
      (s.outline.put name (.ended none)).note (.ended name none) := by
    rw [outline_note, outline_setStage]
    rfl
  unfold left
  dsimp only
  split
  · rw [outline_passSlot, hended]
  · exact hended

theorem outline_beforeRound : (s.beforeRound w name others).outline = s.outline.beforeRound w name := by
  have hended : (s.wellEnded w name others).outline =
      { (s.left w name others).outline with statuses := w.marked name (s.left w name others).outline.statuses } := rfl
  unfold beforeRound Outline.beforeRound
  rw [outline_foldl_countOff _ _ (w.nodup_successors name), hended, outline_left]
  rfl

theorem ready_beforeRound (hready : s.ready = []) : (s.beforeRound w name others).ready =
    (w.successors name).filter fun n => s.outline.unresolved n = some 1 := by
  refine (congrArg Outline.ready outline_beforeRound).trans ?_
  show s.ready ++ _ = _
  rw [hready, List.nil_append]
  rfl

theorem conclude_none (hmark : name ∈ s.statuses.keys) : s.conclude w name none =
    (if s.failure = none then (w.successors name).foldl countOff { s with statuses := w.marked name s.statuses }
      else { s with statuses := w.marked name s.statuses }).openRound := by
  unfold conclude
  dsimp only
  rw [mark_eq_ok hmark]
  cases hf : s.failure with
  | none => rfl
  | some f => rfl

/-- **What the turn of a visit that ends well is made of**: it ends, it is counted off unless a failure is recorded, and
a round opens. -/
theorem step_of_endsWell? (h : s.endsWell? = some (name, others)) (hmark : name ∈ s.statuses.keys) : s.step w =
    (if s.failure = none then s.beforeRound w name others else s.wellEnded w name others).openRound := by
  obtain ⟨hqueue, hstage⟩ := endsWell?_eq_some_iff.1 h
  have hleft : ({ s with queue := others } : State).finish w name none = (s.left w name others).conclude w name none :=
    rfl
  have hfailure : (s.left w name others).failure = s.failure := congrArg Outline.failure outline_left
  have hstatuses : (s.left w name others).statuses = s.statuses := congrArg Outline.statuses outline_left
  rw [step_finish hqueue hstage, hleft, conclude_none (hstatuses ▸ hmark), ← hfailure]
  rfl

/-! ## Turns that count nothing off -/

theorem unresolved_finish_some (name : String) (cause : Failure) (hready : s.ready = []) :
    (s.finish w name (some cause)).outline.unresolved = s.outline.unresolved := by
  rw [outline_finish _ _ hready]
  exact Outline.unresolved_finish_some cause

theorem unresolved_turnAway (name : String) (hready : s.ready = []) :
    (s.turnAway w name).outline.unresolved = s.outline.unresolved := by
  rw [outline_turnAway _ hready]
  exact Outline.unresolved_conclude_some .cancelled

theorem unresolved_enter (others : List String) (hready : s.ready = []) :
    (s.enter w name others).outline.unresolved = s.outline.unresolved := by
  unfold enter
  split
  · rfl
  · split
    · exact unresolved_turnAway (s := { s with queue := others }) name hready
    · split
      · rfl
      · rfl

theorem unresolved_perform {action : Action} {rest : List Action} (others : List String) (hready : s.ready = []) :
    (s.perform w name others rest action).outline.unresolved = s.outline.unresolved := by
  have hfinish : ∀ cause, (({ s with queue := others } : State).finish w name (some cause)).outline.unresolved =
      s.outline.unresolved := fun cause => unresolved_finish_some (s := { s with queue := others }) name cause hready
  cases action with
  | cancel =>
    simp only [perform]
    rw [outline_cancelCaller]
    rfl
  | fail cause => exact hfinish cause
  | setStatus other status =>
    simp only [perform]
    split
    · rfl
    · exact hfinish _
  | wait =>
    simp only [perform]
    split
    · rfl
    · rfl
  | waitCancel =>
    simp only [perform]
    split
    · rfl
    · rfl
  | _ => rfl

theorem unresolved_step_of_none (hready : s.ready = []) (h : s.endsWell? = none) :
    (s.step w).outline.unresolved = s.outline.unresolved := by
  unfold step
  split
  · rfl
  · rename_i name others hqueue
    split
    · exact unresolved_enter others hready
    · split
      · exact unresolved_turnAway (s := { s with queue := others, slotQueue := s.slotQueue.erase name }) name hready
      · rfl
    · split
      · have hpass : ({ s with queue := others } : State).passSlot.outline = s.outline := outline_passSlot
        have hpassed := unresolved_turnAway (w := w) name ((congrArg Outline.ready hpass).trans hready)
        exact hpassed.trans (congrArg Outline.unresolved hpass)
      · rfl
    · rename_i hstage
      have hends := endsWell?_eq_some_iff.2 ⟨hqueue, hstage⟩
      rw [h] at hends
      cases hends
    · exact unresolved_perform others hready
    · rfl

/-! ## What a turn counts off -/

/-- Counts one prerequisite off for each of some services in turn, and keeps the counter that each of these met. -/
def decrements : List String → State → List (String × Option Nat)
  | [], _ => []
  | name :: names, s => (name, s.unresolved.get? name) :: decrements names (s.countOff name)

def counts (w : Walk) (s : State) : List (String × Option Nat) :=
  match s.endsWell? with
  | none => []
  | some (name, others) =>
    if s.failure = none then decrements (w.successors name) (s.wellEnded w name others) else []

theorem decrements_eq_map : ∀ (names : List String) (s : State), names.Nodup →
    decrements names s = names.map fun n => (n, s.outline.unresolved n)
  | [], _, _ => rfl
  | name :: names, s, h => by
    obtain ⟨hname, hnames⟩ := List.nodup_cons.1 h
    have hothers : ∀ n ∈ names, (n, (s.countOff name).outline.unresolved n) = (n, s.outline.unresolved n) := by
      intro n hn
      have hne : n ∉ [name] := fun hmem => hname (List.mem_singleton.1 hmem ▸ hn)
      rw [outline_countOff]
      exact congrArg (n, ·) (if_neg hne)
    rw [decrements, decrements_eq_map names _ hnames, List.map_congr_left hothers]
    rfl

theorem counts_of_none (h : s.endsWell? = none) : s.counts w = [] := by
  unfold counts
  rw [h]

theorem counts_of_failure (h : s.failure ≠ none) : s.counts w = [] := by
  unfold counts
  split
  · rfl
  · exact if_neg h

theorem counts_of_endsWell? (h : s.endsWell? = some (name, others)) (hf : s.failure = none) :
    s.counts w = (w.successors name).map fun n => (n, s.outline.unresolved n) := by
  have hsame : (s.wellEnded w name others).outline.unresolved = s.outline.unresolved :=
    (congrArg Outline.unresolved outline_left : (s.left w name others).outline.unresolved = _)
  unfold counts
  rw [h]
  dsimp only
  rw [if_pos hf, decrements_eq_map _ _ (w.nodup_successors name), hsame]

theorem counts_cases (w : Walk) (s : State) : s.counts w = [] ∨
    ∃ name others, s.endsWell? = some (name, others) ∧ s.failure = none ∧
      s.counts w = (w.successors name).map fun n => (n, s.outline.unresolved n) := by
  cases hends : s.endsWell? with
  | none => exact Or.inl (counts_of_none hends)
  | some visit =>
    obtain ⟨name, others⟩ := visit
    by_cases hf : s.failure = none
    · exact Or.inr ⟨name, others, rfl, hf, counts_of_endsWell? hends hf⟩
    · exact Or.inl (counts_of_failure hf)

/-- **What a turn does to the counters**: those that it counts off go down by one, and the others stay. -/
theorem unresolved_step (htidy : s.outline.Tidy w) (n : String) : (s.step w).outline.unresolved n =
    if n ∈ (s.counts w).map Prod.fst then (s.outline.unresolved n).map (· - 1) else s.outline.unresolved n := by
  have hready : s.ready = [] := htidy.ready
  cases hends : s.endsWell? with
  | none =>
    rw [counts_of_none hends, unresolved_step_of_none hready hends]
    rfl
  | some visit =>
    obtain ⟨name, others⟩ := visit
    have hmark := htidy.marked name (htidy.mem_scope (underWay_of_endsWell? hends))
    rw [step_of_endsWell? hends hmark]
    by_cases hf : s.failure = none
    · have hnodup : (s.beforeRound w name others).ready.Nodup := by
        rw [ready_beforeRound hready]
        exact (w.nodup_successors name).sublist List.filter_sublist
      rw [if_pos hf, outline_openRound hnodup, Outline.unresolved_openRound, outline_beforeRound,
        counts_of_endsWell? hends hf, List.map_map, Function.comp_def, List.map_id']
      rfl
    · have hleft : (s.wellEnded w name others).ready = [] :=
        (congrArg Outline.ready outline_left : (s.left w name others).ready = _).trans hready
      rw [if_neg hf, outline_openRound (hleft ▸ List.nodup_nil), Outline.unresolved_openRound, counts_of_failure hf]
      exact congrFun (congrArg Outline.unresolved outline_left : (s.left w name others).outline.unresolved = _) n

theorem positive_of_mem_counts (hbalanced : s.outline.Balanced w) (htidy : s.outline.Tidy w) {n : String}
    (hn : n ∈ (s.counts w).map Prod.fst) : n ∈ w.scope ∧ ∃ k, s.outline.unresolved n = some (k + 1) := by
  rcases counts_cases w s with hnone | ⟨name, others, hends, hf, hcounts⟩
  · rw [hnone] at hn
    cases hn
  · rw [hcounts, List.map_map, Function.comp_def, List.map_id'] at hn
    have hname := underWay_of_endsWell? hends
    obtain ⟨hscope, hb⟩ := (Walk.mem_successors_iff (htidy.mem_scope hname)).1 hn
    have hwaits : s.outline.remaining w n ≠ 0 := fun hzero => by
      have hended := Outline.remaining_eq_zero_iff.1 hzero name hb
      rw [hname] at hended
      cases hended
    obtain ⟨k, hk⟩ := Nat.exists_eq_succ_of_ne_zero hwaits
    exact ⟨hscope, k, (hbalanced.counted hf n hscope).trans (congrArg some hk)⟩

/-! ## The log -/

def metBy (name : String) (log : List (String × Option Nat)) : List (Option Nat) :=
  (log.filter fun e => e.1 = name).map Prod.snd

theorem metBy_append (name : String) (log more : List (String × Option Nat)) :
    metBy name (log ++ more) = metBy name log ++ metBy name more := by
  unfold metBy
  rw [List.filter_append, List.map_append]

theorem count_eq_count_metBy (name : String) (met : Option Nat) : ∀ log : List (String × Option Nat),
    log.count (name, met) = (metBy name log).count met
  | [] => rfl
  | (n, m) :: log => by
    have ih := count_eq_count_metBy name met log
    unfold metBy at ih ⊢
    rw [List.count_cons, ih, List.filter_cons]
    by_cases hn : n = name
    · simp [hn, List.count_cons]
    · simp [hn]

theorem metBy_map (f : String → Option Nat) (name : String) : ∀ names : List String, names.Nodup →
    metBy name (names.map fun n => (n, f n)) = if name ∈ names then [f name] else []
  | [], _ => rfl
  | n :: names, h => by
    obtain ⟨hn, hnames⟩ := List.nodup_cons.1 h
    have ih := metBy_map f name names hnames
    unfold metBy at ih ⊢
    rw [List.map_cons, List.filter_cons]
    by_cases heq : n = name
    · subst heq
      rw [if_neg hn] at ih
      simp [ih]
    · simp only [heq, decide_false, Bool.false_eq_true, if_false, ih, List.mem_cons, Ne.symm heq, false_or]

theorem metBy_counts (n : String) : metBy n (s.counts w) =
    if n ∈ (s.counts w).map Prod.fst then [s.outline.unresolved n] else [] := by
  rcases counts_cases w s with hnone | ⟨name, others, -, -, hcounts⟩
  · rw [hnone]
    rfl
  · rw [hcounts, metBy_map _ _ _ (w.nodup_successors name), List.map_map, Function.comp_def, List.map_id']

/-- The state reached after some acts from outside, with the log of all decrements up to then, oldest first. -/
inductive Counted (w : Walk) (statuses : Table Status) (callerCancelled : Bool) :
    List Outside → List (String × Option Nat) → State → Prop where
  | first : Counted w statuses callerCancelled [] [] (initial w statuses callerCancelled).openRound
  | turn {acts log s} : Counted w statuses callerCancelled acts log s →
      Counted w statuses callerCancelled acts (log ++ s.counts w) (s.step w)
  | notice {acts log s} : Counted w statuses callerCancelled acts log s →
      Counted w statuses callerCancelled acts log s.noteCancellation
  | outside {acts log s} (act : Outside) : Counted w statuses callerCancelled acts log s → s.done = false →
      Counted w statuses callerCancelled (acts ++ [act]) log (s.play act)

variable {statuses : Table Status} {callerCancelled : Bool} {acts : List Outside} {log : List (String × Option Nat)}

theorem Counted.reached (h : Counted w statuses callerCancelled acts log s) :
    Reached w statuses callerCancelled acts s := by
  induction h with
  | first => exact Runs.refl
  | turn _ ih => exact Runs.turn ih
  | notice _ ih => exact Runs.notice ih
  | outside act _ hdone ih => exact Runs.outside act ih hdone

/-- **Every state reached has a log.** -/
theorem Reached.exists_counted (h : Reached w statuses callerCancelled acts s) :
    ∃ log, Counted w statuses callerCancelled acts log s := by
  induction h with
  | refl => exact ⟨[], .first⟩
  | turn _ ih =>
    obtain ⟨log, hlog⟩ := ih
    exact ⟨_, hlog.turn⟩
  | notice _ ih =>
    obtain ⟨log, hlog⟩ := ih
    exact ⟨log, hlog.notice⟩
  | outside act _ hdone ih =>
    obtain ⟨log, hlog⟩ := ih
    exact ⟨log, hlog.outside act hdone⟩

/-- What a log says of the counters. -/
structure CountsDown (w : Walk) (log : List (String × Option Nat)) (s : State) : Prop where
  covered : ∀ e ∈ log, e.1 ∈ w.scope
  /-- The decrements of a service go from the number of its prerequisites down to its counter, one by one. -/
  steps : ∀ n ∈ w.scope, ∃ left, s.unresolved.get? n = some left ∧
    metBy n log ++ countdown left = countdown (w.prerequisites n).length

theorem CountsDown.of_unresolved {t : State} (h : CountsDown w log s)
    (hsame : t.outline.unresolved = s.outline.unresolved) : CountsDown w log t := by
  refine ⟨h.covered, fun n hn => ?_⟩
  obtain ⟨left, hleft, hsteps⟩ := h.steps n hn
  exact ⟨left, (congrFun hsame n).trans hleft, hsteps⟩

theorem countsDown_first (hw : w.Sound) : CountsDown w [] (initial w statuses callerCancelled).openRound := by
  refine ⟨nofun, fun n hn => ⟨(w.prerequisites n).length, ?_, rfl⟩⟩
  have hround := congrArg Outline.unresolved (@outline_openRound_initial w statuses callerCancelled hw)
  rw [Outline.unresolved_openRound] at hround
  exact (congrFun hround n).trans (if_pos hn)

theorem CountsDown.turn (h : CountsDown w log s) (hbalanced : s.outline.Balanced w) (htidy : s.outline.Tidy w) :
    CountsDown w (log ++ s.counts w) (s.step w) := by
  refine ⟨fun e he => ?_, fun n hn => ?_⟩
  · rcases List.mem_append.1 he with he | he
    · exact h.covered e he
    · exact (positive_of_mem_counts hbalanced htidy (List.mem_map_of_mem he)).1
  · obtain ⟨left, hleft, hsteps⟩ := h.steps n hn
    have hstep := unresolved_step htidy n
    rw [metBy_append, metBy_counts]
    by_cases hcounted : n ∈ (s.counts w).map Prod.fst
    -- what a decrement meets is the head of what is left to count down
    · obtain ⟨-, k, hk⟩ := positive_of_mem_counts hbalanced htidy hcounted
      obtain rfl : left = k + 1 := Option.some.inj (hleft.symm.trans hk)
      rw [if_pos hcounted, hk] at hstep
      refine ⟨k, hstep, ?_⟩
      rw [if_pos hcounted, hk, List.append_assoc]
      exact hsteps
    · rw [if_neg hcounted] at hstep
      refine ⟨left, hstep.trans hleft, ?_⟩
      rw [if_neg hcounted, List.append_nil]
      exact hsteps

/-- **The log of a walk counts down**, whatever happens in it. -/
theorem Counted.countsDown (hw : w.Sound) (hst : ∀ n ∈ w.scope, n ∈ statuses.keys)
    (h : Counted w statuses callerCancelled acts log s) : CountsDown w log s := by
  induction h with
  | first => exact countsDown_first hw
  | turn hrun ih => exact ih.turn (hrun.reached.balanced hw hst) (hrun.reached.tidy hw hst)
  | notice _ ih => exact ih.of_unresolved (congrArg Outline.unresolved outline_noteCancellation :)
  | outside act _ _ ih =>
    refine ih.of_unresolved ((congrArg Outline.unresolved (outline_play act)).trans ?_)
    cases act <;> rfl

/-- **Each decrement meets a counter that is positive.** -/
theorem CountsDown.positive (h : CountsDown w log s) {n : String} {met : Option Nat} (hmem : (n, met) ∈ log) :
    ∃ k, met = some (k + 1) := by
  obtain ⟨left, -, hsteps⟩ := h.steps n (h.covered _ hmem)
  have hmet : met ∈ metBy n log := List.mem_map.2 ⟨(n, met), List.mem_filter.2 ⟨hmem, by simp⟩, rfl⟩
  exact positive_of_mem_countdown (hsteps ▸ List.mem_append_left _ hmet)

/-- **One decrement of a service reports that nothing is left**, and it is the one that brings its counter to zero. -/
theorem CountsDown.reports (h : CountsDown w log s) {n : String} (hn : n ∈ w.scope) (hne : w.prerequisites n ≠ []) :
    log.count (n, some 1) = if s.unresolved.get? n = some 0 then 1 else 0 := by
  obtain ⟨left, hleft, hsteps⟩ := h.steps n hn
  have hcount := congrArg (List.count (some 1)) hsteps
  rw [List.count_append, ← count_eq_count_metBy, count_one_countdown, count_one_countdown,
    if_neg (mt List.length_eq_zero_iff.1 hne)] at hcount
  rw [hleft]
  by_cases hzero : left = 0
  · rw [if_pos hzero] at hcount
    rw [if_pos (congrArg some hzero)]
    exact hcount
  · rw [if_neg hzero] at hcount
    rw [if_neg fun heq => hzero (Option.some.inj heq)]
    omega

end State

end Rollout
