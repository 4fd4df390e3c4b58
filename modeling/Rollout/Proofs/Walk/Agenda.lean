import Rollout.Proofs.Walk.Late
import Rollout.Proofs.Walk.Rounds
import Rollout.Proofs.Walk.Smooth
/-!
The sequential order of a walk.  `Agenda` is the plain algorithm: a list of pending services, first come first served,
to which each processed service appends those it was the last prerequisite of.  As long as visits do not block, fail or
cancel, the machine stays in step with it (`Roster.InStep`).  Its run queue is what is pending, the visits of what is
processed have begun and ended one after another, and only the first pending one can be under way.  A turn either leaves
the agenda as it is or processes one service (`State.Reached.inStep_step`).

To be in step is kept by each of the three things that a turn of such a walk can be: the first pending visit begins, it
goes on with an action that stands in nobody's way, or it ends well and releases what waits for nothing else
(`InStep.begin`, `InStep.goOn`, `InStep.finish`).  What the machine releases is read off its counts and what the
algorithm releases off the list of what is processed; that both are the same is a matter of the balance of the walk
(`Balanced.lastFor_eq`).

Slots make no difference.  A visit that is serial has all of them to itself, so one is free whenever a visit begins
(`Reached.free_pos_of_between`), and nobody is ever in line.  That is also why a walk with a limit of one takes the same
turns as one without any.
-/
namespace Rollout

/-! ## The plain algorithm -/

structure Agenda where
  /-- First come, first served. -/
  pending : List String
  /-- In the order in which they were processed. -/
  processed : List String
deriving DecidableEq, Repr

namespace Agenda

def start (w : Walk) : Agenda := ⟨w.seeds, []⟩

/-- The covered services, in ascending order, that wait for `name` and for nothing that is not processed. -/
def released (w : Walk) (name : String) (processed : List String) : List String :=
  w.scope.filter fun n => name ∈ w.prerequisites n ∧ ∀ b ∈ w.prerequisites n, b ∈ processed

def step (w : Walk) (a : Agenda) : Agenda :=
  match a.pending with
  | [] => a
  | name :: others => ⟨others ++ released w name (a.processed ++ [name]), a.processed ++ [name]⟩

/-- The agenda after so many steps. -/
def after (w : Walk) : Nat → Agenda
  | 0 => start w
  | n + 1 => (after w n).step w

theorem step_of_cons {w : Walk} {a : Agenda} {name : String} {others : List String} (h : a.pending = name :: others) :
    a.step w = ⟨others ++ released w name (a.processed ++ [name]), a.processed ++ [name]⟩ := by
  unfold step
  rw [h]

end Agenda

/-! ## Visits in turn -/

def Event.isBound : Event → Bool
  | .began _ => true
  | .ended _ _ => true
  | .turnedAway _ => true
  | _ => false

def bounds (events : List Event) : List Event := events.filter Event.isBound

/-- Some visits that begin and end well, one after another. -/
def inTurn (names : List String) : List Event := names.flatMap fun name => [.began name, .ended name none]

theorem mem_bounds_iff {e : Event} {events : List Event} (h : e.isBound = true) : e ∈ bounds events ↔ e ∈ events := by
  unfold bounds
  rw [List.mem_filter, and_iff_left h]

theorem bounds_append_of_unbound {new events : List Event} (h : ∀ e ∈ new, e.isBound = false) :
    bounds (new ++ events) = bounds events := by
  have hnone : new.filter Event.isBound = [] := List.filter_eq_nil_iff.2 fun e he => by simp [h e he]
  unfold bounds
  rw [List.filter_append, hnone, List.nil_append]

theorem mem_inTurn_iff {e : Event} {names : List String} :
    e ∈ inTurn names ↔ ∃ name ∈ names, e = .began name ∨ e = .ended name none := by
  unfold inTurn
  simp

theorem inTurn_concat (names : List String) (name : String) :
    (inTurn (names ++ [name])).reverse = .ended name none :: .began name :: (inTurn names).reverse := by
  unfold inTurn
  simp

namespace Roster

variable {w : Walk} {a : Agenda} {r r' : Roster} {name : String} {others : List String} {rest : List Action}

/-- What is processed was visited in turn.  What is pending is dispatched, or its first visit is under way. -/
inductive Serial (a : Agenda) (r : Roster) : Prop where
  | between : (∀ n ∈ a.pending, r.stage n = some .dispatched) → bounds r.history = (inTurn a.processed).reverse →
      Serial a r
  | inside {name : String} {others : List String} {rest : List Action} : a.pending = name :: others →
      r.stage name = some (.running rest) → (∀ n ∈ others, r.stage n = some .dispatched) →
      bounds r.history = .began name :: (inTurn a.processed).reverse → Serial a r

structure InStep (a : Agenda) (r : Roster) : Prop where
  queue : r.queue = a.pending
  nodup : a.pending.Nodup
  line : r.slotQueue = []
  serial : r.Serial a

theorem Serial.ended_iff (h : r.Serial a) {n : String} : .ended n none ∈ r.history ↔ n ∈ a.processed := by
  have hturn : .ended n none ∈ (inTurn a.processed).reverse ↔ n ∈ a.processed := by
    rw [List.mem_reverse, mem_inTurn_iff]
    simp
  have hbound : Event.isBound (.ended n none) = true := rfl
  rw [← mem_bounds_iff hbound]
  cases h with
  | between _ hbounds => rw [hbounds, hturn]
  | inside _ _ _ hbounds =>
    rw [hbounds, List.mem_cons, hturn]
    simp

/-! ## One visit -/

theorem InStep.stage_put (h : r.InStep a) (hpending : a.pending = name :: others) (new : Stage) {n : String}
    (hn : n ∈ others) : (r.put name new).stage n = r.stage n := by
  have hout : name ∉ others := (List.nodup_cons.1 (hpending ▸ h.nodup)).1
  exact stage_put_other (ne_of_mem_of_not_mem hn hout)

theorem InStep.begin (h : r.InStep a) (hpending : a.pending = name :: others)
    (hdispatched : ∀ n ∈ a.pending, r.stage n = some .dispatched)
    (hbounds : bounds r.history = (inTurn a.processed).reverse) (free : Nat) :
    (Roster.begin w { r with free := free } name).InStep a := by
  rw [hpending] at hdispatched
  refine ⟨h.queue, h.nodup, h.line, .inside hpending (stage_put_self (hdispatched name List.mem_cons_self)) ?_ ?_⟩
  · intro n hn
    exact (h.stage_put hpending _ hn).trans (hdispatched n (List.mem_cons_of_mem _ hn))
  · exact congrArg (.began name :: ·) hbounds

theorem InStep.goOn (h : r.InStep a) {before after : List Action} (hpending : a.pending = name :: others)
    (hstage : r.stage name = some (.running before)) (hothers : ∀ n ∈ others, r.stage n = some .dispatched)
    (hbounds : bounds r.history = .began name :: (inTurn a.processed).reverse) {new : List Event}
    (hnew : ∀ e ∈ new, e.isBound = false) (statuses : Table Status) :
    InStep a { r.put name (.running after) with statuses := statuses, history := new ++ r.history } := by
  refine ⟨h.queue, h.nodup, h.line, .inside hpending (stage_put_self hstage) (fun n hn => ?_) ?_⟩
  · exact (h.stage_put hpending _ hn).trans (hothers n hn)
  · exact (bounds_append_of_unbound hnew).trans hbounds

theorem InStep.finish (h : r.InStep a) (hpending : a.pending = name :: others)
    (hothers : ∀ n ∈ others, r.stage n = some .dispatched)
    (hbounds : bounds r.history = .began name :: (inTurn a.processed).reverse) {released : List String}
    (hreleased : released = Agenda.released w name (a.processed ++ [name])) (hnodup : released.Nodup)
    (hidle : ∀ n ∈ released, r.stage n = some .idle) (free : Nat) (statuses : Table Status) :
    InStep (a.step w) (Roster.round { (r.put name (.ended none)).note (.ended name none) with
      queue := others, free := free, statuses := statuses } released) := by
  have hapart : ∀ n ∈ others, n ∉ released := fun n hn hin => by
    have hdispatched := hothers n hn
    rw [hidle n hin] at hdispatched
    cases hdispatched
  rw [Agenda.step_of_cons hpending, ← hreleased]
  refine ⟨rfl, ?_, h.line, .between (fun n hn => ?_) ?_⟩
  · refine List.nodup_append.2 ⟨(List.nodup_cons.1 (hpending ▸ h.nodup)).2, hnodup, fun n hn m hm => ?_⟩
    rintro rfl
    exact hapart n hn hm
  · show (if n ∈ released then some Stage.dispatched else (r.put name (.ended none)).stage n) = some .dispatched
    by_cases hin : n ∈ released
    · rw [if_pos hin]
    · have hold : n ∈ others := (List.mem_append.1 hn).resolve_right hin
      rw [if_neg hin, h.stage_put hpending _ hold]
      exact hothers n hold
  · have hround : ∀ e ∈ (released.map Event.dispatched).reverse, e.isBound = false := by
      intro e he
      obtain ⟨n, -, rfl⟩ := List.mem_map.1 (List.mem_reverse.1 he)
      rfl
    have hended : bounds (.ended name none :: r.history) =
        .ended name none :: .began name :: (inTurn a.processed).reverse :=
      congrArg (Event.ended name none :: ·) hbounds
    rw [inTurn_concat]
    exact (bounds_append_of_unbound hround).trans hended

end Roster

/-! ## What a visit releases -/

namespace Outline

variable {w : Walk} {o : Outline} {name : String} {processed : List String}

/-- **A visit that ends well is the last prerequisite of what the algorithm releases.** -/
theorem Balanced.lastFor_eq (h : o.Balanced w) (htidy : o.Tidy w) (hw : w.Sound)
    (hp : o.progress name = some .underWay) (hf : o.failure = none)
    (hprocessed : ∀ n, o.progress n = some (.ended none) ↔ n ∈ processed) :
    ((o.put name (.ended none)).note (.ended name none)).lastFor w name =
      Agenda.released w name (processed ++ [name]) := by
  have howed := h.ended hp (by simp) (by simp)
  have hended : ∀ n, (o.put name (.ended none)).progress n = some (.ended none) ↔ n ∈ processed ++ [name] := by
    intro n
    rw [List.mem_append, List.mem_singleton, ← hprocessed]
    by_cases hn : n = name
    · subst hn
      exact iff_of_true (progress_put_self hp) (Or.inr rfl)
    · rw [progress_put_other hn, or_iff_left hn]
  have hlast : Ascending (((o.put name (.ended none)).note (.ended name none)).lastFor w name) :=
    (w.ascending_successors name).sublist List.filter_sublist
  have hreleased : Ascending (Agenda.released w name (processed ++ [name])) :=
    hw.ascending.sublist List.filter_sublist
  refine ascending_ext hlast hreleased fun n => ?_
  rw [howed.mem_lastFor_iff (htidy.mem_scope hp) hf]
  unfold Agenda.released
  rw [List.mem_filter, decide_eq_true_eq, remaining_eq_zero_iff]
  refine and_congr_right fun _ => and_congr_right fun _ => forall₂_congr fun b _ => hended b

end Outline

/-! ## The machine is in step -/

namespace State

variable {w : Walk} {statuses : Table Status} {acts : List Outside} {s : State} {a : Agenda} {name : String}
  {others : List String} {rest : List Action}

theorem roster_perform_smooth (hsmooth : w.visitor.Smooth s.statuses.keys) {action : Action}
    (h : action ∈ w.visitor name) (others : List String) (rest : List Action) :
    ∃ new kept, (∀ e ∈ new, e.isBound = false) ∧ (s.perform w name others rest action).roster =
      { s.roster.put name (.running rest) with statuses := kept, history := new ++ s.history } := by
  have hput := roster_setStage (s := s) name (.running rest)
  cases action with
  | wait => exact absurd h (hsmooth.waits name).1
  | waitCancel => exact absurd h (hsmooth.waits name).2
  | cancel => exact absurd h (hsmooth.cancels name)
  | fail cause => exact absurd (.fail cause) (hsmooth.fails name _ h cause)
  | token =>
    refine ⟨[.token name s.tokenCancelled], s.statuses, by simp [Event.isBound], ?_⟩
    exact congrArg (Roster.note · _) hput
  | status other =>
    refine ⟨[.status name other (s.statuses.get? other)], s.statuses, by simp [Event.isBound], ?_⟩
    exact congrArg (Roster.note · _) hput
  | log text =>
    refine ⟨[.log name text], s.statuses, by simp [Event.isBound], ?_⟩
    exact congrArg (Roster.note · _) hput
  | setStatus other status =>
    have hknown : other ∈ s.statuses.keys := by
      by_contra hnot
      exact hsmooth.fails name _ h _ (.setStatus status hnot)
    refine ⟨[], s.statuses.modify other fun _ => status, by simp, ?_⟩
    simp only [perform]
    rw [if_pos ((s.statuses.contains_iff other).2 hknown)]
    exact roster_setStage (s := { s with statuses := s.statuses.modify other fun _ => status }) name (.running rest)

/-- **A visit that is serial has all slots to itself**, so one is free when it begins. -/
theorem Reached.free_pos_of_between (hw : w.Sound) (hst : ∀ n ∈ w.scope, n ∈ statuses.keys)
    (hsmooth : w.visitor.Smooth statuses.keys) (h : Reached w statuses false acts s) (hin : s.roster.InStep a)
    (hdispatched : ∀ n ∈ a.pending, s.roster.stage n = some .dispatched) (hlimit : w.limit.isSome) : 0 < s.free := by
  obtain ⟨limit, hlimit⟩ := Option.isSome_iff_exists.1 hlimit
  have hplaced := h.placed hw hst
  have hfaithful := h.faithful hw hst
  have hqueued : ∀ n, n ∈ s.roster.queue → s.roster.stage n = some .dispatched := fun n hn =>
    hdispatched n (hin.queue ▸ hn)
  -- whoever holds a slot is in the run queue, unless it waits, which a smooth visitor does not
  have hnobody : s.roster.held w = 0 := by
    refine List.countP_eq_zero.2 fun n hn => ?_
    cases hstage : s.roster.stage n with
    | none => simp
    | some stage =>
      have hfits := hplaced.fits n stage hstage
      cases stage with
      | granted =>
        rw [hqueued n hfits.2] at hstage
        cases hstage
      | running rest =>
        rw [hqueued n hfits] at hstage
        cases hstage
      | awaitingRelease rest =>
        have hperformed : Performed (w.visitor n) (.wait :: rest) (notesOf n s.history) :=
          hfaithful.follows n _ hstage
        exact absurd hperformed.mem (hsmooth.waits n).1
      | awaitingCancel rest =>
        have hperformed : Performed (w.visitor n) (.waitCancel :: rest) (notesOf n s.history) :=
          hfaithful.follows n _ hstage
        exact absurd hperformed.mem (hsmooth.waits n).2
      | _ => simp [Stage.holdsSlot]
  have htotal : s.free + s.roster.held w = limit.slots := (h.shared hw hst hlimit).total
  have hpos := limit.pos
  omega

theorem roster_finish_none (hline : s.slotQueue = []) (hready : s.ready = []) (hmark : name ∈ s.statuses.keys)
    (hf : s.failure = none) (hc : s.callerCancelled = false) {released : List String}
    (hlast : ((s.outline.put name (.ended none)).note (.ended name none)).lastFor w name = released)
    (hidle : ∀ n ∈ released, s.stages.get? n = some .idle) (hname : name ∉ released) :
    ∃ free, (s.finish w name none).roster =
      Roster.round { (s.roster.put name (.ended none)).note (.ended name none) with
        free := free, statuses := w.marked name s.statuses } released := by
  let ended : State := (s.setStage name (.ended none)).note (.ended name none)
  let passed : State := if w.limit.isSome then ended.passSlot else ended
  have hended : ended.roster = (s.roster.put name (.ended none)).note (.ended name none) :=
    congrArg (Roster.note · _) (roster_setStage (s := s) name (.ended none))
  -- with a limit the slot goes back, and as nobody is in line it stays free
  have hroster : passed.roster = { ended.roster with free := passed.free } := by
    by_cases hlimit : w.limit.isSome = true
    · have hpassed : passed = { ended with free := ended.free + 1 } := by
        show (if w.limit.isSome then ended.passSlot else ended) = _
        rw [if_pos hlimit]
        unfold passSlot
        rw [show ended.slotQueue = [] from hline]
      rw [hpassed]
      rfl
    · have hpassed : passed = ended := if_neg hlimit
      rw [hpassed]
      rfl
  have houtline : passed.outline = (s.outline.put name (.ended none)).note (.ended name none) := by
    have hsame : passed.outline = ended.outline := by
      show (if w.limit.isSome then ended.passSlot else ended).outline = _
      split
      · exact outline_passSlot
      · rfl
    rw [hsame]
    exact congrArg (Outline.note · _) (outline_setStage (s := s) name (.ended none))
  have hidle' : ∀ n ∈ passed.outline.lastFor w name, passed.stages.get? n = some .idle := by
    rw [houtline, hlast]
    intro n hn
    have hkept : passed.roster.stage n = s.roster.stage n := by
      rw [hroster, hended]
      exact Roster.stage_put_other (ne_of_mem_of_not_mem hn hname)
    exact hkept.trans (hidle n hn)
  have hstatuses : passed.statuses = s.statuses := congrArg Outline.statuses houtline
  have hround : (s.finish w name none).roster =
      Roster.round { passed.roster with statuses := w.marked name passed.statuses } (passed.outline.lastFor w name) :=
    roster_conclude_none ((congrArg Outline.ready houtline).trans hready) (hstatuses ▸ hmark)
      ((congrArg Outline.failure houtline).trans hf) ((congrArg Outline.callerCancelled houtline).trans hc) hidle'
  refine ⟨passed.free, ?_⟩
  rw [hround, houtline, hlast, hroster, hended, hstatuses]

theorem Reached.inStep_finish (hw : w.Sound) (hst : ∀ n ∈ w.scope, n ∈ statuses.keys)
    (h : Reached w statuses false acts s) (hquiet : ¬ Disturbed s.history) (hin : s.roster.InStep a)
    (hpending : a.pending = name :: others)
    (hstage : s.roster.stage name = some (.running []))
    (hothers : ∀ n ∈ others, s.roster.stage n = some .dispatched)
    (hbounds : bounds s.history = .began name :: (inTurn a.processed).reverse) :
    (s.step w).roster.InStep (a.step w) := by
  have htidy := h.tidy hw hst
  have hbalanced := h.balanced hw hst
  have hready : s.ready = [] := h.ready hw
  have hfailure : s.failure = none := h.failure_of_undisturbed hw hst hquiet
  have hlive : s.callerCancelled = false := by
    rw [← Bool.not_eq_true]
    exact fun hc => hquiet (Or.inl ((h.judged hw hst).cancelled.1 hc))
  have hunder : s.outline.progress name = some .underWay := progress_of_get? hstage
  have hlast : ((s.outline.put name (.ended none)).note (.ended name none)).lastFor w name =
      Agenda.released w name (a.processed ++ [name]) := by
    refine hbalanced.lastFor_eq htidy hw hunder hfailure fun n => ?_
    rw [← (h.traced hw hst).ended_iff (by simp)]
    exact hin.serial.ended_iff
  have hidle : ∀ n ∈ Agenda.released w name (a.processed ++ [name]), s.stages.get? n = some .idle := by
    intro n hn
    obtain ⟨hscope, hwaits⟩ := List.mem_filter.1 hn
    have hprogress := hbalanced.idle_of_awaits htidy hunder hscope (of_decide_eq_true hwaits).1
    obtain ⟨stage, hget, hp⟩ := Option.map_eq_some_iff.1 hprogress
    cases stage with
    | idle => exact hget
    | _ => cases hp
  have hname : name ∉ Agenda.released w name (a.processed ++ [name]) := by
    intro hin
    have hrunning := hidle name hin
    rw [show s.stages.get? name = some (.running []) from hstage] at hrunning
    cases hrunning
  obtain ⟨free, hfinish⟩ := roster_finish_none (s := { s with queue := others }) hin.line hready
    (htidy.marked name (htidy.mem_scope hunder)) hfailure hlive hlast hidle hname
  rw [step_finish (hin.queue.trans hpending) hstage, hfinish]
  exact hin.finish hpending hothers hbounds rfl (hw.nodup.sublist List.filter_sublist) hidle _ _

/-- **A turn of a smooth walk leaves the agenda as it is or processes the first pending service.** -/
theorem Reached.inStep_step (hw : w.Sound) (hst : ∀ n ∈ w.scope, n ∈ statuses.keys)
    (hsmooth : w.visitor.Smooth statuses.keys) (h : Reached w statuses false [] s) (hin : s.roster.InStep a) :
    (s.step w).roster.InStep a ∨ a.pending ≠ [] ∧ (s.step w).roster.InStep (a.step w) := by
  have hquiet : ¬ Disturbed s.history := h.undisturbed hw hst hsmooth List.not_mem_nil
  have hqueue : s.queue = a.pending := hin.queue
  cases hin.serial with
  | between hdispatched hbounds =>
    cases hpending : a.pending with
    | nil =>
      rw [step_of_idle (hqueue.trans hpending)]
      exact Or.inl hin
    | cons name others =>
      have hlive : s.tokenCancelled = false := by
        rw [← Bool.not_eq_true, h.tokenCancelled_iff hw hst]
        exact hquiet
      have hstage : s.stages.get? name = some .dispatched := hdispatched name (hpending ▸ List.mem_cons_self)
      have hturn := roster_step_dispatched (w := w) (hqueue.trans hpending) hstage hlive
        (h.free_pos_of_between hw hst hsmooth hin hdispatched)
      rw [hturn]
      exact Or.inl (hin.begin hpending hdispatched hbounds _)
  | @inside name others rest hpending hstage hothers hbounds =>
    cases rest with
    | nil =>
      refine Or.inr ⟨?_, h.inStep_finish hw hst hquiet hin hpending hstage hothers hbounds⟩
      rw [hpending]
      exact List.cons_ne_nil name others
    | cons action rest =>
      have hfaithful := h.faithful hw hst
      have hperformed : Performed (w.visitor name) (action :: rest) (notesOf name s.history) :=
        hfaithful.follows name _ hstage
      have hkeys : s.statuses.keys = statuses.keys := hfaithful.keys
      obtain ⟨new, kept, hnew, hroster⟩ := roster_perform_smooth (hkeys ▸ hsmooth) hperformed.mem others rest
      have hstep : s.step w = s.perform w name others rest action := step_running (hqueue.trans hpending) hstage
      rw [hstep, hroster]
      exact Or.inl (hin.goOn hpending hstage hothers hbounds hnew kept)

/-- **As long as nothing happens from outside, a smooth walk is in step with the sequential algorithm.** -/
theorem Reached.exists_inStep (hw : w.Sound) (hst : ∀ n ∈ w.scope, n ∈ statuses.keys)
    (hsmooth : w.visitor.Smooth statuses.keys) (h : Reached w statuses false acts s) (hacts : acts = []) :
    ∃ a, s.roster.InStep a ∧ a = Agenda.after w a.processed.length := by
  -- the agenda counts its own steps, so turns that leave it as it is need no account
  induction h with
  | refl =>
    refine ⟨Agenda.start w, ?_, rfl⟩
    rw [roster_openRound_initial hw]
    refine ⟨rfl, hw.nodup.sublist List.filter_sublist, rfl, .between (fun n hn => if_pos hn) ?_⟩
    show bounds ((w.seeds.map Event.dispatched).reverse ++ []) = bounds []
    refine bounds_append_of_unbound fun e he => ?_
    obtain ⟨n, -, rfl⟩ := List.mem_map.1 (List.mem_reverse.1 he)
    rfl
  | @turn acts t hrun ih =>
    have hreached : Reached w statuses false [] t := hacts ▸ hrun
    obtain ⟨a, hin, hafter⟩ := ih hacts
    rcases hreached.inStep_step hw hst hsmooth hin with hin | ⟨hpending, hin⟩
    · exact ⟨a, hin, hafter⟩
    · obtain ⟨name, others, hcons⟩ := List.exists_cons_of_ne_nil hpending
      refine ⟨a.step w, hin, ?_⟩
      have hlength : (a.step w).processed.length = a.processed.length + 1 := by
        rw [Agenda.step_of_cons hcons]
        simp
      rw [hlength]
      exact congrArg (Agenda.step w) hafter
  | notice _ ih =>
    rw [roster_noteCancellation]
    exact ih hacts
  | outside _ _ _ _ => cases List.append_ne_nil_of_right_ne_nil _ (List.cons_ne_nil _ _) hacts

end State

end Rollout
