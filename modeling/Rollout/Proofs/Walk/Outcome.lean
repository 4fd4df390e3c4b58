import Rollout.Proofs.Walk.Balance
/-!
What a walk comes to, read off its history.  The failure that it will report is the first failure of a visit, or else a
cancellation, whichever way the cancellation came and whenever it is noticed (`Reached.judged`).  A walk that is done
without a failure has visited all that it covers: otherwise the first service not visited would wait for nothing
(`Reached.ended_of_done`).

A history has a verdict, whether the walk is done or not (`verdict`), and a walk records failures one by one
(`recorded`).  The two agree event by event: an event gives something to record or it does not (`Event.fault?`), and the
verdict takes one more event in the way in which a walk records it (`verdict_snoc`).  Only the failure of a visit takes
the place of a cancellation, and nothing takes the place of that.

A cancellation by the caller is recorded when it is noticed, which may be later than it came, but not later than the
next round or the next rest.  So the verdict is compared with what would be recorded if it were noticed now (`Judged`).
A cancellation that nobody has noticed yet makes no difference to what is recorded next.
-/
namespace Rollout

/-! ## The verdict on some events -/

def Event.failure? : Event → Option Failure
  | .ended name (some cause) => if cause.isCancelled then none else some (.visitFailed name cause)
  | _ => none

def Event.isCancellation : Event → Bool
  | .cancelled => true
  | .turnedAway _ => true
  | .ended _ (some cause) => cause.isCancelled
  | _ => false

/-- What some events come to, oldest first: the first failure of a visit, or else a cancellation if there is one. -/
def verdict (events : List Event) : Option Failure :=
  match events.findSome? Event.failure? with
  | some f => some f
  | none => if events.any Event.isCancellation then some .cancelled else none

/-- What an event gives a walk to record. -/
def Event.fault? : Event → Option Failure
  | .cancelled => some .cancelled
  | .turnedAway _ => some .cancelled
  | .ended name (some cause) => some (State.classify name cause)
  | _ => none

/-- What is recorded after one more failure: only the failure of a visit takes the place of a cancellation. -/
def recorded (current : Option Failure) (f : Failure) : Option Failure :=
  match current with
  | none => some f
  | some current => if current.isCancelled && !f.isCancelled then some f else some current

@[simp] theorem Failure.isCancelled_cancelled : cancelled.isCancelled = true := rfl

theorem Failure.eq_cancelled {f : Failure} (h : f.isCancelled = true) : f = .cancelled := by
  cases f <;> simp_all [Failure.isCancelled]

theorem recorded_cancelled_some (current : Failure) : recorded (some current) .cancelled = some current := by
  simp [recorded]

theorem recorded_recorded_cancelled (current : Option Failure) (f : Failure) :
    recorded (recorded current f) .cancelled = recorded current f := by
  cases h : recorded current f with
  | none =>
    unfold recorded at h
    split at h
    · cases h
    · split at h <;> cases h
  | some kept => exact recorded_cancelled_some kept

theorem recorded_cancelled_recorded (current : Option Failure) (f : Failure) :
    recorded (recorded current .cancelled) f = recorded current f := by
  cases current with
  | some current => rw [recorded_cancelled_some]
  | none =>
    show recorded (some .cancelled) f = some f
    unfold recorded
    cases hf : f.isCancelled with
    | false => simp
    | true => simp [Failure.eq_cancelled hf]

theorem isCancelled_of_failure? {events : List Event} {f : Failure} (h : events.findSome? Event.failure? = some f) :
    f.isCancelled = false := by
  obtain ⟨e, -, he⟩ := List.exists_of_findSome?_eq_some h
  unfold Event.failure? at he
  split at he
  · split at he
    · cases he
    · cases he
      rfl
  · cases he

theorem isCancelled_classify (name : String) (cause : Failure) :
    (State.classify name cause).isCancelled = cause.isCancelled := by
  unfold State.classify
  cases hc : cause.isCancelled with
  | true => rfl
  | false => rfl

theorem Event.failure?_eq (e : Event) : e.failure? = e.fault?.filter fun f => !f.isCancelled := by
  cases e with
  | ended name error =>
    cases error with
    | none => rfl
    | some cause =>
      unfold failure? fault?
      dsimp only
      rw [Option.filter_some, isCancelled_classify]
      unfold State.classify
      cases cause.isCancelled with
      | true => rfl
      | false => rfl
  | _ => rfl

theorem Event.isCancellation_eq (e : Event) : e.isCancellation = e.fault?.any Failure.isCancelled := by
  cases e with
  | ended name error =>
    cases error with
    | none => rfl
    | some cause => exact (isCancelled_classify name cause).symm
  | _ => rfl

theorem verdict_snoc (events : List Event) (e : Event) :
    verdict (events ++ [e]) = match e.fault? with
      | none => verdict events
      | some f => recorded (verdict events) f := by
  have hlast : [e].findSome? Event.failure? = e.fault?.filter fun f => !f.isCancelled := by
    rw [← Event.failure?_eq]
    cases h : e.failure? <;> simp [h]
  unfold verdict
  rw [List.findSome?_append, List.any_append, hlast, List.any_cons, List.any_nil, Bool.or_false,
    Event.isCancellation_eq]
  cases hfirst : events.findSome? Event.failure? with
  | some f =>
    have hf := isCancelled_of_failure? hfirst
    cases e.fault? with
    | none => rfl
    | some g => simp [recorded, hf]
  | none =>
    cases e.fault? with
    | none => simp
    | some g =>
      cases hg : g.isCancelled with
      | false => cases events.any Event.isCancellation <;> simp [recorded, Option.filter_some, hg]
      | true =>
        rw [Failure.eq_cancelled hg]
        cases events.any Event.isCancellation <;> simp [recorded, Option.filter_some]

theorem verdict_append_of_quiet (events : List Event) :
    ∀ new : List Event, (∀ e ∈ new, e.fault? = none) → verdict (events ++ new) = verdict events
  | [], _ => by rw [List.append_nil]
  | e :: new, h => by
    rw [← List.singleton_append, ← List.append_assoc,
      verdict_append_of_quiet (events ++ [e]) new fun e he => h e (List.mem_cons_of_mem _ he), verdict_snoc,
      h e List.mem_cons_self]

namespace Outline

variable {w : Walk} {o o' : Outline} {name : String}

theorem failure_notice (o : Outline) :
    o.notice.failure = if o.callerCancelled then recorded o.failure .cancelled else o.failure := by
  unfold notice
  cases o.failure with
  | none => cases o.callerCancelled <;> rfl
  | some f =>
    rw [recorded_cancelled_some]
    cases o.callerCancelled <;> rfl

/-! ## What every step keeps -/

/-- What is recorded goes with the history, once a cancellation by the caller is noticed. -/
structure Judged (o : Outline) : Prop where
  verdict : o.notice.failure = verdict o.history.reverse
  faults : o.failure = none → ∀ e ∈ o.history, e.fault? = none ∨ e = .cancelled
  cancelled : o.callerCancelled = true ↔ .cancelled ∈ o.history

theorem notice_congr (hfailure : o'.failure = o.failure) (hcancelled : o'.callerCancelled = o.callerCancelled) :
    o'.notice.failure = o.notice.failure := by
  rw [failure_notice, failure_notice, hfailure, hcancelled]

theorem Judged.quiet (h : o.Judged) (new : List Event) (hnew : ∀ e ∈ new, e.fault? = none)
    (hfailure : o'.failure = o.failure) (hcancelled : o'.callerCancelled = o.callerCancelled)
    (hhistory : o'.history = new ++ o.history) : o'.Judged := by
  refine ⟨?_, fun hf e he => ?_, ?_⟩
  · rw [notice_congr hfailure hcancelled, hhistory, List.reverse_append,
      verdict_append_of_quiet _ _ fun e he => hnew e (List.mem_reverse.1 he)]
    exact h.verdict
  · rw [hhistory] at he
    rcases List.mem_append.1 he with he | he
    · exact Or.inl (hnew e he)
    · exact h.faults (hfailure ▸ hf) e he
  · have hout : Event.cancelled ∉ new := fun hmem => by cases hnew _ hmem
    rw [hcancelled, h.cancelled, hhistory, List.mem_append]
    simp [hout]

theorem Judged.fault (h : o.Judged) {e : Event} {f : Failure} (hfault : e.fault? = some f) (he : e ≠ .cancelled)
    (hfailure : o'.failure = recorded o.failure f) (hcancelled : o'.callerCancelled = o.callerCancelled)
    (hhistory : o'.history = e :: o.history) : o'.Judged := by
  refine ⟨?_, fun hf => ?_, ?_⟩
  · rw [hhistory, List.reverse_cons, verdict_snoc, hfault, ← h.verdict, failure_notice, failure_notice, hfailure,
      hcancelled]
    cases o.callerCancelled with
    | false => rfl
    | true =>
      dsimp only
      rw [if_pos rfl, if_pos rfl, recorded_recorded_cancelled, recorded_cancelled_recorded]
  · rw [hfailure] at hf
    unfold recorded at hf
    split at hf
    · cases hf
    · split at hf <;> cases hf
  · rw [hcancelled, h.cancelled, hhistory]
    simp [Ne.symm he]

theorem Judged.cancel (h : o.Judged) : o.cancel.Judged := by
  have hhistory : o.cancel.history = if o.callerCancelled then o.history else .cancelled :: o.history := rfl
  cases hc : o.callerCancelled with
  | true =>
    rw [hc] at hhistory
    exact h.quiet [] nofun rfl hc.symm hhistory
  | false =>
    rw [hc] at hhistory
    refine ⟨?_, fun hf e he => ?_, ?_⟩
    · have hverdict := h.verdict
      rw [failure_notice, hc, if_neg Bool.false_ne_true] at hverdict
      rw [failure_notice, hhistory]
      show recorded o.failure .cancelled = _
      rw [if_neg Bool.false_ne_true, List.reverse_cons, verdict_snoc, ← hverdict]
      rfl
    · rw [hhistory, if_neg Bool.false_ne_true] at he
      rcases List.mem_cons.1 he with rfl | he
      · exact Or.inr rfl
      · exact h.faults hf e he
    · rw [hhistory, if_neg Bool.false_ne_true]
      exact iff_of_true rfl List.mem_cons_self

theorem Judged.notice (h : o.Judged) : o.notice.Judged := by
  refine ⟨?_, fun hf => h.faults (notice_failure_eq_none hf), h.cancelled⟩
  have hagain : o.notice.notice.failure = o.notice.failure := by
    rw [failure_notice, failure_notice, show o.notice.callerCancelled = o.callerCancelled from rfl]
    cases o.callerCancelled with
    | false => rfl
    | true => exact recorded_recorded_cancelled o.failure .cancelled
  rw [hagain]
  exact h.verdict

theorem Judged.dispatch (h : o.Judged) (names : List String) : (o.dispatch names).Judged := by
  refine h.quiet _ (fun e he => ?_) rfl rfl rfl
  simp only [List.mem_reverse, List.mem_map] at he
  obtain ⟨n, -, rfl⟩ := he
  rfl

theorem Judged.finish (h : o.Judged) (htidy : o.Tidy w) (hname : name ∈ w.scope) (error : Option Failure) :
    (o.finish w name error).Judged := by
  have htidy' := (htidy.put name (.ended error)).note (.ended name error)
  unfold Outline.finish
  refine conclude_cases htidy'.ready (htidy'.marked name hname) ?_ ?_ ?_ ?_
  · rintro cause rfl
    exact h.fault (e := .ended name (some cause)) rfl nofun rfl rfl rfl
  · rintro rfl _
    exact h.quiet [.ended name none] (by simp [Event.fault?]) rfl rfl rfl
  -- the caller cancelled during this visit, and it is noticed now
  · rintro rfl hf hc
    have hnoted : ((o.put name (.ended none)).note (.ended name none)).Judged :=
      h.quiet [.ended name none] (by simp [Event.fault?]) rfl rfl rfl
    refine ⟨?_, nofun, hnoted.cancelled⟩
    have hverdict := hnoted.verdict
    rw [failure_notice, hf, hc, if_pos rfl] at hverdict
    rw [failure_notice]
    show (if o.callerCancelled then recorded (some .cancelled) .cancelled else some .cancelled) = _
    rw [recorded_cancelled_some, ite_self]
    exact hverdict
  · rintro rfl _ _
    have hcounted : Judged (((o.put name (.ended none)).note (.ended name none)).counted w name) :=
      h.quiet [.ended name none] (by simp [Event.fault?]) rfl rfl rfl
    exact hcounted.dispatch _

theorem Judged.turnAway (h : o.Judged) (htidy : o.Tidy w) : (o.turnAway w name).Judged := by
  have hready : ((o.put name (.ended (some .cancelled))).note (.turnedAway name)).ready = [] := htidy.ready
  unfold Outline.turnAway
  rw [conclude_some hready]
  exact h.fault (e := .turnedAway name) rfl nofun rfl rfl rfl

theorem Judged.step (h : o.Judged) (htidy : o.Tidy w) (hstep : o.Step w o') : o'.Judged := by
  cases hstep with
  | still => exact h
  | @begin name _ _ => exact h.quiet [.began name] (by simp [Event.fault?]) rfl rfl rfl
  | cancel _ => exact h.cancel
  | @token name _ => exact h.quiet [.token name _] (by simp [Event.fault?]) rfl rfl rfl
  | @status name other _ => exact h.quiet [.status name other _] (by simp [Event.fault?]) rfl rfl rfl
  | @log name text _ => exact h.quiet [.log name text] (by simp [Event.fault?]) rfl rfl rfl
  | write other status _ => exact h.quiet [] nofun rfl rfl rfl
  | finish error hp => exact h.finish htidy (htidy.mem_scope hp) error
  | turnAway _ _ => exact h.turnAway htidy

theorem judged_initial {statuses : Table Status} {callerCancelled : Bool} :
    (Outline.initial w statuses callerCancelled).openRound.Judged := by
  have hfirst : (Outline.initial w statuses callerCancelled).Judged := by
    cases callerCancelled with
    | false => exact ⟨rfl, nofun, by simp [Outline.initial]⟩
    | true =>
      refine ⟨rfl, fun _ e he => ?_, by simp [Outline.initial]⟩
      exact Or.inr (List.mem_singleton.1 he)
  have hclear : Judged { (Outline.initial w statuses callerCancelled).notice with ready := [] } :=
    hfirst.notice.quiet [] nofun rfl rfl rfl
  unfold openRound
  split
  · exact hclear.dispatch _
  · exact hclear

end Outline

open Outline

namespace State

variable {w : Walk} {statuses : Table Status} {callerCancelled : Bool} {acts : List Outside} {s : State}

/-- **In every state of a walk, what is recorded is the verdict on its history**, up to a cancellation that will still
be noticed. -/
theorem Reached.judged (hw : w.Sound) (hst : ∀ n ∈ w.scope, n ∈ statuses.keys)
    (h : Reached w statuses callerCancelled acts s) : s.outline.Judged := by
  refine Reached.induction (P := fun _ o => o.Judged) hw judged_initial ?_ ?_ ?_ h
  · exact fun _ _ _ hrun hjudged hstep => hjudged.step (hrun.tidy hw hst) hstep
  · exact fun _ _ _ hjudged => hjudged.notice
  · intro _ _ act _ hjudged _
    cases act with
    | release _ => exact hjudged
    | cancel => exact hjudged.cancel
    | setStatus _ _ => exact hjudged.quiet [] nofun rfl rfl rfl

theorem Reached.cancelled_mem (hw : w.Sound) (hst : ∀ n ∈ w.scope, n ∈ statuses.keys)
    (h : Reached w statuses callerCancelled acts s) (hc : callerCancelled = true ∨ .cancel ∈ acts) :
    .cancelled ∈ s.history := by
  revert hc
  refine Reached.induction (P := fun acts o => callerCancelled = true ∨ .cancel ∈ acts → .cancelled ∈ o.history) hw
    ?_ ?_ ?_ ?_ h
  · rintro (rfl | hnone)
    · refine judged_initial.cancelled.1 ?_
      unfold Outline.openRound
      split
      · rfl
      · rfl
    · cases hnone
  · exact fun _ _ _ hrun hmem hstep hc => (hstep.suffix (hrun.tidy hw hst)).subset (hmem hc)
  · exact fun _ _ _ hmem => hmem
  · intro acts s act hrun hmem _ hc
    cases act with
    | cancel => exact (hrun.judged hw hst).cancel.cancelled.1 rfl
    | release _ => exact hmem (by simpa using hc)
    | setStatus _ _ => exact hmem (by simpa using hc)

/-- **A walk that is done without a failure has visited all that it covers, and each visit ended well.** -/
theorem Reached.ended_of_done (hw : w.Sound) (hst : ∀ n ∈ w.scope, n ∈ statuses.keys)
    (h : Reached w statuses callerCancelled acts s) (hdone : s.done = true) (hf : s.failure = none) :
    ∀ n ∈ w.scope, s.outline.progress n = some (.ended none) := by
  have htidy := h.tidy hw hst
  have hbalanced := h.balanced hw hst
  have hjudged := h.judged hw hst
  have hvisits : ∀ n, s.outline.progress n ≠ some .waiting ∧ s.outline.progress n ≠ some .underWay :=
    (done_iff.1 hdone).resolve_left fun haborted => haborted htidy.aborted
  intro n hn
  by_contra hnot
  obtain ⟨first, hfirst, hopen, hothers⟩ :=
    hw.exists_first (P := fun m => s.outline.progress m ≠ some (.ended none)) ⟨n, hn, hnot⟩
  -- nothing that it waits for is open, so it was dispatched, and nothing is in flight any more
  have hresolved : s.outline.remaining w first = 0 :=
    remaining_eq_zero_iff.2 fun b hb => not_not.1 (hothers b hb)
  cases hp : s.outline.progress first with
  | none => exact (htidy.covered first).1 hfirst hp
  | some p =>
    cases p with
    | idle => exact hbalanced.waits hf first hp hresolved
    | waiting => exact (hvisits first).1 hp
    | underWay => exact (hvisits first).2 hp
    | ended error =>
      cases error with
      | none => exact hopen hp
      | some cause =>
        rcases (h.traced hw hst).mem_of_ended hp with hmem | ⟨hmem, -⟩
        · rcases hjudged.faults hf _ hmem with hfault | heq
          · cases hfault
          · cases heq
        · rcases hjudged.faults hf _ hmem with hfault | heq
          · cases hfault
          · cases heq

end State

end Rollout
