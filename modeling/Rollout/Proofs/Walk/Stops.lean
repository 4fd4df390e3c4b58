import Rollout.Proofs.Walk.Order
import Rollout.Proofs.Walk.Outcome
/-!
What stops a walk.  An error at the end of a visit and the cancellation by the caller are stops, and nothing is
dispatched once the history has one (`Prompt`).  So the prerequisites of whatever was visited ended well before any stop
(`Reached.precedes_stop`); and as long as there is none, a service is dispatched as soon as all its prerequisites have
ended well (`Reached.dispatched_iff`).

A walk is disturbed when its history has a stop (`Disturbed`), and stays so.  A visit that is turned away is a stop of
its own only in so far as there was one before: nobody is turned away without a reason.  That nothing is dispatched
after a stop is not a matter of looking at the history: a stop cancels the token or records a failure, and a round is
opened only while there is neither.
-/
namespace Rollout

open Relation (TransGen)

/-- A visit ends in error, or the caller cancels. -/
inductive Event.Stops : Event → Prop where
  | failed (name : String) (cause : Failure) : Stops (.ended name (some cause))
  | turnedAway (name : String) : Stops (.turnedAway name)
  | cancelled : Stops .cancelled

theorem Event.stops_iff (e : Event) : e.Stops ↔ e.fault? ≠ none := by
  constructor
  · intro h
    cases h <;> exact Option.some_ne_none _
  · intro h
    cases e with
    | ended name error =>
      cases error with
      | none => exact absurd rfl h
      | some cause => exact .failed name cause
    | turnedAway name => exact .turnedAway name
    | cancelled => exact .cancelled
    | _ => exact absurd rfl h

/-- The caller has cancelled, or a visitor has come to an end in error. -/
def Disturbed (history : List Event) : Prop := .cancelled ∈ history ∨ ∃ n cause, .ended n (some cause) ∈ history

theorem Disturbed.cons {history : List Event} (h : Disturbed history) (e : Event) : Disturbed (e :: history) := by
  rcases h with hmem | ⟨n, cause, hmem⟩
  · exact Or.inl (List.mem_cons_of_mem e hmem)
  · exact Or.inr ⟨n, cause, List.mem_cons_of_mem e hmem⟩

namespace Outline

variable {w : Walk} {o o' : Outline} {name : String}

/-! ## What every step keeps -/

/-- Whatever was dispatched was dispatched before any stop, and no visit is turned away without a reason. -/
structure Prompt (o : Outline) : Prop where
  dispatched : ∀ n, .dispatched n ∈ o.history → ∀ e : Event, e.Stops → Precedes (.dispatched n) e o.history
  tripped : o.tripped = true → Disturbed o.history
  turnedAway : ∀ n, .turnedAway n ∈ o.history → Disturbed o.history

theorem Prompt.of_same (h : o.Prompt) (hhistory : o'.history = o.history) (htripped : o'.tripped = o.tripped) :
    o'.Prompt := by
  refine ⟨?_, ?_, ?_⟩
  · rw [hhistory]
    exact h.dispatched
  · rw [hhistory, htripped]
    exact h.tripped
  · rw [hhistory]
    exact h.turnedAway

theorem Prompt.note (h : o.Prompt) {e : Event} (hdispatch : ∀ n, e ≠ .dispatched n)
    (haway : ∀ n, e = .turnedAway n → Disturbed o.history) : (o.note e).Prompt := by
  refine ⟨fun n hn stop hstop => ?_, fun ht => (h.tripped ht).cons e, fun n hn => ?_⟩
  · have hbefore : .dispatched n ∈ o.history := (List.mem_cons.1 hn).resolve_left (hdispatch n).symm
    exact (h.dispatched n hbefore stop hstop).cons fun _ => hbefore
  · rcases List.mem_cons.1 hn with heq | hbefore
    · exact (haway n heq.symm).cons e
    · exact (h.turnedAway n hbefore).cons e

theorem Prompt.cancel (h : o.Prompt) : o.cancel.Prompt := by
  cases hc : o.callerCancelled with
  | true =>
    have hhistory : o.cancel.history = o.history := if_pos hc
    exact h.of_same hhistory rfl
  | false =>
    have hhistory : o.cancel.history = .cancelled :: o.history := if_neg (by simp [hc])
    have hnoted : (o.note .cancelled).Prompt := h.note nofun nofun
    exact hnoted.of_same hhistory rfl

theorem Prompt.dispatch (h : o.Prompt) (names : List String) (hquiet : ∀ e ∈ o.history, ¬ e.Stops) :
    (o.dispatch names).Prompt := by
  have hquiet' : ∀ e ∈ (o.dispatch names).history, ¬ e.Stops := by
    intro e he
    rcases List.mem_append.1 he with hnew | hbefore
    · simp only [List.mem_reverse, List.mem_map] at hnew
      obtain ⟨n, -, rfl⟩ := hnew
      nofun
    · exact hquiet e hbefore
  refine ⟨fun n _ stop hstop => precedes_of_not_mem fun hmem => hquiet' stop hmem hstop, fun ht => ?_, fun n hn => ?_⟩
  · rcases h.tripped ht with hmem | ⟨n, cause, hmem⟩
    · exact absurd .cancelled (hquiet _ hmem)
    · exact absurd (.failed n cause) (hquiet _ hmem)
  · exact absurd (.turnedAway n) (hquiet' _ hn)

theorem Judged.not_stops (h : o.Judged) (hf : o.failure = none) (hc : o.callerCancelled = false) :
    ∀ e ∈ o.history, ¬ e.Stops := by
  intro e he hstops
  rcases h.faults hf e he with hfault | rfl
  · exact (Event.stops_iff e).1 hstops hfault
  · rw [h.cancelled.2 he] at hc
    cases hc

theorem Prompt.finish (h : o.Prompt) (htidy : o.Tidy w) (hjudged : o.Judged) (hname : name ∈ w.scope)
    (error : Option Failure) : (o.finish w name error).Prompt := by
  have htidy' := (htidy.put name (.ended error)).note (.ended name error)
  have hput : (o.put name (.ended error)).Prompt := h.of_same rfl rfl
  have hnoted : ((o.put name (.ended error)).note (.ended name error)).Prompt := hput.note nofun nofun
  unfold Outline.finish
  refine conclude_cases htidy'.ready (htidy'.marked name hname) ?_ ?_ ?_ ?_
  · rintro cause rfl
    refine ⟨hnoted.dispatched, fun _ => Or.inr ⟨name, cause, List.mem_cons_self⟩, hnoted.turnedAway⟩
  · exact fun _ _ => hnoted.of_same rfl rfl
  · exact fun _ _ _ => hnoted.of_same rfl rfl
  · rintro rfl hf hc
    have hcounted : (((o.put name (.ended none)).note (.ended name none)).counted w name).Prompt :=
      hnoted.of_same rfl rfl
    refine hcounted.dispatch _ fun e he hstops => ?_
    rcases List.mem_cons.1 he with rfl | hbefore
    · cases hstops
    · exact hjudged.not_stops hf hc e hbefore hstops

theorem Prompt.turnAway (h : o.Prompt) (htidy : o.Tidy w) (hjudged : o.Judged) (htoken : o.tokenCancelled = true) :
    (o.turnAway w name).Prompt := by
  have hready : ((o.put name (.ended (some .cancelled))).note (.turnedAway name)).ready = [] := htidy.ready
  have hdisturbed : Disturbed o.history := by
    rcases Bool.or_eq_true_iff.1 htoken with hc | ht
    · exact Or.inl (hjudged.cancelled.1 hc)
    · exact h.tripped ht
  have hput : (o.put name (.ended (some .cancelled))).Prompt := h.of_same rfl rfl
  have hnoted : ((o.put name (.ended (some .cancelled))).note (.turnedAway name)).Prompt :=
    hput.note nofun fun _ _ => hdisturbed
  unfold Outline.turnAway
  rw [conclude_some hready]
  exact ⟨hnoted.dispatched, fun _ => hdisturbed.cons _, hnoted.turnedAway⟩

theorem Prompt.step (h : o.Prompt) (htidy : o.Tidy w) (hjudged : o.Judged) (hstep : o.Step w o') : o'.Prompt := by
  cases hstep with
  | still => exact h
  | @begin name _ _ =>
    have hput : (o.put name .underWay).Prompt := h.of_same rfl rfl
    exact hput.note nofun nofun
  | cancel _ => exact h.cancel
  | token _ => exact h.note nofun nofun
  | status other _ => exact h.note nofun nofun
  | log text _ => exact h.note nofun nofun
  | write other status _ => exact h.of_same rfl rfl
  | finish error hp => exact h.finish htidy hjudged (htidy.mem_scope hp) error
  | turnAway _ htoken => exact h.turnAway htidy hjudged htoken

theorem prompt_initial {statuses : Table Status} {callerCancelled : Bool} :
    (Outline.initial w statuses callerCancelled).openRound.Prompt := by
  have hfirst : Prompt { (Outline.initial w statuses callerCancelled).notice with ready := [] } := by
    have hhistory : ∀ e ∈ (if callerCancelled then [Event.cancelled] else []), e = .cancelled := by
      intro e he
      split at he
      · exact List.mem_singleton.1 he
      · cases he
    refine ⟨fun n hn => ?_, nofun, fun n hn => ?_⟩
    · cases hhistory _ hn
    · cases hhistory _ hn
  unfold openRound
  split
  · rename_i hlive
    refine hfirst.dispatch _ fun e he => ?_
    have hnone : callerCancelled = false := by
      cases callerCancelled with
      | false => rfl
      | true => cases hlive
    subst hnone
    cases he
  · exact hfirst

end Outline

open Outline

namespace State

variable {w : Walk} {statuses : Table Status} {callerCancelled : Bool} {acts : List Outside} {s : State}

/-- **In every state of a walk, whatever was dispatched was dispatched before any stop.** -/
theorem Reached.prompt (hw : w.Sound) (hst : ∀ n ∈ w.scope, n ∈ statuses.keys)
    (h : Reached w statuses callerCancelled acts s) : s.outline.Prompt := by
  refine Reached.induction (P := fun _ o => o.Prompt) hw prompt_initial ?_ ?_ ?_ h
  · exact fun _ _ _ hrun hprompt hstep => hprompt.step (hrun.tidy hw hst) (hrun.judged hw hst) hstep
  · exact fun _ _ _ hprompt => hprompt.of_same rfl rfl
  · intro _ _ act _ hprompt _
    cases act with
    | release _ => exact hprompt
    | cancel => exact hprompt.cancel
    | setStatus _ _ => exact hprompt.of_same rfl rfl

/-! ## Visits after a stop -/

/-- **What a visited service waits for ended well, and did so before any stop.** -/
theorem Reached.precedes_stop (hw : w.Sound) (hst : ∀ n ∈ w.scope, n ∈ statuses.keys)
    (h : Reached w statuses callerCancelled acts s) {a b : String} (hab : w.Awaits a b) (hbegan : .began a ∈ s.history)
    {e : Event} (he : e.Stops) : .ended b none ∈ s.history ∧ Precedes (.ended b none) e s.history := by
  have hdispatched : .dispatched a ∈ s.history := ((h.traced hw hst).dispatched_precedes_began a).mem hbegan
  have hended : Precedes (.ended b none) (.dispatched a) s.history := h.fed hw hst a b hab
  have hstop : Precedes (.dispatched a) e s.history := (h.prompt hw hst).dispatched a hdispatched e he
  exact ⟨hended.mem hdispatched, hended.trans hstop⟩

theorem Reached.not_began_of_cancelled (hw : w.Sound) (hst : ∀ n ∈ w.scope, n ∈ statuses.keys)
    (h : Reached w statuses true acts s) (a : String) : .began a ∉ s.history := by
  intro hbegan
  have hdispatched : .dispatched a ∈ s.history := ((h.traced hw hst).dispatched_precedes_began a).mem hbegan
  -- the cancellation is the oldest event, and the dispatch would be older
  have hfirst : (initial w statuses true).openRound.history <:+ s.history := Reached.grows hw hst Runs.refl h
  obtain ⟨later, hlater⟩ := hfirst
  have hnothing := (h.prompt hw hst).dispatched a hdispatched .cancelled .cancelled later [] hlater.symm
  cases hnothing

theorem Reached.mem_scope_of_turnedAway (hw : w.Sound) (hst : ∀ n ∈ w.scope, n ∈ statuses.keys)
    (h : Reached w statuses callerCancelled acts s) {name : String} (haway : .turnedAway name ∈ s.history) :
    name ∈ w.scope := by
  by_contra hout
  have hnone : s.outline.progress name = none := not_not.1 fun hp => hout (((h.tidy hw hst).covered name).2 hp)
  have hrecord := h.traced hw hst name
  rw [hnone] at hrecord
  rw [← mem_visitOf name (.turnedAway name) rfl] at haway
  change Record name none (visitOf name s.history) at hrecord
  generalize visitOf name s.history = events at hrecord haway
  cases hrecord
  cases haway

theorem Reached.not_began_of_failed (hw : w.Sound) (hst : ∀ n ∈ w.scope, n ∈ statuses.keys)
    (h : Reached w statuses callerCancelled acts s) {a f : String} (haf : TransGen w.Awaits a f)
    (hfailed : (∃ cause, .ended f (some cause) ∈ s.history) ∨ .turnedAway f ∈ s.history) : .began a ∉ s.history := by
  intro hbegan
  have hended : .ended f none ∈ s.history := (h.precedes_of_awaits hw hst haf).mem hbegan
  obtain ⟨hnone, haway⟩ := (h.traced hw hst).ended_unique hended
  rcases hfailed with ⟨cause, hmem⟩ | hmem
  · exact hnone cause hmem
  · exact haway hmem

/-! ## Nothing is held back -/

theorem Reached.failure_of_undisturbed (hw : w.Sound) (hst : ∀ n ∈ w.scope, n ∈ statuses.keys)
    (h : Reached w statuses callerCancelled acts s) (hquiet : ¬ Disturbed s.history) : s.failure = none := by
  have hnofault : ∀ e ∈ s.history.reverse, e.fault? = none := by
    intro e he
    by_contra hfault
    have hmem : e ∈ s.history := List.mem_reverse.1 he
    cases (Event.stops_iff e).2 hfault with
    | failed n cause => exact hquiet (Or.inr ⟨n, cause, hmem⟩)
    | turnedAway n => exact hquiet ((h.prompt hw hst).turnedAway n hmem)
    | cancelled => exact hquiet (Or.inl hmem)
  have hverdict : verdict s.history.reverse = none := verdict_append_of_quiet [] _ hnofault
  have hnotice : s.outline.notice.failure = none := (h.judged hw hst).verdict.trans hverdict
  exact notice_failure_eq_none hnotice

/-- **As long as nothing has disturbed a walk, the services dispatched are those that wait for nothing more.** -/
theorem Reached.dispatched_iff (hw : w.Sound) (hst : ∀ n ∈ w.scope, n ∈ statuses.keys)
    (h : Reached w statuses callerCancelled acts s) (hquiet : ¬ Disturbed s.history) (n : String) :
    .dispatched n ∈ s.history ↔ n ∈ w.scope ∧ ∀ b ∈ w.prerequisites n, .ended b none ∈ s.history := by
  have htidy := h.tidy hw hst
  have htraced := h.traced hw hst
  have hbalanced := h.balanced hw hst
  have hended : ∀ b, s.outline.progress b = some (.ended none) ↔ .ended b none ∈ s.history :=
    fun b => (htraced.ended_iff (by simp)).symm
  constructor
  · intro hdispatched
    have hprogress : ∃ p, s.outline.progress n = some p ∧ p ≠ .idle := by
      rcases htraced.progress_of_dispatched hdispatched with hp | hp | ⟨error, hp⟩
      · exact ⟨_, hp, nofun⟩
      · exact ⟨_, hp, nofun⟩
      · exact ⟨_, hp, nofun⟩
    obtain ⟨p, hp, hidle⟩ := hprogress
    exact ⟨htidy.mem_scope hp, fun b hb => (hended b).1 (hbalanced.begun n p hp hidle b hb)⟩
  · rintro ⟨hn, hresolved⟩
    obtain ⟨p, hp⟩ := Option.ne_none_iff_exists'.1 ((htidy.covered n).1 hn)
    refine htraced.dispatched_of_progress hp ?_
    rintro rfl
    have hzero : s.outline.remaining w n = 0 := remaining_eq_zero_iff.2 fun b hb => (hended b).2 (hresolved b hb)
    exact hbalanced.waits (h.failure_of_undisturbed hw hst hquiet) n hp hzero

end State

end Rollout
