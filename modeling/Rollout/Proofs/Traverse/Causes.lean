import Rollout.Proofs.Failure
import Rollout.Proofs.Traverse.Outcome
/-!
What becomes of the errors that visitors return.  A traversal passes an error on as a failed visit with that error right
behind it, and as a cancellation just if it is one itself, not if it wraps one (`State.Classifies`).  So the failure
that a traversal returns has the error of a visit for its cause, or no visit has failed (`Deployment.root_cause_kept`).

The verdict on a history is the failure of the first visit that failed, however many cancellations came before it
(`verdict_of_first`).  Where visits return nothing but cancellations, and where only the caller has cancelled, the
verdict is a cancellation.  These two cases are all there is to the result of a traversal that has come to its end; the
rest is what failures say of themselves, layer by layer, and has nothing to do with traversals.
-/
namespace Rollout

namespace State

/-- What a traversal makes of the error of a visit: a cancellation of a cancellation, and of anything else a failed
visit with the error behind it. -/
structure Classifies (name : String) (cause : Failure) : Prop where
  cancelled : classify name cause = .cancelled ↔ cause = .cancelled
  failed : cause ≠ .cancelled → classify name cause = .visitFailed name cause
  source : cause ≠ .cancelled → (classify name cause).source? = some cause.message
  chain : cause ≠ .cancelled → (classify name cause).chain = cause.message :: cause.chain

theorem classify_eq (name : String) (cause : Failure) :
    classify name cause = if cause = .cancelled then .cancelled else .visitFailed name cause := by
  unfold classify
  refine if_congr ⟨Failure.eq_cancelled, ?_⟩ rfl rfl
  rintro rfl
  rfl

theorem classifies (name : String) (cause : Failure) : Classifies name cause := by
  have heq := classify_eq name cause
  by_cases hcause : cause = .cancelled
  · rw [if_pos hcause] at heq
    have hnot : cause ≠ .cancelled → False := fun h => h hcause
    exact ⟨⟨fun _ => hcause, fun _ => heq⟩, fun h => (hnot h).elim, fun h => (hnot h).elim, fun h => (hnot h).elim⟩
  · rw [if_neg hcause] at heq
    refine ⟨⟨fun h => ?_, fun h => absurd h hcause⟩, fun _ => heq, fun _ => ?_, fun _ => ?_⟩
    · rw [heq] at h
      cases h
    · rw [heq]
      rfl
    · rw [heq]
      rfl

end State

/-! ## Verdicts and their causes -/

theorem Event.failure?_ended (name : String) (cause : Failure) : (Event.ended name (some cause)).failure? =
    if cause = .cancelled then none else some (.visitFailed name cause) := by
  unfold failure?
  refine if_congr ⟨Failure.eq_cancelled, ?_⟩ rfl rfl
  rintro rfl
  rfl

theorem Event.eq_ended_of_failure? {e : Event} {f : Failure} (h : e.failure? = some f) :
    ∃ name cause, e = .ended name (some cause) ∧ cause ≠ .cancelled ∧ f = .visitFailed name cause := by
  cases e with
  | ended name error =>
    cases error with
    | none => cases h
    | some cause =>
      rw [Event.failure?_ended] at h
      split at h
      · cases h
      · rename_i hcause
        exact ⟨name, cause, rfl, hcause, (Option.some.inj h).symm⟩
  | _ => cases h

theorem exists_of_verdict {events : List Event} {f : Failure} (h : verdict events = some f) (hf : f ≠ .cancelled) :
    ∃ name cause, .ended name (some cause) ∈ events ∧ f = State.classify name cause := by
  unfold verdict at h
  split at h
  · rename_i f' hfirst
    obtain rfl := Option.some.inj h
    obtain ⟨e, he, hfailure⟩ := List.exists_of_findSome?_eq_some hfirst
    obtain ⟨name, cause, rfl, hcause, rfl⟩ := Event.eq_ended_of_failure? hfailure
    exact ⟨name, cause, he, ((State.classifies name cause).failed hcause).symm⟩
  · split at h
    · exact absurd (Option.some.inj h).symm hf
    · cases h

/-- **The first visit that failed is the verdict**, and the cancellations before it are not. -/
theorem verdict_of_first {before after : List Event} {name : String} {cause : Failure} (hcause : cause ≠ .cancelled)
    (hbefore : ∀ n c, .ended n (some c) ∈ before → c = .cancelled) :
    verdict (before ++ .ended name (some cause) :: after) = some (State.classify name cause) := by
  have hnone : before.findSome? Event.failure? = none := by
    refine List.findSome?_eq_none_iff.2 fun e he => Option.eq_none_iff_forall_ne_some.2 fun f hf => ?_
    obtain ⟨n, c, rfl, hc, -⟩ := Event.eq_ended_of_failure? hf
    exact hc (hbefore n c he)
  unfold verdict
  rw [List.findSome?_append, hnone, Option.none_or, List.findSome?_cons, Event.failure?_ended, if_neg hcause,
    (State.classifies name cause).failed hcause]

theorem verdict_of_cancelled {events : List Event} {name : String} (h : .ended name (some .cancelled) ∈ events)
    (hall : ∀ n c, .ended n (some c) ∈ events → c = .cancelled) : verdict events = some .cancelled := by
  have hnone : events.findSome? Event.failure? = none := by
    refine List.findSome?_eq_none_iff.2 fun e he => Option.eq_none_iff_forall_ne_some.2 fun f hf => ?_
    obtain ⟨n, c, rfl, hc, -⟩ := Event.eq_ended_of_failure? hf
    exact hc (hall n c he)
  have hany : events.any Event.isCancellation = true := List.any_eq_true.2 ⟨_, h, rfl⟩
  unfold verdict
  rw [hnone, hany]
  rfl

/-! ## Results and their causes -/

structure Report.KeepsCauses (r : Report) : Prop where
  /-- What is returned is the error of a visit, or a cancellation. -/
  returned : ∀ f, r.result = .failed f → f ≠ .cancelled →
    ∃ name cause, .ended name (some cause) ∈ r.events ∧ f = State.classify name cause
  /-- The error of the first visit that fails is returned. -/
  first : ∀ before name cause after, r.events = before ++ .ended name (some cause) :: after → cause ≠ .cancelled →
    (∀ n c, .ended n (some c) ∈ before → c = .cancelled) → r.result = .failed (State.classify name cause)
  /-- A cancellation is returned where visits return nothing else. -/
  cancelled : ∀ name, .ended name (some .cancelled) ∈ r.events →
    (∀ n c, .ended n (some c) ∈ r.events → c = .cancelled) → r.result = .failed .cancelled

theorem Report.keepsCauses {r : Report} (h : r.result = .ofFailure (verdict r.events)) : r.KeepsCauses where
  returned := fun f hresult hf => by
    rw [h] at hresult
    cases hverdict : verdict r.events with
    | none =>
      rw [hverdict] at hresult
      cases hresult
    | some f' =>
      rw [hverdict] at hresult
      cases hresult
      exact exists_of_verdict hverdict hf
  first := fun before name cause after hevents hcause hbefore => by
    rw [h, hevents, verdict_of_first hcause hbefore]
    rfl
  cancelled := fun name hmem hall => by
    rw [h, verdict_of_cancelled hmem hall]
    rfl

namespace Deployment

variable {d : Deployment} {t : Traversal}

theorem result_eq_verdict (hd : d.Sound) (ht : t.Known d.graph) {limit : Option Limit} {visitor : Visitor}
    {callerCancelled : Bool} {script : Script}
    (hended : (d.traverse t limit visitor callerCancelled script).1.result ≠ .pending) :
    (d.traverse t limit visitor callerCancelled script).1.result =
      .ofFailure (verdict (d.traverse t limit visitor callerCancelled script).1.events) := by
  obtain ⟨w, hwalk, hw, -, -, -, -, hst⟩ := hd.exists_walk ht limit visitor
  obtain ⟨s, h, hrest, hevents, hresult, -⟩ := traverse_reached hwalk hw hst callerCancelled script
  have haborted : s.aborted = none := (h.tidy hw hst).aborted
  rw [hresult, ne_eq, State.result_eq_pending_iff haborted, Bool.not_eq_false] at hended
  rw [hresult, hevents, State.result_of_aborted haborted, if_pos hended, h.failure_eq_verdict hw hst hrest]

/-- **The root cause is never lost.**  A failure shows its root through any number of failed visits, a traversal puts
one failed visit around the error of a visit unless it is a cancellation itself, and what it returns is the first of
these. -/
theorem root_cause_kept (hd : d.Sound) (ht : t.Known d.graph) (limit : Option Limit) (visitor : Visitor)
    (callerCancelled : Bool) (script : Script) :
    (∀ f : Failure, f.KeepsRoot) ∧ (∀ name cause, State.Classifies name cause) ∧
      let report := (d.traverse t limit visitor callerCancelled script).1
      report.result ≠ .pending → report.KeepsCauses :=
  ⟨Failure.keepsRoot, State.classifies, fun hended => Report.keepsCauses (result_eq_verdict hd ht hended)⟩

theorem root_cause_kept_pair :
    let cause := Failure.visitFailed "disk" .cancelled
    let report := (pair.traverse .forward none (fun _ => [.fail cause]) false []).1
    report.result = .failed (.visitFailed "db" cause) ∧
      (Failure.visitFailed "db" cause).chain =
        ["Service 'disk' failed: Operation cancelled", "Operation cancelled"] := by
  intro cause report
  obtain ⟨-, hclassifies, hkeeps⟩ :=
    root_cause_kept (t := .forward) sound_pair nofun none (fun _ => [.fail cause]) false []
  have hended : report.result ≠ .pending := by decide +kernel
  have hevents : report.events = [.dispatched "db", .began "db"] ++ .ended "db" (some cause) :: [] := by decide +kernel
  have hresult := (hkeeps hended).first _ "db" cause [] hevents (by decide) (by simp)
  have hfailed := (hclassifies "db" cause).failed (by decide)
  rw [hfailed] at hresult
  refine ⟨hresult, ?_⟩
  have hchain := (hclassifies "db" cause).chain (by decide)
  rw [hfailed] at hchain
  exact hchain.trans (by decide +kernel)

end Deployment

end Rollout
