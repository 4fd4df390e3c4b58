import Rollout.Proofs.Deployment
import Rollout.Proofs.Walk.Outcome
import Rollout.Proofs.Walk.Rests
/-!
What a traversal comes to, said of the deployment it runs on and of its report.  A traversal that is not left pending
has let all its visits end, and its result is the verdict on its events (`traverse_result`).  If the result is good, it
has visited each service that it covers once, and nothing else (`traverse_complete`).

Both are said of a walk first.  A walk is done when every visit that was dispatched has ended, and every visitor that
began has come to its end (`Drained`); that can be read off its events alone.  A walk that is done without a failure has
had a good end of each visit that it covers, and as an event of a visit happens once at most, the services with such an
event are those of the scope, each once (`Reached.perm_scope`).
-/
namespace Rollout

open State (Reached)

/-! ## Whose visits begin and end well -/

def Event.begun? : Event → Option String
  | .began name => some name
  | _ => none

def Event.succeeded? : Event → Option String
  | .ended name none => some name
  | _ => none

def begun (events : List Event) : List String := events.filterMap Event.begun?

def succeeded (events : List Event) : List String := events.filterMap Event.succeeded?

theorem Event.begun?_eq_some_iff (e : Event) (name : String) : e.begun? = some name ↔ e = .began name := by
  cases e <;> simp [begun?]

theorem Event.succeeded?_eq_some_iff (e : Event) (name : String) : e.succeeded? = some name ↔ e = .ended name none := by
  cases e with
  | ended other error => cases error <;> simp [succeeded?]
  | _ => simp [succeeded?]

/-- Events of one kind name each of some services once if each of them has one such event and no other service has. -/
theorem perm_of_counts {kind : Event → Option String} {event : String → Event} {scope : List String}
    {events : List Event} (hkind : ∀ e name, kind e = some name ↔ e = event name) (hscope : scope.Nodup)
    (hmem : ∀ n ∈ scope, events.count (event n) = 1) (hout : ∀ n, n ∉ scope → events.count (event n) = 0) :
    (events.filterMap kind).Perm scope := List.perm_iff_count.2 fun n => by
  have hcount : (events.filterMap kind).count n = events.count (event n) := by
    rw [List.count_filterMap]
    exact List.countP_congr fun e _ => by simp [hkind]
  rw [hcount, hscope.count]
  split
  · rename_i hn
    exact hmem n hn
  · rename_i hn
    exact hout n hn

/-- Each of some services is visited once, each visit ends well, and no other service is visited. -/
structure Complete (scope : List String) (events : List Event) : Prop where
  begun : (begun events).Perm scope
  succeeded : (succeeded events).Perm scope
  length : (Rollout.succeeded events).length = scope.length

theorem Complete.reverse {scope : List String} {events : List Event} (h : Complete scope events) :
    Complete scope events.reverse := by
  have hreverse : ∀ kind : Event → Option String,
      (events.reverse.filterMap kind).Perm (events.filterMap kind) := fun kind =>
    (List.reverse_perm events).filterMap kind
  have hsucceeded := (hreverse _).trans h.succeeded
  exact ⟨(hreverse _).trans h.begun, hsucceeded, hsucceeded.length_eq⟩

/-! ## Results -/

/-- Every visit that was dispatched has ended, and every visitor that began has come to its end. -/
structure Drained (events : List Event) : Prop where
  dispatched : ∀ name, .dispatched name ∈ events → (∃ error, .ended name error ∈ events) ∨ .turnedAway name ∈ events
  began : ∀ name, .began name ∈ events → ∃ error, .ended name error ∈ events

theorem drained_reverse {events : List Event} : Drained events.reverse ↔ Drained events := by
  constructor
  · exact fun h => ⟨by simpa using h.dispatched, by simpa using h.began⟩
  · exact fun h => ⟨by simpa using h.dispatched, by simpa using h.began⟩

def Result.ofFailure : Option Failure → Result
  | none => .ok
  | some failure => .failed failure

namespace State

variable {w : Walk} {statuses : Table Status} {callerCancelled : Bool} {acts : List Outside} {s : State}

theorem result_of_aborted (h : s.aborted = none) : s.result = if s.done then .ofFailure s.failure else .pending := by
  unfold result
  rw [h]
  dsimp only
  split
  · cases s.failure <;> rfl
  · rfl

theorem result_eq_ok_iff (h : s.aborted = none) : s.result = .ok ↔ s.done = true ∧ s.failure = none := by
  rw [result_of_aborted h]
  cases s.done with
  | false => simp
  | true => cases s.failure <;> simp [Result.ofFailure]

theorem result_eq_pending_iff (h : s.aborted = none) : s.result = .pending ↔ s.done = false := by
  rw [result_of_aborted h]
  cases s.done with
  | false => simp
  | true => cases s.failure <;> simp [Result.ofFailure]

theorem Reached.perm_scope (hw : w.Sound) (hst : ∀ n ∈ w.scope, n ∈ statuses.keys)
    (h : Reached w statuses callerCancelled acts s) {kind : Event → Option String} {event : String → Event}
    (hkind : ∀ e name, kind e = some name ↔ e = event name) (hvisit : ∀ n, (event n).visit? = some n)
    (hmem : ∀ n ∈ w.scope, event n ∈ s.history) : (s.history.filterMap kind).Perm w.scope := by
  have htraced := h.traced hw hst
  refine perm_of_counts hkind hw.nodup (fun n hn => htraced.count_eq_one (hvisit n) (hmem n hn)) fun n hn => ?_
  exact htraced.count_eq_zero (hvisit n) (not_not.1 fun hp => hn (((h.tidy hw hst).covered n).2 hp))

/-- **A walk with no visit in flight and no failure recorded is complete.** -/
theorem Reached.complete (hw : w.Sound) (hst : ∀ n ∈ w.scope, n ∈ statuses.keys)
    (h : Reached w statuses callerCancelled acts s) (hdone : s.done = true) (hf : s.failure = none) :
    Complete w.scope s.history := by
  have htraced := h.traced hw hst
  have hended : ∀ n ∈ w.scope, .ended n none ∈ s.history := fun n hn =>
    (htraced.ended_iff (by simp)).2 (h.ended_of_done hw hst hdone hf n hn)
  have hbegun : (begun s.history).Perm w.scope := h.perm_scope hw hst Event.begun?_eq_some_iff (fun _ => rfl)
    fun n hn => (htraced.began_precedes_ended n none).mem (hended n hn)
  have hsucceeded : (succeeded s.history).Perm w.scope :=
    h.perm_scope hw hst Event.succeeded?_eq_some_iff (fun _ => rfl) hended
  exact ⟨hbegun, hsucceeded, hsucceeded.length_eq⟩

/-- **A walk is done when all its visits have ended.** -/
theorem Reached.done_iff_drained (hw : w.Sound) (hst : ∀ n ∈ w.scope, n ∈ statuses.keys)
    (h : Reached w statuses callerCancelled acts s) : s.done = true ↔ Drained s.history := by
  have htraced := h.traced hw hst
  rw [done_iff]
  constructor
  · intro hdone
    have hvisits := hdone.resolve_left fun haborted => haborted (h.tidy hw hst).aborted
    refine ⟨fun n hn => ?_, fun n hn => ?_⟩
    · rcases htraced.progress_of_dispatched hn with hp | hp | ⟨error, hp⟩
      · exact absurd hp (hvisits n).1
      · exact absurd hp (hvisits n).2
      · exact (htraced.mem_of_ended hp).imp (fun hmem => ⟨error, hmem⟩) And.left
    · rcases htraced.progress_of_began hn with hp | ⟨error, -, hmem⟩
      · exact absurd hp (hvisits n).2
      · exact ⟨error, hmem⟩
  · intro hdrained
    have hended : ∀ n, ¬ (s.outline.progress n = some .waiting ∨ s.outline.progress n = some .underWay) := by
      intro n hp
      obtain ⟨hdispatched, hnot, hnotAway⟩ := htraced.inFlight_split hp
      rcases hdrained.dispatched n hdispatched with ⟨error, hmem⟩ | hmem
      · exact hnot error hmem
      · exact hnotAway hmem
    exact Or.inr fun n => not_or.1 (hended n)

/-- **At a rest, a walk that is done returns the verdict on its history.** -/
theorem Reached.failure_eq_verdict (hw : w.Sound) (hst : ∀ n ∈ w.scope, n ∈ statuses.keys)
    (h : Reached w statuses callerCancelled acts s) (hrest : s.noteCancellation = s) :
    s.failure = verdict s.history.reverse := by
  have hverdict := (h.judged hw hst).verdict
  rw [← outline_noteCancellation, hrest] at hverdict
  exact hverdict

end State

namespace Deployment

variable {d : Deployment} {t : Traversal}

/-- **A traversal that ends well has visited each service that it covers once, and no other.**  There is no other way to
run out of visits in flight without a failure. -/
theorem traverse_complete (hd : d.Sound) (ht : t.Known d.graph) (limit : Option Limit) (visitor : Visitor)
    (callerCancelled : Bool) :
    ∃ w, t.walk d.graph limit visitor = .ok w ∧ w.scope.Nodup ∧ (∀ name, name ∈ w.scope ↔ t.Covers d.graph name) ∧
      (∀ acts s, Reached w d.statuses callerCancelled acts s → s.inFlight = [] → s.failure = none →
        Complete w.scope s.history) ∧
      ∀ script, (d.traverse t limit visitor callerCancelled script).1.result = .ok →
        Complete w.scope (d.traverse t limit visitor callerCancelled script).1.events := by
  obtain ⟨w, hwalk, hw, -, -, -, hmem, hst⟩ := hd.exists_walk ht limit visitor
  refine ⟨w, hwalk, hw.nodup, hmem, fun acts s h hrest hf => ?_, fun script hok => ?_⟩
  · refine h.complete hw hst ?_ hf
    unfold State.done
    rw [hrest, List.isEmpty_nil, Bool.or_true]
  · obtain ⟨s, h, -, hevents, hresult, -⟩ := traverse_reached hwalk hw hst callerCancelled script
    rw [hresult, State.result_eq_ok_iff (h.tidy hw hst).aborted] at hok
    rw [hevents]
    exact (h.complete hw hst hok.1 hok.2).reverse

theorem traverse_complete_pair : ∃ w, Traversal.forward.walk pair.graph none (fun _ => []) = .ok w ∧
    Complete w.scope (pair.traverse .forward none (fun _ => []) false []).1.events := by
  obtain ⟨w, hwalk, -, -, -, hreport⟩ := traverse_complete (t := .forward) sound_pair nofun none (fun _ => []) false
  exact ⟨w, hwalk, hreport [] (by decide +kernel)⟩

/-- **The result of a traversal is the verdict on its events**, once all its visits have ended, and it is left pending
only before that.  Its events show the cancellation of the caller's token, whenever it comes. -/
theorem traverse_result (hd : d.Sound) (ht : t.Known d.graph) (limit : Option Limit) (visitor : Visitor)
    (callerCancelled : Bool) (script : Script) :
    let report := (d.traverse t limit visitor callerCancelled script).1
    (report.result = .pending ↔ ¬ Drained report.events) ∧
      (report.result ≠ .pending → report.result = .ofFailure (verdict report.events) ∧ report.dropped = []) ∧
      (callerCancelled = true ∨ .cancel ∈ report.played script → .cancelled ∈ report.events) ∧
      ∃ w s, t.walk d.graph limit visitor = .ok w ∧
        Reached w d.statuses callerCancelled (report.played script) s ∧ report.events = s.history.reverse ∧
        (s.callerCancelled = true ↔ .cancelled ∈ report.events) := by
  obtain ⟨w, hwalk, hw, -, -, -, -, hst⟩ := hd.exists_walk ht limit visitor
  obtain ⟨s, h, hrest, hevents, hresult, hdropped, -⟩ := traverse_reached hwalk hw hst callerCancelled script
  have haborted : s.aborted = none := (h.tidy hw hst).aborted
  intro report
  refine ⟨?_, fun hended => ?_, fun hc => ?_, w, s, hwalk, h, hevents, ?_⟩
  · rw [hresult, State.result_eq_pending_iff haborted, hevents, ← Bool.not_eq_true, h.done_iff_drained hw hst,
      drained_reverse]
  · rw [hresult, ne_eq, State.result_eq_pending_iff haborted, Bool.not_eq_false] at hended
    rw [hresult, hdropped, hevents, State.result_of_aborted haborted, if_pos hended, if_pos hended,
      h.failure_eq_verdict hw hst hrest]
    exact ⟨rfl, rfl⟩
  · rw [hevents]
    exact List.mem_reverse.2 (h.cancelled_mem hw hst hc)
  · rw [hevents, List.mem_reverse]
    exact (h.judged hw hst).cancelled

theorem traverse_result_pair :
    let report := (pair.traverse .forward none (fun _ => [.fail (.plain "down")]) false []).1
    report.result = .ofFailure (verdict report.events) ∧ report.dropped = [] ∧
      verdict report.events = some (.visitFailed "db" (.plain "down")) := by
  have hended := (traverse_result (t := .forward) sound_pair nofun none (fun _ => [.fail (.plain "down")]) false []).2.1
    (by decide +kernel)
  exact ⟨hended.1, hended.2, by decide +kernel⟩

end Deployment

end Rollout
