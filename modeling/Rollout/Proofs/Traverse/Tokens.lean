import Rollout.Proofs.Deployment
import Rollout.Proofs.Walk.Caller
import Rollout.Proofs.Walk.Looks
import Rollout.Proofs.Walk.Rests
/-!
The two tokens of a traversal.  Visits see a token that is cancelled with that of the caller and by the first visit that
ends in error (`State.SeesToken`).  The token of the caller is cancelled by itself only: nothing that comes of a visit
goes back to it (`State.KeepsCaller`).  Both hold in every state that a traversal goes through, and so at every moment
at which a visit looks (`Deployment.traverse_tokens`).

What a visit finds is said twice, since there are two ways to learn of it: by what its turn does, and by the notes of
the token in the history.  A visit that waits for the cancellation looks as well, and it has not missed one: while it
waits there was none.  An explicit cancellation of the token of the caller is one of three, by the caller beforehand,
from outside, or by an action of a visit.
-/
namespace Rollout

open State (Reached)

namespace State

/-- The token of the visits is cancelled just if the caller has cancelled or a visit has ended in error, and so does
every visit find it that looks now.  A visit that waits for the cancellation has not missed it. -/
structure SeesToken (w : Walk) (s : State) : Prop where
  cancelled : s.tokenCancelled = true ↔ ∃ e ∈ s.history, e.Stops
  looks : ∀ name others stage, s.queue = name :: others → s.stages.get? name = some stage → stage.Looks w →
    ∃ b, s.Finds w name b
  finds : ∀ name others b, s.queue = name :: others → s.Finds w name b → (b = true ↔ ∃ e ∈ s.history, e.Stops)
  waits : ∀ name rest, s.stages.get? name = some (.awaitingCancel rest) → ∀ e ∈ s.history, ¬ e.Stops

/-- The token of the caller is cancelled just if it was cancelled explicitly, and by nothing else in the next turn or
from outside. -/
structure KeepsCaller (w : Walk) (statuses : Table Status) (callerCancelled : Bool) (acts : List Outside) (s : State) :
    Prop where
  shown : s.callerCancelled = true ↔ .cancelled ∈ s.history
  explicit : s.callerCancelled = true ↔
    callerCancelled = true ∨ .cancel ∈ acts ∨ CancelledInside w statuses callerCancelled acts s
  turn : (s.step w).callerCancelled = true ↔ s.callerCancelled = true ∨ s.Cancels
  outside : ∀ act, (s.play act).callerCancelled = true ↔ s.callerCancelled = true ∨ act = .cancel

variable {w : Walk} {statuses : Table Status} {callerCancelled : Bool} {acts : List Outside} {s : State}

theorem Reached.seesToken (hw : w.Sound) (hst : ∀ n ∈ w.scope, n ∈ statuses.keys)
    (h : Reached w statuses callerCancelled acts s) : s.SeesToken w where
  cancelled := h.tokenCancelled_iff_stops hw hst
  looks := fun _ _ _ hq hstage hlooks => exists_finds hq hstage hlooks (h.ready hw)
  finds := fun _ _ _ hq hfinds => h.finds_iff hw hst hq hfinds
  waits := fun _ _ hstage => h.not_stops_of_awaitingCancel hw hst hstage

theorem Reached.keepsCaller (hw : w.Sound) (hst : ∀ n ∈ w.scope, n ∈ statuses.keys)
    (h : Reached w statuses callerCancelled acts s) : s.KeepsCaller w statuses callerCancelled acts where
  shown := (h.judged hw hst).cancelled
  explicit := h.callerCancelled_iff hw hst
  turn := callerCancelled_step_iff (h.ready hw)
  outside := callerCancelled_play_iff

end State

namespace Deployment

variable {d : Deployment}

/-- **Whenever a visit looks at its token, it is cancelled just if the caller has cancelled or a visit has ended in
error before.**  An error that is itself a cancellation counts, and what a visit comes to never cancels the token of the
caller.  The notes of the token in a report agree with the events before them. -/
theorem traverse_tokens (hd : d.Sound) (t : Traversal) (limit : Option Limit) (visitor : Visitor)
    (callerCancelled : Bool) :
    (t.Known d.graph → ∃ w, t.walk d.graph limit visitor = .ok w) ∧
    ∀ w, t.walk d.graph limit visitor = .ok w →
      (∀ acts s, Reached w d.statuses callerCancelled acts s →
        s.SeesToken w ∧ s.KeepsCaller w d.statuses callerCancelled acts) ∧
      ∀ script, let report := (d.traverse t limit visitor callerCancelled script).1
        (∃ s, Reached w d.statuses callerCancelled (report.played script) s ∧ report.events = s.history.reverse) ∧
        ∀ before name b after, report.events = before ++ .token name b :: after →
          (b = true ↔ ∃ e ∈ before, e.Stops) := by
  refine ⟨fun ht => ?_, fun w hwalk => ?_⟩
  · obtain ⟨w, hwalk, -⟩ := hd.exists_walk ht limit visitor
    exact ⟨w, hwalk⟩
  · obtain ⟨hw, -, hst⟩ := hd.of_walk hwalk
    refine ⟨fun acts s h => ⟨h.seesToken hw hst, h.keepsCaller hw hst⟩, fun script => ?_⟩
    obtain ⟨s, h, -, hevents, -⟩ := traverse_reached hwalk hw hst callerCancelled script
    refine ⟨⟨s, h, hevents⟩, fun before name b after hsplit => ?_⟩
    have hhistory : s.history = after.reverse ++ .token name b :: before.reverse := by
      rw [← List.reverse_reverse s.history, ← hevents, hsplit]
      simp
    rw [h.told hw hst after.reverse name b before.reverse hhistory]
    simp only [List.mem_reverse]

theorem traverse_tokens_apart :
    let visitor : Visitor := fun name => if name = "api" then [.fail .cancelled] else [.token]
    let report := (apart.traverse .forward none visitor false []).1
    ∃ w before after s, report.events = before ++ .token "db" true :: after ∧ (∃ e ∈ before, e.Stops) ∧
      Reached w apart.statuses false [] s ∧ s.SeesToken w ∧ s.tokenCancelled = true ∧ s.callerCancelled = false := by
  intro visitor report
  obtain ⟨hwalks, htokens⟩ := traverse_tokens sound_apart .forward none visitor false
  obtain ⟨w, hwalk⟩ := hwalks nofun
  obtain ⟨hstates, hreports⟩ := htokens w hwalk
  obtain ⟨⟨s, h, hevents⟩, hnotes⟩ := hreports []
  obtain ⟨hsees, hkeeps⟩ := hstates _ s h
  have hsplit : report.events = [.dispatched "api", .dispatched "db", .began "api", .ended "api" (some .cancelled),
      .began "db"] ++ .token "db" true :: [.ended "db" none] := by decide +kernel
  have hstop := (hnotes _ _ _ _ hsplit).1 rfl
  refine ⟨w, _, _, s, hsplit, hstop, h, hsees, hsees.cancelled.2 ?_, ?_⟩
  · obtain ⟨e, he, hstops⟩ := hstop
    refine ⟨e, List.mem_reverse.1 ?_, hstops⟩
    rw [← hevents]
    exact hsplit ▸ List.mem_append_left _ he
  · rw [← Bool.not_eq_true, hkeeps.shown, ← List.mem_reverse, ← hevents]
    have hnone : .cancelled ∉ report.events := by decide +kernel
    exact hnone

end Deployment

end Rollout
