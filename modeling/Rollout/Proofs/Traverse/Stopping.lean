import Rollout.Proofs.Traverse.Outcome
import Rollout.Proofs.Walk.Late
/-!
What a traversal still begins once a visit has ended in error or the caller has cancelled.  With a limit it begins
nothing any more: what was dispatched by then is turned away, which touches no status and hides no failure
(`traverse_turns_away`).  Without a limit it still begins the visits that stand in the run queue for the first time, so
nothing begins late only if there are none (`traverse_late_iff`).

The gate is at the dispatch.  Services that are dispatched together stand in the run queue together, and the visitor of
each is called in the first turn of its visit; a stop that comes between these turns keeps nobody from having the next
one.  With a limit the first turn begins with a look at the token, and so does the turn in which a visit takes up the
slot that it was handed.  At a rest everybody has had a first turn, so a cancellation that comes from outside lets
nothing begin late.
-/
namespace Rollout

open State (Reached AtRest Runs)

theorem verdict_of_failed {events : List Event} {name : String} {cause : Failure}
    (hended : .ended name (some cause) ∈ events) (hfailed : cause.isCancelled = false) :
    ∃ first source, events.findSome? Event.failure? = some (.visitFailed first source) ∧
      verdict events = some (.visitFailed first source) := by
  have hfailure : (Event.ended name (some cause)).failure? = some (.visitFailed name cause) := by
    unfold Event.failure?
    dsimp only
    rw [hfailed, if_neg Bool.false_ne_true]
  have hsome : events.findSome? Event.failure? ≠ none := by
    intro hnone
    rw [List.findSome?_eq_none_iff.1 hnone _ hended] at hfailure
    cases hfailure
  obtain ⟨f, hf⟩ := Option.ne_none_iff_exists'.1 hsome
  obtain ⟨e, -, he⟩ := List.exists_of_findSome?_eq_some hf
  have hverdict : verdict events = some f := by
    unfold verdict
    rw [hf]
  unfold Event.failure? at he
  split at he
  · rename_i first source
    split at he
    · cases he
    · cases he
      exact ⟨first, source, hf, hverdict⟩
  · cases he

namespace Deployment

variable {d : Deployment} {t : Traversal}

/-- **Without a limit, what begins after a stop is what stood in the run queue for the first time when it came.**  So
nothing begins after a stop just if all that was dispatched by then had begun, as it has at a rest. -/
theorem traverse_late_iff (hd : d.Sound) (ht : t.Known d.graph) (visitor : Visitor) (callerCancelled : Bool) :
    ∃ w, t.walk d.graph none visitor = .ok w ∧
      (∀ script, ∃ s, AtRest w d.statuses callerCancelled s ∧
        (d.traverse t none visitor callerCancelled script).1.events = s.history.reverse) ∧
      (∀ acts s, Reached w d.statuses callerCancelled acts s →
        ∀ later e earlier, s.history = later ++ e :: earlier → e.Stops → ∀ a,
          (.began a ∈ later ∨ s.stages.get? a = some .dispatched ↔ .dispatched a ∈ earlier ∧ .began a ∉ earlier)) ∧
      ∀ s, AtRest w d.statuses callerCancelled s →
        (Heeded s.history ↔ ∀ later e earlier, s.history = later ++ e :: earlier → e.Stops →
          ∀ a, .dispatched a ∈ earlier → .began a ∈ earlier) ∧
        (s.done = false → ∀ more s', Runs w (s.play .cancel) more s' →
          ∀ a, .began a ∈ s'.history → .began a ∈ s.history) := by
  obtain ⟨w, hwalk, -⟩ := hd.exists_walk ht none visitor
  obtain ⟨hw, -, hst⟩ := hd.of_walk hwalk
  obtain ⟨scope, -, rfl⟩ := walk_eq hwalk
  refine ⟨_, hwalk, fun script => ?_, fun acts s h later e earlier hsplit hstop => ?_, ?_⟩
  · obtain ⟨s, h, -, hevents, -, -, -, hqueue⟩ := traverse_reached hwalk hw hst callerCancelled script
    exact ⟨s, ⟨hqueue, _, h⟩, hevents⟩
  · exact h.late_iff hw hst rfl hstop hsplit
  rintro s ⟨hqueue, acts, h⟩
  refine ⟨⟨fun hheeded later e earlier hsplit hstop a hdispatched => ?_, fun hall a hbegan e hstop => ?_⟩, ?_⟩
  · have hmem : .dispatched a ∈ s.history := by
      rw [hsplit]
      exact List.mem_append_right later (List.mem_cons_of_mem e hdispatched)
    exact hheeded a (h.began_of_dispatched hw hst rfl hqueue hmem) e hstop later earlier hsplit
  · intro later earlier hsplit
    have hdispatched := ((h.traced hw hst).dispatched_precedes_began a).mem hbegan
    exact hall later e earlier hsplit hstop a
      ((h.prompt hw hst).dispatched a hdispatched e hstop later earlier hsplit)
  · intro hdone more s' hrun a hbegan
    have hplayed : Reached _ d.statuses callerCancelled (acts ++ [.cancel]) (s.play .cancel) := h.outside .cancel hdone
    have hdisturbed : Disturbed (s.play .cancel).history :=
      Or.inl (hplayed.cancelled_mem hw hst (Or.inr (List.mem_append_right acts List.mem_cons_self)))
    have hreached : Reached _ d.statuses callerCancelled _ s' := hplayed.trans hrun
    have hdispatched : .dispatched a ∈ (s.play .cancel).history :=
      hplayed.dispatched_of_disturbed hw hst hdisturbed hrun
        (((hreached.traced hw hst).dispatched_precedes_began a).mem hbegan)
    -- the cancellation dispatches nothing, and at a rest all that was dispatched has begun
    have hbefore : .dispatched a ∈ s.history := by
      rw [show (s.play .cancel).history = (s.play .cancel).outline.history from rfl, State.outline_play] at hdispatched
      exact Outline.mem_of_mem_cancel (o := s.outline) (by simp) hdispatched
    exact h.began_of_dispatched hw hst rfl hqueue hbefore

theorem traverse_late_iff_apart : ∃ w s,
    Traversal.forward.walk apart.graph none (fun _ => [.fail (.plain "down")]) = .ok w ∧
      AtRest w apart.statuses false s ∧ ¬ Heeded s.history := by
  obtain ⟨w, hwalk, hreport, -, hrests⟩ :=
    traverse_late_iff (t := .forward) sound_apart nofun (fun _ => [.fail (.plain "down")]) false
  obtain ⟨s, hrest, hevents⟩ := hreport []
  have hsplit : s.history = [.ended "db" (some (.plain "down")), .began "db"] ++
      .ended "api" (some (.plain "down")) :: [.began "api", .dispatched "db", .dispatched "api"] := by
    rw [← List.reverse_reverse s.history, ← hevents]
    decide +kernel
  refine ⟨w, s, hwalk, hrest, fun hheeded => ?_⟩
  have hbegan := (hrests s hrest).1.1 hheeded _ _ _ hsplit (.failed "api" _) "db" (by decide)
  exact absurd hbegan (by decide)

/-- The visitor of `db` is called, and even ends well, after that of `api` has failed. -/
theorem begins_after_failure :
    let visitor : Visitor := fun name => if name = "api" then [.fail (.plain "down")] else [.log "up"]
    let report := (apart.traverse .forward none visitor false []).1
    report.events = [.dispatched "api", .dispatched "db", .began "api", .ended "api" (some (.plain "down")),
      .began "db", .log "db" "up", .ended "db" none] ∧ ¬ Heeded report.events.reverse := by
  intro visitor report
  have hevents : report.events = [.dispatched "api", .dispatched "db", .began "api",
      .ended "api" (some (.plain "down")), .began "db", .log "db" "up", .ended "db" none] := by decide +kernel
  refine ⟨hevents, fun hheeded => ?_⟩
  rw [hevents] at hheeded
  have hbefore := hheeded "db" (by decide) _ (.failed "api" (.plain "down"))
    [.ended "db" none, .log "db" "up", .began "db"] [.began "api", .dispatched "db", .dispatched "api"] rfl
  exact absurd hbefore (by decide)

/-- **A limited traversal stops cleanly.**  Once the token of the visits is cancelled nothing begins.  What was
dispatched by then and has not begun is cancelled at the next rest, which touches no status, and the first failure of a
visit is still the result. -/
theorem traverse_turns_away (hd : d.Sound) (ht : t.Known d.graph) {n : Nat} (hn : n ≤ Limit.most) (visitor : Visitor)
    (callerCancelled : Bool) :
    ∃ limit w, Limit.ofNat? n = some limit ∧ t.walk d.graph (some limit) visitor = .ok w ∧
      (∀ script, ∀ s ∈ (State.start w d.statuses callerCancelled).rests w script,
        AtRest w d.statuses callerCancelled s) ∧
      (∀ acts s, Reached w d.statuses callerCancelled acts s →
        AtRest w d.statuses callerCancelled (s.settle w) ∧
        (s.tokenCancelled = true ↔ Disturbed s.history) ∧ Heeded s.history ∧
        (∀ a, .turnedAway a ∈ (s.step w).history → .turnedAway a ∉ s.history → (s.step w).statuses = s.statuses) ∧
        (visitor.Passive → PassiveActs acts →
          ∀ a, .turnedAway a ∈ s.history → s.statuses.get? a = d.statuses.get? a) ∧
        (s.tokenCancelled = true → ∀ more s', Runs w s more s' →
          (∀ a, .began a ∈ s'.history → .began a ∈ s.history) ∧
          (s'.queue = [] → ∀ a, .dispatched a ∈ s'.history → .began a ∉ s.history →
            s'.stages.get? a = some (.ended (some .cancelled)) ∧ .turnedAway a ∈ s'.history))) ∧
      ∀ script,
        let report := (d.traverse t (some limit) visitor callerCancelled script).1
        report.result ≠ .pending → ∀ a cause, .ended a (some cause) ∈ report.events → cause.isCancelled = false →
          ∃ first source, report.events.findSome? Event.failure? = some (.visitFailed first source) ∧
            report.result = .failed (.visitFailed first source) := by
  obtain ⟨limit, hlimit⟩ := Limit.exists_ofNat? hn
  obtain ⟨w, hwalk, -⟩ := hd.exists_walk ht (some limit) visitor
  obtain ⟨hw, -, hst⟩ := hd.of_walk hwalk
  obtain ⟨scope, -, rfl⟩ := walk_eq hwalk
  refine ⟨limit, _, hlimit, hwalk, fun script s => State.atRest_of_mem_rests, fun acts s h =>
    ⟨⟨State.queue_settle _ s, _, h.trans (State.runs_settle _ s)⟩, h.tokenCancelled_iff hw hst, h.heeded hw hst rfl,
      fun a => h.statuses_of_turnedAway hw hst, fun hpassive hacts a => ?_, fun htoken more s' hrun => ?_⟩,
    fun script => ?_⟩
  · exact h.get?_statuses_of_turnedAway hw hst hpassive hacts
  · have hdisturbed : Disturbed s.history := (h.tokenCancelled_iff hw hst).1 htoken
    have hreached : Reached _ d.statuses callerCancelled _ s' := h.trans hrun
    have hafter : ∀ a, .began a ∈ s'.history → .began a ∈ s.history := fun a =>
      h.began_of_disturbed hw hst rfl hdisturbed hrun
    refine ⟨hafter, fun hqueue a hdispatched hnot => ?_⟩
    have hlater : Disturbed s'.history := h.disturbed_of_runs hw hst hrun hdisturbed
    exact hreached.turnedAway_of_disturbed hw hst hlater hqueue hdispatched fun hbegan => hnot (hafter a hbegan)
  · obtain ⟨s, h, hrest, hevents, hresult, -⟩ := traverse_reached hwalk hw hst callerCancelled script
    have haborted : s.aborted = none := (h.tidy hw hst).aborted
    intro report hended a cause hfailed hcause
    obtain ⟨first, source, hfirst, hverdict⟩ := verdict_of_failed hfailed hcause
    refine ⟨first, source, hfirst, ?_⟩
    rw [hresult, ne_eq, State.result_eq_pending_iff haborted, Bool.not_eq_false] at hended
    rw [hresult, State.result_of_aborted haborted, if_pos hended, h.failure_eq_verdict hw hst hrest, ← hevents,
      hverdict]
    rfl

theorem traverse_turns_away_apart : ∃ limit w s, Limit.ofNat? 1 = some limit ∧
    Traversal.forward.walk apart.graph (some limit) (fun _ => [.fail (.plain "down")]) = .ok w ∧
      AtRest w apart.statuses false s ∧ .turnedAway "db" ∈ s.history ∧ s.statuses.get? "db" = some .stopped ∧
      (apart.traverse .forward (some limit) (fun _ => [.fail (.plain "down")]) false []).1.result =
        .failed (.visitFailed "api" (.plain "down")) := by
  obtain ⟨limit, w, hlimit, hwalk, hrests, hrun, hresult⟩ := traverse_turns_away (t := .forward) sound_apart nofun
    (n := 1) (by decide) (fun _ => [.fail (.plain "down")]) false
  obtain rfl : limit = ⟨1, by decide, by decide⟩ := Option.some.inj (hlimit.symm.trans rfl)
  obtain rfl := Except.ok.inj (hwalk.symm.trans rfl)
  have hs := hrests [] _ List.mem_cons_self
  obtain ⟨-, -, -, -, hstatus, hlate⟩ := hrun _ _ (State.runs_settle _ _)
  have haway := ((hlate (by decide +kernel) [] _ .refl).2 hs.1 "db" (by decide +kernel) (by decide +kernel)).2
  refine ⟨_, _, _, hlimit, hwalk, hs, haway, (hstatus (by simp [Visitor.Passive]) nofun "db" haway).trans ?_, ?_⟩
  · decide +kernel
  · obtain ⟨first, source, hfirst, hfailed⟩ :=
      hresult [] (by decide +kernel) "api" (.plain "down") (by decide +kernel) rfl
    have hapi : some (Failure.visitFailed first source) = some (.visitFailed "api" (.plain "down")) :=
      hfirst.symm.trans (by decide +kernel)
    rw [hfailed, Option.some.inj hapi]

end Deployment

end Rollout
