import Rollout.Proofs.Walk.Trace
/-!
What a report shows of a walk.  The last rest of a script is reached by what the script lets happen before it
(`runs_last`), and the events of the report are the whole history of that rest (`events_phases`).  So whatever holds of
the states of a walk can be read off a report (`Deployment.traverse_reached`).

A rest is where no visit can have a turn and a cancellation by the caller has been noticed (`AtRest`).  The events of
one phase are the history since the rest before, and no rest takes anything back of the history of an earlier one, so
the events of the phases up to a rest are the whole history of that rest.  The statuses of a phase are those at its
rest.

A script may be longer than the traversal.  What of it happens before the last phase is `played`; the rest of it never
happens, since a traversal that is done does not wait for more.  A traversal whose roots are unknown does not begin and
shows one phase without events (`traverse_refused`).
-/
namespace Rollout

namespace Report

def events (r : Report) : List Event := r.phases.flatMap Phase.events

/-- What a script lets happen before the last phase of a report. -/
def played (r : Report) (script : Script) : List Outside := (script.take (r.phases.length - 1)).flatten

end Report

namespace State

variable {w : Walk} {statuses : Table Status} {callerCancelled : Bool} {acts : List Outside}

def last (w : Walk) (s : State) (script : Script) : State := (s.rests w script).getLast?.getD s

theorem rests_ne_nil (w : Walk) (s : State) (script : Script) : s.rests w script ≠ [] := by
  cases script with
  | nil => exact List.cons_ne_nil _ _
  | cons acts script =>
    unfold rests
    split
    · exact List.cons_ne_nil _ _
    · exact List.cons_ne_nil _ _

theorem rests_of_done {s : State} (h : s.done = true) (script : Script) : s.rests w script = [s] := by
  cases script with
  | nil => rfl
  | cons acts script => exact if_pos h

theorem rests_cons {s : State} (h : s.done = false) (acts : List Outside) (script : Script) :
    s.rests w (acts :: script) = s :: (s.resume w acts).rests w script := if_neg (by simp [h])

theorem last_of_done {s : State} (h : s.done = true) (script : Script) : s.last w script = s := by
  unfold last
  rw [rests_of_done h]
  rfl

theorem last_cons {s : State} (h : s.done = false) (acts : List Outside) (script : Script) :
    s.last w (acts :: script) = (s.resume w acts).last w script := by
  unfold last
  rw [rests_cons h, List.getLast?_cons, Option.getD_some,
    List.getLast?_eq_some_getLast (rests_ne_nil w (s.resume w acts) script), Option.getD_some, Option.getD_some]

theorem runs_last : ∀ (script : Script) (s : State),
    Runs w s (script.take ((s.rests w script).length - 1)).flatten (s.last w script)
  | [], s => .refl
  | acts :: script, s => by
    cases hdone : s.done with
    | true =>
      rw [last_of_done hdone, rests_of_done hdone]
      exact .refl
    | false =>
      have hpos : 0 < ((s.resume w acts).rests w script).length := List.length_pos_of_ne_nil (rests_ne_nil _ _ _)
      have hlength : (s :: (s.resume w acts).rests w script).length - 1 =
          (((s.resume w acts).rests w script).length - 1) + 1 := by
        rw [List.length_cons]
        omega
      rw [last_cons hdone, rests_cons hdone, hlength, List.take_succ_cons, List.flatten_cons]
      exact (runs_resume hdone).trans (runs_last script _)

theorem noteCancellation_settle (w : Walk) (s : State) : (s.settle w).noteCancellation = s.settle w := by
  fun_induction settle w s with
  | case1 s _ =>
    unfold noteCancellation
    split
    · rfl
    · rfl
  | case2 s _ ih => exact ih

theorem queue_settle (w : Walk) (s : State) : (s.settle w).queue = [] := by
  fun_induction settle w s with
  | case1 s h =>
    unfold noteCancellation
    split
    · exact h
    · exact h
  | case2 s _ ih => exact ih

theorem queue_of_mem_rests {t : State} : ∀ (script : Script) (s : State), s.queue = [] → t ∈ s.rests w script →
    t.queue = []
  | [], s, hqueue, h => by
    obtain rfl : t = s := by simpa [rests] using h
    exact hqueue
  | acts :: script, s, hqueue, h => by
    cases hdone : s.done with
    | true =>
      rw [rests_of_done hdone, List.mem_singleton] at h
      rw [h]
      exact hqueue
    | false =>
      rw [rests_cons hdone] at h
      rcases List.mem_cons.1 h with rfl | h
      · exact hqueue
      · exact queue_of_mem_rests script _ (queue_settle w _) h

theorem last_mem_rests (w : Walk) (s : State) (script : Script) : s.last w script ∈ s.rests w script := by
  unfold last
  rw [List.getLast?_eq_some_getLast (rests_ne_nil w s script), Option.getD_some]
  exact List.getLast_mem _

theorem noteCancellation_last : ∀ (script : Script) (s : State), s.noteCancellation = s →
    (s.last w script).noteCancellation = s.last w script
  | [], _, h => h
  | acts :: script, s, h => by
    cases hdone : s.done with
    | true => rwa [last_of_done hdone]
    | false =>
      rw [last_cons hdone]
      exact noteCancellation_last script _ (noteCancellation_settle w _)

/-- A walk is at rest where none of its visits can have a turn. -/
def AtRest (w : Walk) (statuses : Table Status) (callerCancelled : Bool) (s : State) : Prop :=
  s.queue = [] ∧ ∃ acts, Reached w statuses callerCancelled acts s

/-- **A walk is at rest at the rests of a script.** -/
theorem atRest_of_mem_rests {script : Script} {t : State} (h : t ∈ (start w statuses callerCancelled).rests w script) :
    AtRest w statuses callerCancelled t := by
  obtain ⟨played, -, hreached⟩ := reached_of_mem_rests h
  exact ⟨queue_of_mem_rests script _ (queue_settle w _) h, _, hreached⟩

/-! ## The events of the phases -/

theorem phases_cons (seen : Nat) (s : State) (rests : List State) : phases seen (s :: rests) =
    ⟨(s.history.take (s.history.length - seen)).reverse, s.statuses⟩ :: phases s.history.length rests := rfl

theorem length_phases : ∀ (rests : List State) (seen : Nat), (phases seen rests).length = rests.length
  | [], _ => rfl
  | s :: rests, _ => congrArg (· + 1) (length_phases rests s.history.length)

theorem statuses_of_mem_phases {phase : Phase} : ∀ (rests : List State) (seen : Nat), phase ∈ phases seen rests →
    ∃ t ∈ rests, phase.statuses = t.statuses
  | s :: rests, seen, h => by
    rcases List.mem_cons.1 h with rfl | h
    · exact ⟨s, List.mem_cons_self, rfl⟩
    · obtain ⟨t, ht, heq⟩ := statuses_of_mem_phases rests _ h
      exact ⟨t, List.mem_cons_of_mem s ht, heq⟩

theorem reverse_append_take {old all : List Event} (h : old <:+ all) :
    old.reverse ++ (all.take (all.length - old.length)).reverse = all.reverse := by
  obtain ⟨new, rfl⟩ := h
  rw [← List.reverse_append]
  simp

/-- **A phase shows the statuses at a rest, and the phases up to it the whole history of that rest**, if no rest takes
anything back. -/
theorem exists_of_phases_split : ∀ (rests : List State) (old : List Event),
    (old :: rests.map State.history).IsChain (· <:+ ·) →
    ∀ earlier phase later, phases old.length rests = earlier ++ phase :: later →
      ∃ t ∈ rests, phase.statuses = t.statuses ∧
        old.reverse ++ (earlier ++ [phase]).flatMap Phase.events = t.history.reverse
  | [], _, _, earlier, phase, later, h => by
    cases List.append_ne_nil_of_right_ne_nil earlier (List.cons_ne_nil phase later) h.symm
  | s :: rests, old, hchain, earlier, phase, later, h => by
    obtain ⟨hold, hrest⟩ := List.isChain_cons_cons.1 hchain
    rw [phases_cons] at h
    cases earlier with
    | nil =>
      obtain ⟨rfl, -⟩ := List.cons.inj h
      refine ⟨s, List.mem_cons_self, rfl, ?_⟩
      rw [List.nil_append, List.flatMap_cons, List.flatMap_nil, List.append_nil]
      exact reverse_append_take hold
    | cons first earlier =>
      obtain ⟨rfl, hsplit⟩ := List.cons.inj h
      obtain ⟨t, ht, hstatuses, hevents⟩ := exists_of_phases_split rests s.history hrest earlier phase later hsplit
      refine ⟨t, List.mem_cons_of_mem s ht, hstatuses, ?_⟩
      rw [List.cons_append, List.flatMap_cons, ← List.append_assoc, reverse_append_take hold]
      exact hevents

theorem isChain_rests (hw : w.Sound) (hst : ∀ n ∈ w.scope, n ∈ statuses.keys) :
    ∀ (script : Script) (s : State) (acts : List Outside) (old : List Event),
      Reached w statuses callerCancelled acts s → old <:+ s.history →
      (old :: (s.rests w script).map State.history).IsChain (· <:+ ·)
  | [], s, _, old, _, hold => List.isChain_cons_cons.2 ⟨hold, List.isChain_singleton _⟩
  | more :: script, s, acts, old, h, hold => by
    cases hdone : s.done with
    | true =>
      rw [rests_of_done hdone]
      exact List.isChain_cons_cons.2 ⟨hold, List.isChain_singleton _⟩
    | false =>
      have hrun : Runs w s more (s.resume w more) := runs_resume hdone
      rw [rests_cons hdone]
      exact List.isChain_cons_cons.2
        ⟨hold, isChain_rests hw hst script _ _ s.history (h.trans hrun) (h.grows hw hst hrun)⟩

theorem events_phases (hw : w.Sound) (hst : ∀ n ∈ w.scope, n ∈ statuses.keys) :
    ∀ (script : Script) (s : State) (acts : List Outside) (old : List Event),
      Reached w statuses callerCancelled acts s → old <:+ s.history →
      old.reverse ++ (phases old.length (s.rests w script)).flatMap Phase.events = (s.last w script).history.reverse
  | [], s, acts, old, _, hold => by
    unfold rests last
    rw [phases_cons, List.flatMap_cons, ← List.append_assoc, reverse_append_take hold]
    exact List.append_nil _
  | more :: script, s, acts, old, h, hold => by
    cases hdone : s.done with
    | true =>
      rw [last_of_done hdone, rests_of_done hdone, phases_cons, List.flatMap_cons, ← List.append_assoc,
        reverse_append_take hold]
      exact List.append_nil _
    | false =>
      -- the next phase starts from the history of this rest
      have hrun : Runs w s more (s.resume w more) := runs_resume hdone
      have ih := events_phases hw hst script (s.resume w more) (acts ++ more) s.history (h.trans hrun)
        (h.grows hw hst hrun)
      rw [last_cons hdone, rests_cons hdone, phases_cons, List.flatMap_cons, ← List.append_assoc,
        reverse_append_take hold, ih]

end State

namespace Deployment

variable {d : Deployment} {t : Traversal} {limit : Option Limit} {visitor : Visitor} {w : Walk}

theorem traverse_eq (hwalk : t.walk d.graph limit visitor = .ok w) (callerCancelled : Bool) (script : Script) :
    d.traverse t limit visitor callerCancelled script =
      let first := State.start w d.statuses callerCancelled
      (State.report (first.rests w script) (first.last w script),
        { d with statuses := (first.last w script).statuses }) := by
  unfold Deployment.traverse
  rw [hwalk]
  rfl

theorem traverse_refused {failure : Failure} (h : t.scope d.graph = .error failure) (limit : Option Limit)
    (visitor : Visitor) (callerCancelled : Bool) (script : Script) :
    d.traverse t limit visitor callerCancelled script = (.refused d.statuses failure, d) := by
  unfold Deployment.traverse Traversal.walk
  rw [h]
  rfl

/-- **A report shows the whole history of a state that the walk reaches**, and ends as that state says. -/
theorem traverse_reached (hwalk : t.walk d.graph limit visitor = .ok w) (hw : w.Sound)
    (hst : ∀ n ∈ w.scope, n ∈ d.statuses.keys) (callerCancelled : Bool) (script : Script) :
    ∃ s, State.Reached w d.statuses callerCancelled
        ((d.traverse t limit visitor callerCancelled script).1.played script) s ∧
      s.noteCancellation = s ∧
      (d.traverse t limit visitor callerCancelled script).1.events = s.history.reverse ∧
      (d.traverse t limit visitor callerCancelled script).1.result = s.result ∧
      (d.traverse t limit visitor callerCancelled script).1.dropped = (if s.done then [] else s.underWay) ∧
      (d.traverse t limit visitor callerCancelled script).2 = { d with statuses := s.statuses } ∧
      s.queue = [] := by
  have hfirst : State.Runs w (State.initial w d.statuses callerCancelled).openRound []
      (State.start w d.statuses callerCancelled) := State.runs_settle w _
  rw [traverse_eq hwalk]
  refine ⟨(State.start w d.statuses callerCancelled).last w script, ?_, ?_, ?_, rfl, rfl, rfl, ?_⟩
  · unfold Report.played State.report
    dsimp only
    rw [State.length_phases]
    exact hfirst.trans (State.runs_last script _)
  · exact State.noteCancellation_last script _ (State.noteCancellation_settle w _)
  · exact State.events_phases hw hst script _ [] [] hfirst (List.nil_suffix)
  · exact State.queue_of_mem_rests script _ (State.queue_settle w _) (State.last_mem_rests w _ script)

end Deployment

end Rollout
