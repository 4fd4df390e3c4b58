import Rollout.Proofs.Walk.Simulation
/-!
The states that a walk goes through, from the first round on: its visits have their turns, a cancellation is noticed,
and something happens from outside while the walk is not done.  What happens from outside may happen between any two
turns here, not only at rest, so the rests of a script are among the states reached (`reached_of_mem_rests`).
`Reached.induction` is the way in which what holds of every outline is proved.

A run is a chain of such changes with the acts from outside that happened on the way (`Runs`), and runs can be put
together.  A state is reached if a run leads to it from the first round (`Reached`).  Statements about what a traversal
does at any time are made of states that are reached, with any acts; statements about a report follow, because its rests
are reached with the acts of its script.

Induction over the states that are reached is induction over runs, seen through outlines: what holds of the outline of
the first round, and is kept by each step of the outline, by noticing a cancellation and by what happens from outside,
holds of all of them.  A step may use what is known of all states that are reached already, which lets one invariant
build on another.  Nothing is ready between the turns of a walk, for what becomes ready is dispatched or forgotten in
the same turn.
-/
namespace Rollout

namespace Outline

def play (o : Outline) : Outside → Outline
  | .release _ => o
  | .cancel => o.cancel
  | .setStatus service status => { o with statuses := o.statuses.modify service fun _ => status }

def Done (o : Outline) : Prop :=
  o.aborted ≠ none ∨ ∀ n, o.progress n ≠ some .waiting ∧ o.progress n ≠ some .underWay

end Outline

namespace State

variable {w : Walk} {s t : State} {acts : List Outside}

/-- What a walk goes through from one state to another, with what happens from outside on the way. -/
inductive Runs (w : Walk) (s : State) : List Outside → State → Prop where
  | refl : Runs w s [] s
  | turn {acts : List Outside} {t : State} : Runs w s acts t → Runs w s acts (t.step w)
  | notice {acts : List Outside} {t : State} : Runs w s acts t → Runs w s acts t.noteCancellation
  | outside {acts : List Outside} {t : State} (act : Outside) : Runs w s acts t → t.done = false →
      Runs w s (acts ++ [act]) (t.play act)

/-- The state reached from the first round on, after some acts from outside. -/
def Reached (w : Walk) (statuses : Table Status) (callerCancelled : Bool) : List Outside → State → Prop :=
  Runs w (initial w statuses callerCancelled).openRound

theorem Runs.trans {u : State} {more : List Outside} (h₁ : Runs w s acts t) (h₂ : Runs w t more u) :
    Runs w s (acts ++ more) u := by
  induction h₂ with
  | refl => rwa [List.append_nil]
  | turn _ ih => exact ih.turn
  | notice _ ih => exact ih.notice
  | outside act _ hdone ih =>
    rw [← List.append_assoc]
    exact ih.outside act hdone

/-! ## Whether a walk is done -/

theorem Stage.inFlight_eq (stage : Stage) :
    stage.inFlight = true ↔ stage.progress = .waiting ∨ stage.progress = .underWay := by
  cases stage <;> simp [Stage.inFlight, Stage.progress]

theorem inFlight_eq_nil_iff : s.inFlight = [] ↔
    ∀ n, s.outline.progress n ≠ some .waiting ∧ s.outline.progress n ≠ some .underWay := by
  unfold inFlight
  simp only [List.map_eq_nil_iff, List.filter_eq_nil_iff]
  constructor
  · intro h n
    show (s.stages.get? n).map Stage.progress ≠ _ ∧ (s.stages.get? n).map Stage.progress ≠ _
    cases hget : s.stages.get? n with
    | none => simp
    | some stage =>
      have hnot := h (n, stage) ((s.stages.get?_eq_some_iff).1 hget)
      rw [Stage.inFlight_eq] at hnot
      simpa [not_or] using hnot
  · intro h e he
    have hget : s.stages.get? e.1 = some e.2 := s.stages.get?_eq_some_iff.2 he
    have hn := h e.1
    rw [progress_of_get? hget] at hn
    rw [Stage.inFlight_eq]
    simpa [not_or] using hn

theorem done_iff : s.done = true ↔ s.outline.Done := by
  unfold done Outline.Done
  rw [Bool.or_eq_true, List.isEmpty_iff, inFlight_eq_nil_iff, Option.isSome_iff_ne_none]
  rfl

/-! ## What happens from outside -/

theorem outline_play (act : Outside) : (s.play act).outline = s.outline.play act := by
  cases act with
  | release service =>
    unfold play
    dsimp only
    split
    · rename_i rest h
      rw [outline_enqueue]
      exact outline_setStage_of_progress _ h rfl
    · rfl
  | cancel => exact outline_cancelCaller
  | setStatus service status => rfl

theorem done_play (act : Outside) : (s.play act).done = s.done := by
  rw [Bool.eq_iff_iff, done_iff, done_iff, outline_play]
  cases act <;> exact Iff.rfl

/-! ## The rests of a script -/

theorem runs_settle (w : Walk) (s : State) : Runs w s [] (s.settle w) := by
  fun_induction settle w s with
  | case1 s _ => exact Runs.refl.notice
  | case2 s _ ih => exact (Runs.refl.turn).trans ih

theorem runs_foldl_play : ∀ (acts : List Outside) (s : State), s.done = false → Runs w s acts (acts.foldl play s)
  | [], _, _ => .refl
  | act :: acts, s, h => by
    have hfirst : Runs w s [act] (s.play act) := Runs.outside act .refl h
    exact hfirst.trans (runs_foldl_play acts (s.play act) (by rw [done_play, h]))

theorem runs_resume (h : s.done = false) : Runs w s acts (s.resume w acts) := by
  have hplayed := (runs_foldl_play (w := w) acts s h).notice.trans (runs_settle w _)
  rwa [List.append_nil] at hplayed

/-- **The rests of a script are reached**, each by what the script lets happen up to then. -/
theorem runs_of_mem_rests : ∀ (script : Script) (s : State), t ∈ s.rests w script →
    ∃ played, played <+: script ∧ Runs w s played.flatten t
  | [], s, h => by
    obtain rfl : t = s := by simpa [rests] using h
    exact ⟨[], List.prefix_rfl, .refl⟩
  | acts :: script, s, h => by
    unfold rests at h
    split at h
    · obtain rfl : t = s := by simpa using h
      exact ⟨[], List.nil_prefix, .refl⟩
    · rename_i hdone
      rcases List.mem_cons.1 h with rfl | h
      · exact ⟨[], List.nil_prefix, .refl⟩
      · obtain ⟨played, hplayed, hmore⟩ := runs_of_mem_rests script _ h
        refine ⟨acts :: played, (List.cons_prefix_cons).2 ⟨rfl, hplayed⟩, ?_⟩
        exact (runs_resume (by simpa using hdone)).trans hmore

theorem reached_of_mem_rests {statuses : Table Status} {callerCancelled : Bool} {script : Script}
    (h : t ∈ (start w statuses callerCancelled).rests w script) :
    ∃ played, played <+: script ∧ Reached w statuses callerCancelled played.flatten t := by
  obtain ⟨played, hplayed, hruns⟩ := runs_of_mem_rests script _ h
  exact ⟨played, hplayed, (runs_settle w _).trans hruns⟩

end State

/-! ## What holds of every outline -/

def Outline.initial (w : Walk) (statuses : Table Status) (callerCancelled : Bool) : Outline where
  progress n := if n ∈ w.scope then some .idle else none
  unresolved n := if n ∈ w.scope then some (w.prerequisites n).length else none
  ready := w.scope.filter fun n => (w.prerequisites n).isEmpty
  statuses := statuses
  callerCancelled := callerCancelled
  tripped := false
  failure := none
  aborted := none
  history := if callerCancelled then [.cancelled] else []

namespace State

variable {w : Walk} {statuses : Table Status} {callerCancelled : Bool}

theorem outline_initial :
    (initial w statuses callerCancelled).outline = Outline.initial w statuses callerCancelled := by
  refine Outline.ext ?_ ?_ rfl rfl rfl rfl rfl rfl rfl
  · funext n
    show ((Table.ofNames w.scope fun _ => Stage.idle).get? n).map Stage.progress = if n ∈ w.scope then _ else _
    rw [Table.get?_ofNames]
    split
    · rfl
    · rfl
  · funext n
    exact Table.get?_ofNames w.scope _ n

theorem outline_openRound_initial (hw : w.Sound) :
    (initial w statuses callerCancelled).openRound.outline =
      (Outline.initial w statuses callerCancelled).openRound := by
  rw [outline_openRound, outline_initial]
  exact hw.nodup.sublist List.filter_sublist

theorem Reached.ready {acts : List Outside} {s : State} (hw : w.Sound) (h : Reached w statuses callerCancelled acts s) :
    s.ready = [] := by
  have houtline : s.outline.ready = [] := by
    induction h with
    | refl =>
      rw [outline_openRound_initial hw]
      exact Outline.ready_openRound _
    | @turn acts t _ ih =>
      have hstep := step_outline w t ih
      exact hstep.ready ih
    | @notice acts t _ ih =>
      rw [outline_noteCancellation]
      exact ih
    | @outside acts t act _ _ ih =>
      rw [outline_play]
      cases act <;> exact ih
  exact houtline

/-- **What each step of the outline keeps holds of every state reached.**  A step may use what is known of all states
reached already. -/
theorem Reached.induction {P : List Outside → Outline → Prop} (hw : w.Sound)
    (first : P [] (Outline.initial w statuses callerCancelled).openRound)
    (turn : ∀ acts s o', Reached w statuses callerCancelled acts s → P acts s.outline → s.outline.Step w o' → P acts o')
    (notice : ∀ acts s, Reached w statuses callerCancelled acts s → P acts s.outline → P acts s.outline.notice)
    (outside : ∀ acts s act, Reached w statuses callerCancelled acts s → P acts s.outline → ¬ s.outline.Done →
      P (acts ++ [act]) (s.outline.play act))
    {acts : List Outside} {s : State} (h : Reached w statuses callerCancelled acts s) : P acts s.outline := by
  induction h with
  | refl =>
    rw [outline_openRound_initial hw]
    exact first
  | turn hrun ih => exact turn _ _ _ hrun ih (step_outline w _ (Reached.ready hw hrun))
  | notice hrun ih =>
    rw [outline_noteCancellation]
    exact notice _ _ hrun ih
  | outside act hrun hdone ih =>
    rw [outline_play]
    exact outside _ _ act hrun ih fun h => Bool.eq_false_iff.1 hdone (done_iff.2 h)

end State

end Rollout
