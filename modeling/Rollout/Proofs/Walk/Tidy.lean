import Rollout.Proofs.Walk.Reached
/-!
What is in order in every state of a walk: the services with a visit are the covered ones, each of them has a status,
nothing waits to be dispatched, and the walk was not given up (`Reached.tidy`).  So the status of a visit that ended
well can always be recorded, and the end of a visit comes to one of four outlines (`conclude_cases`).

The four are these.  A visit that ended in error trips the token and has its error recorded.  One that ended well has
its status recorded, and then a failure is recorded already, or the caller has cancelled, or the visit is counted off
for those that wait for it and what it was the last prerequisite of is dispatched (`lastFor`).  A fifth one, in which a
status cannot be recorded and the walk is given up, does not come about.  Most invariants are shown for these four
outlines, by `conclude_cases`, and not for the operation that leads to them.
-/
namespace Rollout

def Walk.marked (w : Walk) (name : String) (statuses : Table Status) : Table Status :=
  match w.target with
  | none => statuses
  | some status => statuses.modify name fun _ => status

theorem Walk.keys_marked (w : Walk) (name : String) (statuses : Table Status) :
    (w.marked name statuses).keys = statuses.keys := by
  unfold Walk.marked
  split
  · rfl
  · exact Table.keys_modify _ _ _

namespace Outline

variable {w : Walk} {o o' : Outline} {name : String}

/-! ## What the end of a visit comes to -/

/-- A visit has ended well: its status is recorded, and it is counted off for those that wait for it. -/
def counted (w : Walk) (o : Outline) (name : String) : Outline :=
  { o with
    statuses := w.marked name o.statuses
    unresolved := fun n => if n ∈ w.successors name then (o.unresolved n).map (· - 1) else o.unresolved n }

/-- The services for which only one prerequisite is left, among those that wait for `name`. -/
def lastFor (w : Walk) (o : Outline) (name : String) : List String :=
  (w.successors name).filter fun n => o.unresolved n = some 1

theorem mark_of_mem (h : name ∈ o.statuses.keys) :
    o.mark w name = .ok { o with statuses := w.marked name o.statuses } := by
  unfold mark Walk.marked
  cases w.target with
  | none => rfl
  | some status =>
    dsimp only
    rw [if_pos ((o.statuses.contains_iff name).2 h)]

theorem openRound_of_failure (hready : o.ready = []) (h : o.failure ≠ none) : o.openRound = o := by
  have hnone : o.failure.isNone = false := by
    cases hf : o.failure with
    | none => exact absurd hf h
    | some f => rfl
  have hnotice : o.notice = o := by
    unfold notice
    simp [hnone]
  unfold openRound
  rw [hnotice, hnone]
  exact Outline.ext rfl rfl hready.symm rfl rfl rfl rfl rfl rfl

theorem conclude_some (hready : o.ready = []) (cause : Failure) :
    o.conclude w name (some cause) = { o with tripped := true }.record (State.classify name cause) := by
  refine openRound_of_failure hready ?_
  unfold record
  dsimp only
  split
  · simp
  · split
    · simp
    · simp

theorem conclude_none_of_failure (hready : o.ready = []) (hmark : name ∈ o.statuses.keys) (h : o.failure ≠ none) :
    o.conclude w name none = { o with statuses := w.marked name o.statuses } := by
  unfold conclude
  rw [mark_of_mem hmark]
  dsimp only
  rw [if_neg (by simpa using h)]
  exact openRound_of_failure hready h

theorem conclude_none_of_cancelled (hready : o.ready = []) (hmark : name ∈ o.statuses.keys) (h : o.failure = none)
    (hc : o.callerCancelled = true) :
    o.conclude w name none = { o.counted w name with failure := some .cancelled } := by
  unfold conclude
  rw [mark_of_mem hmark]
  dsimp only
  rw [if_pos (by rw [h]; rfl)]
  unfold openRound notice countOff
  simp only [h, hc, Option.isNone_none, Option.isNone_some, Bool.and_self, Bool.false_eq_true, if_true, if_false]
  exact Outline.ext rfl rfl hready.symm rfl hc.symm rfl rfl rfl rfl

theorem conclude_none_of_live (hready : o.ready = []) (hmark : name ∈ o.statuses.keys) (h : o.failure = none)
    (hc : o.callerCancelled = false) : o.conclude w name none = (o.counted w name).dispatch (o.lastFor w name) := by
  unfold conclude
  rw [mark_of_mem hmark]
  dsimp only
  rw [if_pos (by rw [h]; rfl)]
  unfold openRound notice countOff
  simp only [h, hc, Option.isNone_none, Bool.and_false, Bool.false_eq_true, if_false, if_true, hready, List.nil_append]
  exact Outline.ext rfl rfl hready.symm rfl hc.symm rfl h.symm rfl rfl

/-- **The end of a visit comes to one of four outlines.**  `P` holds of it if it holds of each of them. -/
theorem conclude_cases {P : Outline → Prop} {error : Option Failure} (hready : o.ready = [])
    (hmark : name ∈ o.statuses.keys)
    (failed : ∀ cause, error = some cause → P ({ o with tripped := true }.record (State.classify name cause)))
    (late : error = none → o.failure ≠ none → P { o with statuses := w.marked name o.statuses })
    (cancelled : error = none → o.failure = none → o.callerCancelled = true →
      P { o.counted w name with failure := some .cancelled })
    (live : error = none → o.failure = none → o.callerCancelled = false →
      P ((o.counted w name).dispatch (o.lastFor w name))) : P (o.conclude w name error) := by
  cases error with
  | some cause =>
    rw [conclude_some hready]
    exact failed cause rfl
  | none =>
    by_cases hf : o.failure = none
    · cases hc : o.callerCancelled with
      | true =>
        rw [conclude_none_of_cancelled hready hmark hf hc]
        exact cancelled rfl hf hc
      | false =>
        rw [conclude_none_of_live hready hmark hf hc]
        exact live rfl hf hc
    · rw [conclude_none_of_failure hready hmark hf]
      exact late rfl hf

/-! ## What is in order -/

structure Tidy (w : Walk) (o : Outline) : Prop where
  covered : ∀ n, n ∈ w.scope ↔ o.progress n ≠ none
  marked : ∀ n ∈ w.scope, n ∈ o.statuses.keys
  ready : o.ready = []
  aborted : o.aborted = none

theorem Tidy.mem_scope {p : Progress} (h : o.Tidy w) (hp : o.progress name = some p) : name ∈ w.scope :=
  (h.covered name).2 (by simp [hp])

theorem put_eq_none_iff {p : Progress} {n : String} : (o.put name p).progress n = none ↔ o.progress n = none := by
  unfold put
  dsimp only
  split
  · simp
  · rfl

theorem dispatch_eq_none_iff {names : List String} {n : String} :
    (o.dispatch names).progress n = none ↔ o.progress n = none := by
  rw [progress_dispatch]
  split
  · rename_i h
    simp [h.2]
  · rfl

theorem Tidy.put (h : o.Tidy w) (name : String) (p : Progress) : (o.put name p).Tidy w :=
  ⟨fun n => by rw [h.covered, ne_eq, ne_eq, put_eq_none_iff], h.marked, h.ready, h.aborted⟩

theorem Tidy.note (h : o.Tidy w) (e : Event) : (o.note e).Tidy w := ⟨h.covered, h.marked, h.ready, h.aborted⟩

theorem Tidy.write (h : o.Tidy w) (other : String) (status : Status) :
    Tidy w { o with statuses := o.statuses.modify other fun _ => status } :=
  ⟨h.covered, fun n hn => by rw [Table.keys_modify]; exact h.marked n hn, h.ready, h.aborted⟩

theorem Tidy.counted (h : o.Tidy w) (name : String) : (o.counted w name).Tidy w :=
  ⟨h.covered, fun n hn => by
    show n ∈ (w.marked name o.statuses).keys
    rw [Walk.keys_marked]
    exact h.marked n hn, h.ready, h.aborted⟩

theorem Tidy.dispatch (h : o.Tidy w) (names : List String) : (o.dispatch names).Tidy w :=
  ⟨fun n => by rw [h.covered, ne_eq, ne_eq, dispatch_eq_none_iff], h.marked, h.ready, h.aborted⟩

theorem Tidy.conclude (h : o.Tidy w) (hname : name ∈ w.scope) (error : Option Failure) :
    (o.conclude w name error).Tidy w := by
  have hcounted := h.counted name
  refine conclude_cases h.ready (h.marked name hname) (fun _ _ => ?_) (fun _ _ => ?_) (fun _ _ _ => ?_) fun _ _ _ => ?_
  · exact ⟨h.covered, h.marked, h.ready, h.aborted⟩
  · exact ⟨hcounted.covered, hcounted.marked, hcounted.ready, hcounted.aborted⟩
  · exact ⟨hcounted.covered, hcounted.marked, hcounted.ready, hcounted.aborted⟩
  · exact hcounted.dispatch _

theorem Tidy.step (h : o.Tidy w) (hstep : o.Step w o') : o'.Tidy w := by
  cases hstep with
  | still => exact h
  | begin hp _ => exact (h.put _ _).note _
  | cancel _ => exact ⟨h.covered, h.marked, h.ready, h.aborted⟩
  | token _ => exact h.note _
  | status other _ => exact h.note _
  | log text _ => exact h.note _
  | write other status _ => exact h.write other status
  | finish error hp => exact ((h.put _ _).note _).conclude (h.mem_scope hp) error
  | turnAway hp _ => exact ((h.put _ _).note _).conclude (h.mem_scope hp) _

end Outline

open Outline

theorem tidy_initial {w : Walk} {statuses : Table Status} {callerCancelled : Bool}
    (hst : ∀ n ∈ w.scope, n ∈ statuses.keys) : (Outline.initial w statuses callerCancelled).openRound.Tidy w := by
  have hcovered : ∀ n, n ∈ w.scope ↔ (Outline.initial w statuses callerCancelled).progress n ≠ none := fun n => by
    unfold Outline.initial
    by_cases h : n ∈ w.scope
    · simp [h]
    · simp [h]
  have hclear : Tidy w { (Outline.initial w statuses callerCancelled).notice with ready := [] } :=
    ⟨hcovered, hst, rfl, rfl⟩
  unfold openRound
  split
  · exact hclear.dispatch _
  · exact hclear

/-- **Every state of a walk is tidy**, if the covered services have a status at the start. -/
theorem State.Reached.tidy {w : Walk} {statuses : Table Status} {callerCancelled : Bool} {acts : List Outside}
    {s : State} (hw : w.Sound) (hst : ∀ n ∈ w.scope, n ∈ statuses.keys)
    (h : State.Reached w statuses callerCancelled acts s) : s.outline.Tidy w := by
  refine State.Reached.induction (P := fun _ o => o.Tidy w) hw (tidy_initial hst) ?_ ?_ ?_ h
  · exact fun _ _ _ _ htidy hstep => htidy.step hstep
  · exact fun _ _ _ htidy => ⟨htidy.covered, htidy.marked, htidy.ready, htidy.aborted⟩
  · intro _ s act _ htidy _
    cases act with
    | release _ => exact htidy
    | cancel => exact ⟨htidy.covered, htidy.marked, htidy.ready, htidy.aborted⟩
    | setStatus other status => exact htidy.write other status

end Rollout
