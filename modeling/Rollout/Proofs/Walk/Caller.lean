import Rollout.Proofs.Walk.Conduct
import Rollout.Proofs.Walk.Outcome
/-!
Who cancels the token of the caller.  A turn does so only if its visit is at an action for that (`State.Cancels`), and
something from outside only if it is a cancellation; the ends of visits and the limit never do.  So the token of the
caller is cancelled in a state just if it was before the walk, from outside, or in the turn of such a visit
(`State.Reached.callerCancelled_iff`).

The functions of the machine are gone through one by one, and all but one leave the token of the caller alone.  Once it
is cancelled it stays so, which makes the statement about a run out of the statement about a turn: either it was
cancelled in an earlier turn, or this is the turn.
-/
namespace Rollout

namespace Outline

variable {w : Walk} {o : Outline}

theorem callerCancelled_openRound (o : Outline) : o.openRound.callerCancelled = o.callerCancelled := by
  unfold openRound
  split
  · rfl
  · rfl

theorem callerCancelled_mark {o' : Outline} {name : String} (h : o.mark w name = .ok o') :
    o'.callerCancelled = o.callerCancelled := by
  unfold mark at h
  split at h
  · cases h
    rfl
  · split at h
    · cases h
      rfl
    · cases h

theorem callerCancelled_conclude (name : String) (error : Option Failure) :
    (o.conclude w name error).callerCancelled = o.callerCancelled := by
  unfold conclude
  cases error with
  | some cause => exact callerCancelled_openRound _
  | none =>
    dsimp only
    split
    · rfl
    · rename_i o' hmark
      have hkept : o'.callerCancelled = o.callerCancelled := callerCancelled_mark hmark
      rw [callerCancelled_openRound]
      split
      · exact hkept
      · exact hkept

end Outline

namespace State

variable {w : Walk} {s : State} {name : String}

/-- The next turn is that of a visit that cancels the token of the caller. -/
def Cancels (s : State) : Prop :=
  ∃ name others rest, s.queue = name :: others ∧ s.stages.get? name = some (.running (.cancel :: rest))

/-! ## What leaves the token of the caller alone -/

theorem callerCancelled_finish (name : String) (error : Option Failure) (hready : s.ready = []) :
    (s.finish w name error).callerCancelled = s.callerCancelled := by
  show (s.finish w name error).outline.callerCancelled = s.outline.callerCancelled
  rw [outline_finish _ _ hready]
  exact Outline.callerCancelled_conclude name error

theorem callerCancelled_turnAway (name : String) (hready : s.ready = []) :
    (s.turnAway w name).callerCancelled = s.callerCancelled := by
  show (s.turnAway w name).outline.callerCancelled = s.outline.callerCancelled
  rw [outline_turnAway _ hready]
  exact Outline.callerCancelled_conclude name _

theorem callerCancelled_enter (others : List String) (hready : s.ready = []) :
    (s.enter w name others).callerCancelled = s.callerCancelled := by
  unfold enter
  split
  · rfl
  · split
    · exact callerCancelled_turnAway (s := { s with queue := others }) name hready
    · split
      · rfl
      · rfl

theorem callerCancelled_perform {action : Action} {rest : List Action} (others : List String) (hready : s.ready = [])
    (haction : action ≠ .cancel) : (s.perform w name others rest action).callerCancelled = s.callerCancelled := by
  have hfinish : ∀ cause, (({ s with queue := others } : State).finish w name (some cause)).callerCancelled =
      s.callerCancelled := fun cause => callerCancelled_finish (s := { s with queue := others }) name _ hready
  cases action with
  | cancel => exact absurd rfl haction
  | fail cause => exact hfinish cause
  | setStatus other status =>
    simp only [perform]
    split
    · rfl
    · exact hfinish _
  | wait =>
    simp only [perform]
    split
    · rfl
    · rfl
  | waitCancel =>
    simp only [perform]
    split
    · rfl
    · rfl
  | _ => rfl

/-- **A turn leaves the token of the caller alone unless its visit cancels it**: a visit that ends, fails or is turned
away does not. -/
theorem callerCancelled_step (hready : s.ready = []) (hnot : ¬ s.Cancels) :
    (s.step w).callerCancelled = s.callerCancelled := by
  unfold step
  split
  · rfl
  · rename_i name others hqueue
    split
    · exact callerCancelled_enter others hready
    · split
      · exact callerCancelled_turnAway
          (s := { s with queue := others, slotQueue := s.slotQueue.erase name }) name hready
      · rfl
    · split
      · have hpass : ({ s with queue := others } : State).passSlot.outline = s.outline := outline_passSlot
        have hpassed := callerCancelled_turnAway (w := w) name ((congrArg Outline.ready hpass).trans hready)
        exact hpassed.trans (congrArg Outline.callerCancelled hpass)
      · rfl
    · exact callerCancelled_finish (s := { s with queue := others }) name none hready
    · rename_i action rest hstage
      refine callerCancelled_perform others hready ?_
      rintro rfl
      exact hnot ⟨name, others, rest, hqueue, hstage⟩
    · rfl

/-! ## What cancels it -/

theorem callerCancelled_cancelCaller (s : State) : s.cancelCaller.callerCancelled = true := by
  show s.cancelCaller.outline.callerCancelled = true
  rw [outline_cancelCaller]
  rfl

theorem Cancels.step (h : s.Cancels) : (s.step w).callerCancelled = true := by
  obtain ⟨name, others, rest, hqueue, hstage⟩ := h
  rw [step_running hqueue hstage]
  exact callerCancelled_cancelCaller _

/-- **What one turn does to the token of the caller.** -/
theorem callerCancelled_step_iff (hready : s.ready = []) :
    (s.step w).callerCancelled = true ↔ s.callerCancelled = true ∨ s.Cancels := by
  by_cases hcancels : s.Cancels
  · exact iff_of_true hcancels.step (Or.inr hcancels)
  · rw [callerCancelled_step hready hcancels, or_iff_left hcancels]

/-- **What something from outside does to it.** -/
theorem callerCancelled_play_iff (act : Outside) :
    (s.play act).callerCancelled = true ↔ s.callerCancelled = true ∨ act = .cancel := by
  show (s.play act).outline.callerCancelled = true ↔ _
  rw [outline_play]
  cases act with
  | release service => exact (or_iff_left nofun).symm
  | cancel => exact iff_of_true rfl (Or.inr rfl)
  | setStatus service status => exact (or_iff_left nofun).symm

theorem callerCancelled_noteCancellation : s.noteCancellation.callerCancelled = s.callerCancelled := by
  show s.noteCancellation.outline.callerCancelled = s.outline.callerCancelled
  rw [outline_noteCancellation]
  rfl

variable {statuses : Table Status} {callerCancelled : Bool} {acts more : List Outside} {t : State}

def CancelledInside (w : Walk) (statuses : Table Status) (callerCancelled : Bool) (acts : List Outside) (s : State) :
    Prop :=
  ∃ earlier later u, acts = earlier ++ later ∧ Reached w statuses callerCancelled earlier u ∧ u.Cancels ∧
    Runs w (u.step w) later s

theorem CancelledInside.runs (h : CancelledInside w statuses callerCancelled acts s) (hrun : Runs w s more t) :
    CancelledInside w statuses callerCancelled (acts ++ more) t := by
  obtain ⟨earlier, later, u, rfl, hu, hcancels, hlater⟩ := h
  exact ⟨earlier, later ++ more, u, List.append_assoc _ _ _, hu, hcancels, hlater.trans hrun⟩

theorem Reached.callerCancelled_of_runs (hw : w.Sound) (hst : ∀ n ∈ w.scope, n ∈ statuses.keys)
    (h : Reached w statuses callerCancelled acts s) (hrun : Runs w s more t) (hcancelled : s.callerCancelled = true) :
    t.callerCancelled = true := by
  have hreached : Reached w statuses callerCancelled (acts ++ more) t := Runs.trans h hrun
  have hmem : .cancelled ∈ s.history := (h.judged hw hst).cancelled.1 hcancelled
  exact (hreached.judged hw hst).cancelled.2 ((h.grows hw hst hrun).subset hmem)

/-- **The token of the caller is cancelled just if it was cancelled explicitly**: before the walk, from outside, or in
the turn of a visit that does so. -/
theorem Reached.callerCancelled_iff (hw : w.Sound) (hst : ∀ n ∈ w.scope, n ∈ statuses.keys)
    (h : Reached w statuses callerCancelled acts s) : s.callerCancelled = true ↔
      callerCancelled = true ∨ .cancel ∈ acts ∨ CancelledInside w statuses callerCancelled acts s := by
  constructor
  · intro hcancelled
    induction h with
    | refl =>
      have hfirst : (initial w statuses callerCancelled).openRound.outline.callerCancelled = true := hcancelled
      rw [outline_openRound_initial hw, Outline.callerCancelled_openRound] at hfirst
      exact Or.inl hfirst
    | @turn acts t hrun ih =>
      have hreached : Reached w statuses callerCancelled acts t := hrun
      rcases (callerCancelled_step_iff (hreached.ready hw)).1 hcancelled with hbefore | hcancels
      · refine (ih hbefore).imp_right (Or.imp_right fun hinside => ?_)
        simpa using hinside.runs (Runs.turn .refl)
      · exact Or.inr (Or.inr ⟨acts, [], t, (List.append_nil acts).symm, hreached, hcancels, .refl⟩)
    | @notice acts t _ ih =>
      rw [callerCancelled_noteCancellation] at hcancelled
      refine (ih hcancelled).imp_right (Or.imp_right fun hinside => ?_)
      simpa using hinside.runs (Runs.notice .refl)
    | @outside acts t act _ hdone ih =>
      rcases (callerCancelled_play_iff act).1 hcancelled with hbefore | rfl
      · refine (ih hbefore).imp_right (Or.imp (List.mem_append_left _) fun hinside => ?_)
        exact hinside.runs (Runs.refl.outside act hdone)
      · exact Or.inr (Or.inl (List.mem_append_right acts (List.mem_singleton_self _)))
  · intro hcause
    rcases hcause with hcaller | hact | ⟨earlier, later, u, rfl, hu, hcancels, hlater⟩
    · exact (h.judged hw hst).cancelled.2 (h.cancelled_mem hw hst (Or.inl hcaller))
    · exact (h.judged hw hst).cancelled.2 (h.cancelled_mem hw hst (Or.inr hact))
    · exact Reached.callerCancelled_of_runs hw hst (Runs.turn hu) hlater hcancels.step

theorem Reached.mem_visitor_of_cancels (hw : w.Sound) (hst : ∀ n ∈ w.scope, n ∈ statuses.keys)
    (h : Reached w statuses callerCancelled acts s) (hcancels : s.Cancels) : ∃ name, .cancel ∈ w.visitor name := by
  obtain ⟨name, others, rest, -, hstage⟩ := hcancels
  have hperformed : Performed (w.visitor name) (.cancel :: rest) (notesOf name s.history) :=
    (h.faithful hw hst).follows name _ hstage
  exact ⟨name, hperformed.mem⟩

theorem Reached.exists_cancel (hw : w.Sound) (hst : ∀ n ∈ w.scope, n ∈ statuses.keys)
    (h : Reached w statuses callerCancelled acts s) (hcancelled : s.callerCancelled = true) :
    callerCancelled = true ∨ .cancel ∈ acts ∨ ∃ name, .cancel ∈ w.visitor name := by
  refine ((h.callerCancelled_iff hw hst).1 hcancelled).imp_right (Or.imp_right ?_)
  rintro ⟨_, _, u, -, hu, hcancels, -⟩
  exact hu.mem_visitor_of_cancels hw hst hcancels

end State

end Rollout
