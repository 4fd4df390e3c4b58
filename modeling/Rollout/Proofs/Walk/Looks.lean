import Rollout.Proofs.Walk.Late
/-!
What visits find when they look at their token.  A visitor looks when it notes the token or waits for its cancellation,
and with a limit a visit also looks before its visitor begins (`Stage.Looks`).  What it has found shows in what its turn
does (`State.Finds`): it is that the token is cancelled just if the history has a stop by then (`Reached.finds_iff`).
So every note of the token in a history is true of what stands before it (`Reached.told`).

What a turn shows depends on the stage.  A visit that has not begun is turned away if it finds the token cancelled, and
begins or gets in line if not; a visit that notes the token writes down what it finds; a visit that waits for the
cancellation goes on if it is there, and waits if not.  Whoever looks finds one of the two (`exists_finds`).  A visit
that goes on waiting does not look again, but there is no stop as long as it waits
(`Reached.not_stops_of_awaitingCancel`).
-/
namespace Rollout

/-- In its turn, a visit at this stage looks at its token. -/
inductive Stage.Looks (w : Walk) : Stage → Prop where
  | token (rest : List Action) : Looks w (.running (.token :: rest))
  | waitCancel (rest : List Action) : Looks w (.running (.waitCancel :: rest))
  | limited {stage : Stage} : w.limit.isSome → stage.progress = .waiting → Looks w stage

namespace State

variable {w : Walk} {s : State} {name : String} {others : List String} {stage : Stage} {rest : List Action} {b : Bool}

/-- The visit whose turn is next looks at its token, and this is what it finds, as its turn shows. -/
inductive Finds (w : Walk) (s : State) (name : String) : Bool → Prop where
  | notes {rest : List Action} {b : Bool} : s.stages.get? name = some (.running (.token :: rest)) →
      (s.step w).history = .token name b :: s.history → Finds w s name b
  /-- There is nothing to wait for. -/
  | goesOn {rest : List Action} : s.stages.get? name = some (.running (.waitCancel :: rest)) →
      (s.step w).stages.get? name = some (.running rest) → Finds w s name true
  | waits {rest : List Action} : s.stages.get? name = some (.running (.waitCancel :: rest)) →
      (s.step w).stages.get? name = some (.awaitingCancel rest) → Finds w s name false
  | turnedAway {stage : Stage} : w.limit.isSome → s.stages.get? name = some stage → stage.progress = .waiting →
      (s.step w).history = .turnedAway name :: s.history → Finds w s name true
  | begins {stage : Stage} : w.limit.isSome → s.stages.get? name = some stage → stage.progress = .waiting →
      (s.step w).history = .began name :: s.history → Finds w s name false
  /-- All slots are taken. -/
  | linesUp {stage : Stage} : w.limit.isSome → s.stages.get? name = some stage → stage.progress = .waiting →
      (s.step w).history = s.history → (s.step w).stages.get? name = some .awaitingSlot → Finds w s name false

/-! ## What a turn does -/

theorem get?_setStage (h : s.stages.get? name = some stage) (new : Stage) :
    (s.setStage name new).stages.get? name = some new := by
  show (s.stages.modify name fun _ => new).get? name = some new
  rw [Table.get?_modify, if_pos rfl, h]
  rfl

theorem history_step_token (hq : s.queue = name :: others)
    (h : s.stages.get? name = some (.running (.token :: rest))) :
    (s.step w).history = .token name s.tokenCancelled :: s.history := by
  rw [step_running hq h]
  rfl

theorem get?_step_waitCancel (hq : s.queue = name :: others)
    (h : s.stages.get? name = some (.running (.waitCancel :: rest))) : (s.step w).stages.get? name =
      some (if s.tokenCancelled then .running rest else .awaitingCancel rest) := by
  rw [step_running hq h]
  simp only [perform]
  split
  · exact get?_setStage h _
  · exact get?_setStage (s := { s with queue := others, cancelQueue := s.cancelQueue ++ [name] }) h _

theorem history_turnAway (hready : s.ready = []) :
    (s.turnAway w name).history = .turnedAway name :: s.history := by
  have hnoted : ((s.outline.put name (.ended (some .cancelled))).note (.turnedAway name)).ready = [] := hready
  show (s.turnAway w name).outline.history = _
  rw [outline_turnAway name hready]
  unfold Outline.turnAway
  rw [Outline.conclude_some hnoted]
  rfl

theorem history_step_of_cancelled (hlimit : w.limit.isSome) (hq : s.queue = name :: others)
    (h : s.stages.get? name = some stage) (hwaiting : stage.progress = .waiting) (hready : s.ready = [])
    (hc : s.tokenCancelled = true) : (s.step w).history = .turnedAway name :: s.history := by
  obtain ⟨limit, hlimit⟩ := Option.isSome_iff_exists.1 hlimit
  unfold step
  rw [hq]
  dsimp only
  rw [h]
  cases stage with
  | dispatched =>
    simp only [enter, hlimit, hc, if_true]
    exact history_turnAway (s := { s with queue := others }) hready
  | awaitingSlot =>
    dsimp only
    rw [hc, if_pos rfl]
    exact history_turnAway (s := { s with queue := others, slotQueue := s.slotQueue.erase name }) hready
  | granted =>
    have hpass : ({ s with queue := others } : State).passSlot.outline = s.outline := outline_passSlot
    have haway : (({ s with queue := others } : State).passSlot.turnAway w name).history =
        .turnedAway name :: ({ s with queue := others } : State).passSlot.history :=
      history_turnAway ((congrArg Outline.ready hpass).trans hready)
    dsimp only
    rw [hc, if_pos rfl]
    exact haway.trans (congrArg (_ :: ·) (congrArg Outline.history hpass))
  | _ => cases hwaiting

theorem history_step_of_live (hlimit : w.limit.isSome) (hq : s.queue = name :: others)
    (h : s.stages.get? name = some stage) (hwaiting : stage.progress = .waiting) (hc : s.tokenCancelled = false) :
    (s.step w).history = .began name :: s.history ∨
      (s.step w).history = s.history ∧ (s.step w).stages.get? name = some .awaitingSlot := by
  obtain ⟨limit, hlimit⟩ := Option.isSome_iff_exists.1 hlimit
  unfold step
  rw [hq]
  dsimp only
  rw [h]
  cases stage with
  | dispatched =>
    simp only [enter, hlimit, hc, Bool.false_eq_true, if_false]
    split
    · exact Or.inl rfl
    · exact Or.inr ⟨rfl, get?_setStage (s := { s with
        queue := others, slotQueue := s.slotQueue ++ [name], cancelQueue := s.cancelQueue ++ [name] }) h _⟩
  | awaitingSlot =>
    dsimp only
    rw [hc, if_neg Bool.false_ne_true]
    exact Or.inr ⟨rfl, h⟩
  | granted =>
    dsimp only
    rw [hc, if_neg Bool.false_ne_true]
    exact Or.inl rfl
  | _ => cases hwaiting

/-! ## What a visit finds -/

theorem Finds.eq_tokenCancelled (h : s.Finds w name b) (hq : s.queue = name :: others) (hready : s.ready = []) :
    b = s.tokenCancelled := by
  have hkept : ∀ e : Event, s.history ≠ e :: s.history := fun e heq => (List.cons_ne_self e s.history) heq.symm
  cases h with
  | notes hstage hshows =>
    rw [history_step_token hq hstage] at hshows
    have heq := (List.cons.inj hshows).1
    injection heq with _ hnoted
    exact hnoted.symm
  | goesOn hstage hshows =>
    rw [get?_step_waitCancel hq hstage] at hshows
    cases hc : s.tokenCancelled with
    | true => rfl
    | false =>
      rw [hc] at hshows
      cases hshows
  | waits hstage hshows =>
    rw [get?_step_waitCancel hq hstage] at hshows
    cases hc : s.tokenCancelled with
    | false => rfl
    | true =>
      rw [hc] at hshows
      cases hshows
  | turnedAway hlimit hstage hwaiting hshows =>
    cases hc : s.tokenCancelled with
    | true => rfl
    | false =>
      rcases history_step_of_live hlimit hq hstage hwaiting hc with hbegan | ⟨hsame, -⟩
      · cases (List.cons.inj (hbegan.symm.trans hshows)).1
      · exact absurd (hsame.symm.trans hshows) (hkept _)
  | begins hlimit hstage hwaiting hshows =>
    cases hc : s.tokenCancelled with
    | false => rfl
    | true =>
      have haway := history_step_of_cancelled hlimit hq hstage hwaiting hready hc
      cases (List.cons.inj (haway.symm.trans hshows)).1
  | linesUp hlimit hstage hwaiting hshows _ =>
    cases hc : s.tokenCancelled with
    | false => rfl
    | true =>
      have haway := history_step_of_cancelled hlimit hq hstage hwaiting hready hc
      exact absurd (hshows.symm.trans haway) (hkept _)

theorem exists_finds (hq : s.queue = name :: others) (h : s.stages.get? name = some stage) (hlooks : stage.Looks w)
    (hready : s.ready = []) : ∃ b, s.Finds w name b := by
  cases hlooks with
  | token rest => exact ⟨_, .notes h (history_step_token hq h)⟩
  | waitCancel rest =>
    have hshows := get?_step_waitCancel (w := w) hq h
    cases hc : s.tokenCancelled with
    | true =>
      rw [hc, if_pos rfl] at hshows
      exact ⟨true, .goesOn h hshows⟩
    | false =>
      rw [hc, if_neg Bool.false_ne_true] at hshows
      exact ⟨false, .waits h hshows⟩
  | limited hlimit hwaiting =>
    cases hc : s.tokenCancelled with
    | true => exact ⟨true, .turnedAway hlimit h hwaiting (history_step_of_cancelled hlimit hq h hwaiting hready hc)⟩
    | false =>
      rcases history_step_of_live hlimit hq h hwaiting hc with hbegan | ⟨hsame, hline⟩
      · exact ⟨false, .begins hlimit h hwaiting hbegan⟩
      · exact ⟨false, .linesUp hlimit h hwaiting hsame hline⟩

variable {statuses : Table Status} {callerCancelled : Bool} {acts : List Outside}

/-- **The token of the visits is cancelled just if the history has a stop.** -/
theorem Reached.tokenCancelled_iff_stops (hw : w.Sound) (hst : ∀ n ∈ w.scope, n ∈ statuses.keys)
    (h : Reached w statuses callerCancelled acts s) : s.tokenCancelled = true ↔ ∃ e ∈ s.history, e.Stops := by
  constructor
  · exact fun hc => ((h.tokenCancelled_iff hw hst).1 hc).exists_stop
  · rintro ⟨e, he, hstop⟩
    exact (h.braked hw hst).token e he hstop

/-- **A visit that looks at its token finds it cancelled just if the history has a stop by then.** -/
theorem Reached.finds_iff (hw : w.Sound) (hst : ∀ n ∈ w.scope, n ∈ statuses.keys)
    (h : Reached w statuses callerCancelled acts s) (hq : s.queue = name :: others) (hfinds : s.Finds w name b) :
    b = true ↔ ∃ e ∈ s.history, e.Stops := by
  rw [hfinds.eq_tokenCancelled hq (h.ready hw), h.tokenCancelled_iff_stops hw hst]

theorem Reached.not_stops_of_awaitingCancel (hw : w.Sound) (hst : ∀ n ∈ w.scope, n ∈ statuses.keys)
    (h : Reached w statuses callerCancelled acts s) (hstage : s.stages.get? name = some (.awaitingCancel rest)) :
    ∀ e ∈ s.history, ¬ e.Stops := by
  intro e he hstop
  have hlive : s.tokenCancelled = false := ((h.placed hw hst).fits name _ hstage).1
  rw [(h.tokenCancelled_iff_stops hw hst).2 ⟨e, he, hstop⟩] at hlive
  cases hlive

end State

/-! ## What is noted of the token -/

/-- Every note of the token says whether there was a stop before it. -/
def Told (history : List Event) : Prop :=
  ∀ later name b earlier, history = later ++ .token name b :: earlier → (b = true ↔ ∃ e ∈ earlier, e.Stops)

section Told

variable {history : List Event} {e : Event}

theorem Told.cons (h : Told history) (hnew : ∀ name b, e = .token name b → (b = true ↔ ∃ e ∈ history, e.Stops)) :
    Told (e :: history) := by
  intro later name b earlier heq
  cases later with
  | nil =>
    obtain ⟨rfl, rfl⟩ := List.cons.inj heq
    exact hnew name b rfl
  | cons e' later =>
    obtain ⟨rfl, rfl⟩ := List.cons.inj heq
    exact h later name b earlier rfl

theorem Told.append (h : Told history) : ∀ new : List Event, (∀ name b, .token name b ∉ new) → Told (new ++ history)
  | [], _ => h
  | e :: new, hnew => by
    refine (Told.append h new fun name b hmem => hnew name b (List.mem_cons_of_mem e hmem)).cons ?_
    rintro name b rfl
    exact absurd List.mem_cons_self (hnew name b)

end Told

namespace Outline

variable {w : Walk} {o o' : Outline} {name : String}

theorem Told.cancel (h : Told o.history) : Told o.cancel.history := by
  show Told (if o.callerCancelled then o.history else .cancelled :: o.history)
  split
  · exact h
  · exact h.cons nofun

theorem Told.dispatch (h : Told o.history) (names : List String) : Told (o.dispatch names).history := by
  refine h.append _ fun name b hmem => ?_
  simp at hmem

theorem Told.conclude (h : Told o.history) (htidy : o.Tidy w) (hname : name ∈ w.scope) (error : Option Failure) :
    Told (o.conclude w name error).history := by
  refine conclude_cases (P := fun o' => Told o'.history) htidy.ready (htidy.marked name hname) (fun _ _ => h)
    (fun _ _ => h) (fun _ _ _ => h) fun _ _ _ => ?_
  exact Told.dispatch (o := o.counted w name) h _

/-- **Every step keeps the notes of the token true.** -/
theorem Told.step (h : Told o.history) (htidy : o.Tidy w) (hstep : o.Step w o')
    (htoken : o.tokenCancelled = true ↔ ∃ e ∈ o.history, e.Stops) : Told o'.history := by
  cases hstep with
  | still => exact h
  | begin _ _ => exact h.cons nofun
  | cancel _ => exact Told.cancel h
  | token _ =>
    refine h.cons ?_
    rintro name b heq
    injection heq with _ hnoted
    rw [← hnoted]
    exact htoken
  | status other _ => exact h.cons nofun
  | log text _ => exact h.cons nofun
  | write other status _ => exact h
  | @finish name error hp =>
    have hended : Told ((o.put name (.ended error)).note (.ended name error)).history := h.cons nofun
    exact Told.conclude hended ((htidy.put _ _).note _) (htidy.mem_scope hp) error
  | @turnAway name hp _ =>
    have haway : Told ((o.put name (.ended (some .cancelled))).note (.turnedAway name)).history := h.cons nofun
    exact Told.conclude haway ((htidy.put _ _).note _) (htidy.mem_scope hp) _

theorem told_initial {statuses : Table Status} {callerCancelled : Bool} :
    Told (Outline.initial w statuses callerCancelled).openRound.history := by
  have hfirst : Told { (Outline.initial w statuses callerCancelled).notice with ready := [] }.history := by
    have hnothing : Told [] := fun later name b earlier heq => by cases later <;> cases heq
    cases callerCancelled with
    | false => exact hnothing
    | true => exact hnothing.cons nofun
  unfold openRound
  split
  · exact Told.dispatch hfirst _
  · exact hfirst

end Outline

/-- **In every state of a walk, each note of the token says whether there was a stop before it.** -/
theorem State.Reached.told {w : Walk} {statuses : Table Status} {callerCancelled : Bool} {acts : List Outside}
    {s : State} (hw : w.Sound) (hst : ∀ n ∈ w.scope, n ∈ statuses.keys)
    (h : State.Reached w statuses callerCancelled acts s) : Told s.history := by
  refine State.Reached.induction (P := fun _ o => Told o.history) hw Outline.told_initial ?_ ?_ ?_ h
  · exact fun _ s _ hrun htold hstep =>
      Outline.Told.step htold (hrun.tidy hw hst) hstep (hrun.tokenCancelled_iff_stops hw hst)
  · exact fun _ _ _ htold => htold
  · intro _ _ act _ htold _
    cases act with
    | release _ => exact htold
    | cancel => exact Outline.Told.cancel htold
    | setStatus _ _ => exact htold

end Rollout
