import Rollout.Proofs.Walk.Balance
import Rollout.Proofs.Walk.Conduct
/-!
The statuses that a walk records.  When neither visitors nor anybody from outside set a status, the only change is the
target of a service whose visit has ended well, so the visits say what the statuses are (`Reached.recorded`).  A walk
towards started services goes through the whole graph from the dependencies up, and one towards stopped services from
the dependents down; at any time in either, what is started has its dependencies started (`Reached.consistent_up`,
`Reached.consistent_down`).

Up, a service that is started now was started before or has had its visit end well.  In the second case its dependencies
have had theirs end well before, and in the first they were started before and nothing has been stopped.  Down, a
service that is still started has not had its visit end well, so none of its dependencies has had one: they wait for it.
The scope of a tear-down may be a part of the graph, as long as it holds all that depends on what it holds.
-/
namespace Rollout

/-! ## Who sets statuses -/

def Visitor.Passive (visitor : Visitor) : Prop := ∀ name other status, .setStatus other status ∉ visitor name

def PassiveActs (acts : List Outside) : Prop := ∀ other status, .setStatus other status ∉ acts

theorem passive_flatten {script played : Script} (hscript : ∀ acts ∈ script, PassiveActs acts)
    (hplayed : played <+: script) : PassiveActs played.flatten := by
  intro other status hmem
  obtain ⟨acts, hacts, hmem⟩ := List.mem_flatten.1 hmem
  exact hscript acts (hplayed.subset hacts) other status hmem

def Walk.statusAfter (w : Walk) (old : Status) : Status := w.target.getD old

theorem Walk.get?_marked (w : Walk) (name n : String) (statuses : Table Status) :
    (w.marked name statuses).get? n = if n = name then (statuses.get? n).map w.statusAfter else statuses.get? n := by
  unfold Walk.marked Walk.statusAfter
  cases w.target with
  | none => simp
  | some status => exact Table.get?_modify _ _ _ _

namespace Roster

variable {w : Walk} {initial : Table Status} {known : List String} {r r' : Roster} {name : String} {old new : Stage}

/-! ## What every move keeps -/

/-- The target is recorded for each visit that has ended well, and nothing else is. -/
def Recorded (w : Walk) (initial : Table Status) (r : Roster) : Prop :=
  ∀ n, r.statuses.get? n =
    if r.stage n = some (.ended none) then (initial.get? n).map w.statusAfter else initial.get? n

theorem Recorded.of_same (h : r.Recorded w initial) (hstatuses : r'.statuses = r.statuses)
    (hended : ∀ n, r'.stage n = some (.ended none) ↔ r.stage n = some (.ended none)) : r'.Recorded w initial := by
  intro n
  rw [hstatuses, h n]
  by_cases hn : r.stage n = some (.ended none)
  · rw [if_pos hn, if_pos ((hended n).2 hn)]
  · rw [if_neg hn, if_neg fun hn' => hn ((hended n).1 hn')]

theorem ended_put_iff (hold : r.stage name = some old) (hbefore : old ≠ .ended none) (hafter : new ≠ .ended none)
    (n : String) : (r.put name new).stage n = some (.ended none) ↔ r.stage n = some (.ended none) := by
  by_cases hn : n = name
  · subst hn
    rw [stage_put_self hold, hold]
    simp [hbefore, hafter]
  · rw [stage_put_other hn]

theorem ended_pass_iff (n : String) : r.pass.stage n = some (.ended none) ↔ r.stage n = some (.ended none) := by
  unfold Roster.pass
  split
  · exact Iff.rfl
  · split
    · rename_i next rest _ hnext
      exact ended_put_iff (r := { r with slotQueue := rest }) hnext (by simp) (by simp) n
    · exact Iff.rfl

theorem ended_cancel_iff (n : String) : r.cancel.stage n = some (.ended none) ↔ r.stage n = some (.ended none) := by
  have hstage : r.cancel.stage n = if n ∈ r.cancelQueue then (r.stage n).map Stage.woken else r.stage n := rfl
  rw [hstage]
  split
  · cases r.stage n with
    | none => exact Iff.rfl
    | some stage => cases stage <;> simp [Stage.woken]
  · exact Iff.rfl

theorem statuses_pass (r : Roster) : r.pass.statuses = r.statuses := by
  unfold Roster.pass
  split
  · rfl
  · split
    · rfl
    · rfl

theorem statuses_close (error : Option Failure) : (r.close w name error).statuses =
    if error = none then w.marked name r.statuses else r.statuses := by
  have hpassed : ∀ ended : Roster, (if w.limit.isSome then ended.pass else ended).statuses = ended.statuses := by
    intro ended
    split
    · exact statuses_pass ended
    · rfl
  unfold Roster.close
  dsimp only
  rw [hpassed]
  rfl

theorem ended_close_iff (error : Option Failure) (n : String) : (r.close w name error).stage n = some (.ended none) ↔
    (r.put name (.ended error)).stage n = some (.ended none) := by
  unfold Roster.close
  dsimp only
  split
  · exact ended_pass_iff n
  · exact Iff.rfl

theorem Recorded.close (h : r.Recorded w initial) {rest : List Action} {error : Option Failure}
    (hold : r.stage name = some (.running rest)) : (r.close w name error).Recorded w initial := by
  cases error with
  | some cause =>
    refine h.of_same (statuses_close (some cause)) fun n => ?_
    exact (ended_close_iff (some cause) n).trans (ended_put_iff hold (by simp) (by simp) n)
  | none =>
    have hafter : ∀ n, (r.close w name none).stage n = some (.ended none) ↔
        (r.put name (.ended none)).stage n = some (.ended none) := ended_close_iff none
    intro n
    rw [statuses_close, if_pos rfl, Walk.get?_marked, h n]
    by_cases hn : n = name
    · subst hn
      have hbefore : r.stage n ≠ some (.ended none) := by
        rw [hold]
        nofun
      rw [if_pos rfl, if_neg hbefore, if_pos ((hafter n).2 (stage_put_self hold))]
    · rw [if_neg hn]
      simp only [hafter n, stage_put_other hn]

/-- **Every move of passive visits records targets only.** -/
theorem Recorded.move (h : r.Recorded w initial) (hfaithful : r.Faithful w known) (hpassive : w.visitor.Passive)
    (hmove : r.Move w r') : r'.Recorded w initial := by
  cases hmove with
  | dispatch hold => exact h.of_same rfl (ended_put_iff hold nofun nofun)
  | skip _ _ => exact h.of_same rfl fun _ => Iff.rfl
  | begin _ hold => exact h.of_same rfl (ended_put_iff hold nofun nofun)
  | take _ hold _ _ => exact h.of_same rfl (ended_put_iff hold nofun nofun)
  | lineUp _ _ hold _ _ => exact h.of_same rfl (ended_put_iff hold nofun nofun)
  | takeUp hold _ => exact h.of_same rfl (ended_put_iff hold nofun nofun)
  | turnAway _ hold _ _ => exact h.of_same rfl (ended_put_iff hold nofun nofun)
  | leaveLine _ hold _ => exact h.of_same rfl (ended_put_iff hold nofun nofun)
  | @decline name others _ hold _ =>
    have hkept : Roster.stage (Roster.pass { r with queue := others }) name = some .granted := stage_pass hold nofun
    refine h.of_same (statuses_pass _) fun n => ?_
    exact (ended_put_iff hkept (by simp) (by simp) n).trans (ended_pass_iff n)
  | goOn hold _ => exact h.of_same rfl (ended_put_iff hold nofun nofun)
  | note hold _ => exact h.of_same rfl (ended_put_iff hold nofun nofun)
  | @write name other status rest hold _ =>
    -- a visit about to set a status has that among its actions
    have hperformed : Performed (w.visitor name) (.setStatus other status :: rest) (notesOf name r.history) :=
      hfaithful.follows name _ hold
    exact absurd hperformed.mem (hpassive name other status)
  | use hold _ => exact h.of_same rfl (ended_put_iff hold nofun nofun)
  | awaitRelease _ hold _ => exact h.of_same rfl (ended_put_iff hold nofun nofun)
  | awaitCancel _ hold _ => exact h.of_same rfl (ended_put_iff hold nofun nofun)
  | @close name others rest error _ hold _ =>
    have hgone : Recorded w initial { r with queue := others } := h.of_same rfl fun _ => Iff.rfl
    exact hgone.close hold
  | cancel => exact h.of_same rfl ended_cancel_iff
  | trip => exact h.of_same rfl ended_cancel_iff

theorem Recorded.play (h : r.Recorded w initial) {act : Outside} (hact : ∀ other status, act ≠ .setStatus other status)
    (hplay : r.Play act r') : r'.Recorded w initial := by
  cases hplay with
  | release hold => exact h.of_same rfl (ended_put_iff hold nofun nofun)
  | keep _ => exact h.of_same rfl fun _ => Iff.rfl
  | cancel => exact h.of_same rfl ended_cancel_iff
  | again => exact h
  | write => exact absurd rfl (hact _ _)

end Roster

namespace State

variable {w : Walk} {statuses : Table Status} {callerCancelled : Bool} {acts : List Outside} {s : State}

theorem recorded_initial : (State.initial w statuses callerCancelled).roster.Recorded w statuses := by
  intro n
  have hidle : (State.initial w statuses callerCancelled).roster.stage n ≠ some (.ended none) := by
    intro hn
    cases (State.stage_initial hn).2
  rw [if_neg hidle]
  rfl

/-- **In every state of a passive walk the statuses are those that its visits have recorded.** -/
theorem Reached.recorded (hw : w.Sound) (hst : ∀ n ∈ w.scope, n ∈ statuses.keys) (hpassive : w.visitor.Passive)
    (h : Reached w statuses callerCancelled acts s) (hacts : PassiveActs acts) : s.roster.Recorded w statuses := by
  revert hacts
  have hboth : s.roster.Faithful w statuses.keys ∧ (PassiveActs acts → s.roster.Recorded w statuses) := by
    refine Reached.roster_induction
      (P := fun acts r => r.Faithful w statuses.keys ∧ (PassiveActs acts → r.Recorded w statuses)) hw hst ?_ ?_ ?_ h
    · exact ⟨faithful_initial statuses callerCancelled, fun _ => recorded_initial⟩
    · rintro acts r r' ⟨hfaithful, hrecorded⟩ hmove
      exact ⟨hfaithful.move hmove, fun hacts => (hrecorded hacts).move hfaithful hpassive hmove⟩
    · rintro acts r act r' ⟨hfaithful, hrecorded⟩ hplay
      refine ⟨hfaithful.play hplay, fun hacts => ?_⟩
      have hbefore : PassiveActs acts := fun other status hmem => hacts other status (List.mem_append_left _ hmem)
      have hact : ∀ other status, act ≠ .setStatus other status := by
        rintro other status rfl
        exact hacts other status (List.mem_append_right _ List.mem_cons_self)
      exact (hrecorded hbefore).play hact hplay
  exact hboth.2

theorem Reached.get?_statuses (hw : w.Sound) (hst : ∀ n ∈ w.scope, n ∈ statuses.keys) (hpassive : w.visitor.Passive)
    (h : Reached w statuses callerCancelled acts s) (hacts : PassiveActs acts) (n : String) :
    s.statuses.get? n =
      if s.outline.progress n = some (.ended none) then (statuses.get? n).map w.statusAfter else statuses.get? n := by
  have hsame : s.outline.progress n = some (.ended none) ↔ s.roster.stage n = some (.ended none) := by
    show (s.stages.get? n).map Stage.progress = some (.ended none) ↔ s.stages.get? n = some (.ended none)
    cases s.stages.get? n with
    | none => simp
    | some stage => cases stage <;> simp [Stage.progress]
  have hrecorded := h.recorded hw hst hpassive hacts n
  by_cases hn : s.outline.progress n = some (.ended none)
  · rw [if_pos hn]
    rw [if_pos (hsame.1 hn)] at hrecorded
    exact hrecorded
  · rw [if_neg hn]
    rw [if_neg fun hn' => hn (hsame.2 hn')] at hrecorded
    exact hrecorded

end State

/-! ## Consistent statuses -/

/-- Whatever is started has all its dependencies started. -/
def Consistent (g : Graph) (statuses : Table Status) : Prop :=
  ∀ a b, g.DependsOn a b → statuses.get? a = some .started → statuses.get? b = some .started

theorem consistent_of_depends {g : Graph} {statuses : Table Status}
    (h : ∀ a b, g.Depends a b → statuses.get? a = some .started → statuses.get? b = some .started) :
    Consistent g statuses := by
  intro a b hab ha
  unfold Graph.DependsOn at hab
  induction hab with
  | single hstep => exact h _ _ hstep ha
  | tail _ hstep ih => exact h _ _ hstep ih

namespace State

variable {w : Walk} {statuses : Table Status} {callerCancelled : Bool} {acts : List Outside} {s : State}

/-- **Bringing up the whole graph keeps statuses consistent**, at any time and however it ends. -/
theorem Reached.consistent_up (hw : w.Sound) (hst : ∀ n ∈ w.scope, n ∈ statuses.keys) (hpassive : w.visitor.Passive)
    (h : Reached w statuses callerCancelled acts s) (hacts : PassiveActs acts) (hdirection : w.direction = .forward)
    (htarget : w.target = some .started) (hwhole : ∀ n ∈ w.graph.services, n ∈ w.scope)
    (hbefore : Consistent w.graph statuses) : Consistent w.graph s.statuses := by
  have hget := h.get?_statuses hw hst hpassive hacts
  have hafter : ∀ old, w.statusAfter old = .started := by
    intro old
    unfold Walk.statusAfter
    rw [htarget]
    rfl
  refine consistent_of_depends fun a b hab ha => ?_
  have hb : b ∈ w.scope := hwhole b (hw.accepted.declared a b hab)
  obtain ⟨old, hold⟩ := Option.isSome_iff_exists.1 ((statuses.get?_isSome_iff b).2 (hst b hb))
  rw [hget b]
  by_cases hended : s.outline.progress b = some (.ended none)
  · rw [if_pos hended, hold, Option.map_some, hafter]
  · -- what depends on a service that has not ended well is not visited
    have hnot : s.outline.progress a ≠ some (.ended none) := by
      intro hended'
      have hprerequisite : b ∈ w.prerequisites a := (Walk.mem_prerequisites_forward hdirection).2 ⟨hab, hb⟩
      exact hended ((h.balanced hw hst).begun a _ hended' nofun b hprerequisite)
    rw [hget a, if_neg hnot] at ha
    rw [if_neg hended]
    exact hbefore a b (Relation.TransGen.single hab) ha

/-- **Tearing down keeps statuses consistent**, at any time and however it ends. -/
theorem Reached.consistent_down (hw : w.Sound) (hst : ∀ n ∈ w.scope, n ∈ statuses.keys) (hpassive : w.visitor.Passive)
    (h : Reached w statuses callerCancelled acts s) (hacts : PassiveActs acts) (hdirection : w.direction = .reverse)
    (htarget : w.target = some .stopped) (hbefore : Consistent w.graph statuses) :
    Consistent w.graph s.statuses := by
  have hget := h.get?_statuses hw hst hpassive hacts
  refine consistent_of_depends fun a b hab ha => ?_
  have hnot : s.outline.progress a ≠ some (.ended none) := by
    intro hended
    rw [hget a, if_pos hended] at ha
    obtain ⟨old, -, hstopped⟩ := Option.map_eq_some_iff.1 ha
    unfold Walk.statusAfter at hstopped
    rw [htarget] at hstopped
    cases hstopped
  -- a dependency is visited only after its dependents, which have to be covered then
  have hnot' : s.outline.progress b ≠ some (.ended none) := by
    intro hended
    have hcovered : a ∈ w.scope := hw.dependents b ((h.tidy hw hst).mem_scope hended) a hab
    have hprerequisite : a ∈ w.prerequisites b := (Walk.mem_prerequisites_reverse hdirection).2 ⟨hab, hcovered⟩
    exact hnot ((h.balanced hw hst).begun b _ hended nofun a hprerequisite)
  rw [hget a, if_neg hnot] at ha
  rw [hget b, if_neg hnot']
  exact hbefore a b (Relation.TransGen.single hab) ha

end State

end Rollout
