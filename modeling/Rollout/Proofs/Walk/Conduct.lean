import Rollout.Proofs.Walk.Moves
/-!
What a visit does.  It does its actions in order, and those that can be seen leave a note in the history.  So what is
noted of a visit, and what it still has to do, are at any time the actions of its visitor (`Performed`).  A visit whose
visitor has begun comes to no end but its own: nothing is left, or the first action that is left has failed (`OwnEnd`).

An action that leaves no note may have been done or not, as far as the history goes; the stage of the visit says which,
since it holds what is still to be done (`Stage.Follows`).  The two together are kept by every move: a visit that does
an action moves it from what is left to what is done, with its note if it leaves one (`Faithful.act`), and a visit that
ends does so where its actions lead (`Faithful.ends`).  A cancellation ends no visit that has begun, and neither does
the failure of another one.
-/
namespace Rollout

/-! ## What is done and what is left -/

def Action.isNoted : Action → Bool
  | token => true
  | status _ => true
  | log _ => true
  | _ => false

def notesOf (name : String) (history : List Event) : List Action := history.reverse.filterMap (Event.noteOf? name)

/-- All actions before `rest` are done, and this is what they left noted. -/
def Performed (actions rest noted : List Action) : Prop :=
  ∃ done, actions = done ++ rest ∧ noted = done.filter Action.isNoted

/-- A visit has come to the end that its actions lead to: all are done, or the first that is left has failed. -/
def OwnEnd (known : List String) (actions noted : List Action) (error : Option Failure) : Prop :=
  ∃ rest, Performed actions rest noted ∧ Concludes known rest error

section Notes

variable {name n : String} {e : Event} {history : List Event} {action : Action} {actions rest noted : List Action}

theorem notesOf_cons (name : String) (e : Event) (history : List Event) :
    notesOf name (e :: history) = notesOf name history ++ (e.noteOf? name).toList := by
  unfold notesOf
  rw [List.reverse_cons, List.filterMap_append]
  cases h : e.noteOf? name with
  | none => simp [h]
  | some action => simp [h]

theorem notesOf_cons_other (h : e.noteOf? name = none) : notesOf name (e :: history) = notesOf name history := by
  rw [notesOf_cons, h, Option.toList_none, List.append_nil]

theorem notesOf_cons_self (h : e.noteOf? name = some action) :
    notesOf name (e :: history) = notesOf name history ++ [action] := by
  rw [notesOf_cons, h, Option.toList_some]

theorem Event.noteOf?_other (h : e.noteOf? name = some action) (hn : n ≠ name) : e.noteOf? n = none := by
  have hservice : ∀ {service : String} {a : Action}, (if service = name then some a else none) = some action →
      (if service = n then some a else none) = none := by
    intro service a hsome
    by_cases hs : service = name
    · rw [if_neg (hs ▸ Ne.symm hn)]
    · rw [if_neg hs] at hsome
      cases hsome
  cases e with
  | token service cancelled => exact hservice h
  | status service other status => exact hservice h
  | log service text => exact hservice h
  | _ => cases h

theorem Event.isNoted_of_noteOf? (h : e.noteOf? name = some action) : action.isNoted = true := by
  have hnoted : ∀ {service : String} {a : Action}, a.isNoted = true →
      (if service = name then some a else none) = some action → action.isNoted = true := by
    intro service a ha hsome
    split at hsome
    · cases hsome
      exact ha
    · cases hsome
  cases e with
  | token service cancelled => exact hnoted rfl h
  | status service other status => exact hnoted rfl h
  | log service text => exact hnoted rfl h
  | _ => cases h

theorem Performed.first (actions : List Action) : Performed actions actions [] := ⟨[], rfl, rfl⟩

theorem Performed.next (h : Performed actions (action :: rest) noted) :
    Performed actions rest (noted ++ [action].filter Action.isNoted) := by
  obtain ⟨done, rfl, rfl⟩ := h
  refine ⟨done ++ [action], ?_, ?_⟩
  · rw [List.append_assoc, List.singleton_append]
  · rw [List.filter_append]

theorem Performed.silent (h : Performed actions (action :: rest) noted) (hsilent : action.isNoted = false) :
    Performed actions rest noted := by
  have hnext := h.next
  rwa [List.filter_cons_of_neg (by simp [hsilent]), List.filter_nil, List.append_nil] at hnext

theorem Performed.suffix (h : Performed actions rest noted) : rest <:+ actions := by
  obtain ⟨done, rfl, -⟩ := h
  exact List.suffix_append done rest

theorem Performed.mem (h : Performed actions (action :: rest) noted) : action ∈ actions :=
  h.suffix.subset List.mem_cons_self

end Notes

/-- What the stage of a visit says of what is noted of it. -/
def Stage.Follows (actions noted : List Action) : Stage → Prop
  | idle => noted = []
  | dispatched => noted = []
  | awaitingSlot => noted = []
  | granted => noted = []
  | running rest => Performed actions rest noted
  | awaitingRelease rest => Performed actions (.wait :: rest) noted
  | awaitingCancel rest => Performed actions (.waitCancel :: rest) noted
  | ended _ => True

theorem Stage.Follows.woken {stage : Stage} {actions noted : List Action} (h : stage.Follows actions noted) :
    stage.woken.Follows actions noted := by
  cases stage with
  | awaitingCancel rest => exact Performed.silent h rfl
  | _ => exact h

namespace Roster

variable {w : Walk} {known : List String} {r r' : Roster} {name : String} {old new : Stage}

/-! ## What every move keeps -/

/-- Visits have done what the history notes of them, and those that have ended are at their own end. -/
structure Faithful (w : Walk) (known : List String) (r : Roster) : Prop where
  keys : r.statuses.keys = known
  follows : ∀ n stage, r.stage n = some stage → stage.Follows (w.visitor n) (notesOf n r.history)
  ended : ∀ n error, .ended n error ∈ r.history →
    r.stage n = some (.ended error) ∧ OwnEnd known (w.visitor n) (notesOf n r.history) error

theorem Faithful.of_same (h : r.Faithful w known) (hkeys : r'.statuses.keys = r.statuses.keys)
    (hstage : r'.stage = r.stage) (hhistory : r'.history = r.history) : r'.Faithful w known := by
  refine ⟨hkeys.trans h.keys, ?_, ?_⟩
  · rw [hstage, hhistory]
    exact h.follows
  · rw [hstage, hhistory]
    exact h.ended

theorem Faithful.put (h : r.Faithful w known) (hold : r.stage name = some old) (hlive : ∀ error, old ≠ .ended error)
    (hnew : new.Follows (w.visitor name) (notesOf name r.history)) : (r.put name new).Faithful w known := by
  refine ⟨h.keys, fun n stage hn => ?_, fun n error hmem => ?_⟩
  · rcases stage_put_cases hn with ⟨rfl, rfl⟩ | ⟨-, hn⟩
    · exact hnew
    · exact h.follows n stage hn
  · obtain ⟨hended, hown⟩ := h.ended n error hmem
    refine ⟨?_, hown⟩
    have hn : n ≠ name := by
      rintro rfl
      exact hlive error (Option.some.inj (hold.symm.trans hended))
    rw [stage_put_other hn]
    exact hended

theorem Faithful.note (h : r.Faithful w known) {e : Event} (hquiet : ∀ n, e.noteOf? n = none)
    (hgoes : ∀ n error, e ≠ .ended n error) : (r.note e).Faithful w known := by
  refine ⟨h.keys, fun n stage hn => ?_, fun n error hmem => ?_⟩
  · show stage.Follows (w.visitor n) (notesOf n (e :: r.history))
    rw [notesOf_cons_other (hquiet n)]
    exact h.follows n stage hn
  · show _ ∧ OwnEnd known (w.visitor n) (notesOf n (e :: r.history)) error
    rw [notesOf_cons_other (hquiet n)]
    rcases List.mem_cons.1 hmem with heq | hmem
    · exact absurd heq.symm (hgoes n error)
    · exact h.ended n error hmem

theorem Faithful.act (h : r.Faithful w known) {action : Action} {rest : List Action} {e : Event}
    (hold : r.stage name = some (.running (action :: rest))) (he : e.noteOf? name = some action) :
    ((r.put name (.running rest)).note e).Faithful w known := by
  have hperformed : Performed (w.visitor name) (action :: rest) (notesOf name r.history) := h.follows name _ hold
  have hothers : ∀ n, n ≠ name → notesOf n (e :: r.history) = notesOf n r.history :=
    fun n hn => notesOf_cons_other (Event.noteOf?_other he hn)
  refine ⟨h.keys, fun n stage hn => ?_, fun n error hmem => ?_⟩
  · show stage.Follows (w.visitor n) (notesOf n (e :: r.history))
    rcases stage_put_cases (r := r) hn with ⟨rfl, rfl⟩ | ⟨hne, hn⟩
    · rw [notesOf_cons_self he]
      have hnext := hperformed.next
      rwa [List.filter_cons_of_pos (Event.isNoted_of_noteOf? he), List.filter_nil] at hnext
    · rw [hothers n hne]
      exact h.follows n stage hn
  · have hbefore : .ended n error ∈ r.history := by
      rcases List.mem_cons.1 hmem with rfl | hbefore
      · cases he
      · exact hbefore
    obtain ⟨hended, hown⟩ := h.ended n error hbefore
    have hne : n ≠ name := by
      rintro rfl
      rw [hold, Option.some.injEq] at hended
      cases hended
    refine ⟨(stage_put_other hne).trans hended, ?_⟩
    show OwnEnd known (w.visitor n) (notesOf n (e :: r.history)) error
    rw [hothers n hne]
    exact hown

theorem Faithful.ends (h : r.Faithful w known) {rest : List Action} {error : Option Failure}
    (hold : r.stage name = some (.running rest)) (hends : Concludes known rest error) :
    ((r.put name (.ended error)).note (.ended name error)).Faithful w known := by
  have hput : (r.put name (.ended error)).Faithful w known := h.put hold nofun trivial
  have hnotes : ∀ n, notesOf n (.ended name error :: r.history) = notesOf n r.history :=
    fun n => notesOf_cons_other rfl
  refine ⟨h.keys, fun n stage hn => ?_, fun n error' hmem => ?_⟩
  · show stage.Follows (w.visitor n) (notesOf n (.ended name error :: r.history))
    rw [hnotes]
    exact hput.follows n stage hn
  · show _ ∧ OwnEnd known (w.visitor n) (notesOf n (.ended name error :: r.history)) error'
    rw [hnotes]
    rcases List.mem_cons.1 hmem with heq | hmem
    · obtain ⟨rfl, rfl⟩ := Event.ended.inj heq
      have hperformed : Performed (w.visitor n) rest (notesOf n r.history) := h.follows n _ hold
      exact ⟨stage_put_self hold, rest, hperformed, hends⟩
    · exact hput.ended n error' hmem

theorem Faithful.pass (h : r.Faithful w known) : r.pass.Faithful w known := by
  unfold Roster.pass
  split
  · exact h.of_same rfl rfl rfl
  · rename_i next rest hline
    split
    · rename_i hnext
      have hnone : notesOf next r.history = [] := h.follows next _ hnext
      have hput : (r.put next .granted).Faithful w known := h.put hnext nofun hnone
      exact hput.of_same rfl rfl rfl
    · exact h.of_same rfl rfl rfl

theorem Faithful.cancel (h : r.Faithful w known) : r.cancel.Faithful w known := by
  have hstage : ∀ n, r.cancel.stage n = if n ∈ r.cancelQueue then (r.stage n).map Stage.woken else r.stage n :=
    fun n => rfl
  refine ⟨h.keys, fun n stage hn => ?_, fun n error hmem => ?_⟩
  · rw [hstage] at hn
    split at hn
    · obtain ⟨before, hbefore, rfl⟩ := Option.map_eq_some_iff.1 hn
      exact (h.follows n before hbefore).woken
    · exact h.follows n stage hn
  · obtain ⟨hended, hown⟩ := h.ended n error hmem
    refine ⟨?_, hown⟩
    rw [hstage, hended]
    split
    · rfl
    · rfl

theorem Faithful.close (h : r.Faithful w known) {rest : List Action} {error : Option Failure}
    (hold : r.stage name = some (.running rest)) (hends : Concludes r.statuses.keys rest error) :
    (r.close w name error).Faithful w known := by
  rw [h.keys] at hends
  have hended := h.ends hold hends
  have hkeys : ∀ statuses : Table Status, (if error = none then w.marked name statuses else statuses).keys =
      statuses.keys := by
    intro statuses
    split
    · exact w.keys_marked name statuses
    · rfl
  unfold Roster.close
  dsimp only
  split
  · exact hended.pass.of_same (hkeys _) rfl rfl
  · exact hended.of_same (hkeys _) rfl rfl

theorem Faithful.advance (h : r.Faithful w known) (hkeys : r'.statuses.keys = r.statuses.keys)
    (hstage : r'.stage = r.stage) (hhistory : r'.history = r.history) (hold : r.stage name = some old)
    (hlive : ∀ error, old ≠ .ended error) (hnew : new.Follows (w.visitor name) (notesOf name r.history)) :
    (r'.put name new).Faithful w known := by
  have hsame : r'.Faithful w known := h.of_same hkeys hstage hhistory
  rw [← hstage] at hold
  rw [← hhistory] at hnew
  exact hsame.put hold hlive hnew

theorem Faithful.begin (h : r.Faithful w known) (hkeys : r'.statuses.keys = r.statuses.keys)
    (hstage : r'.stage = r.stage) (hhistory : r'.history = r.history) (hold : r.stage name = some old)
    (hlive : ∀ error, old ≠ .ended error) (hnone : notesOf name r.history = []) :
    (r'.begin w name).Faithful w known := by
  have hperformed : Performed (w.visitor name) (w.visitor name) (notesOf name r.history) := by
    rw [hnone]
    exact .first _
  have hput : (r'.put name (.running (w.visitor name))).Faithful w known :=
    h.advance hkeys hstage hhistory hold hlive hperformed
  exact hput.note (fun _ => rfl) nofun

theorem Faithful.turnAway (h : r.Faithful w known) (hkeys : r'.statuses.keys = r.statuses.keys)
    (hstage : r'.stage = r.stage) (hhistory : r'.history = r.history) (hold : r.stage name = some old)
    (hlive : ∀ error, old ≠ .ended error) : (r'.turnAway name).Faithful w known := by
  have hput : (r'.put name (.ended (some .cancelled))).Faithful w known :=
    h.advance hkeys hstage hhistory hold hlive trivial
  exact hput.note (fun _ => rfl) nofun

/-- **Every move keeps visits to their actions.** -/
theorem Faithful.move (h : r.Faithful w known) (hmove : r.Move w r') : r'.Faithful w known := by
  cases hmove with
  | @dispatch name hold =>
    have hnone : notesOf name r.history = [] := h.follows name _ hold
    have hput : (Roster.put { r with queue := r.queue ++ [name] } name .dispatched).Faithful w known :=
      h.advance rfl rfl rfl hold nofun hnone
    exact hput.note (fun _ => rfl) nofun
  | skip _ _ => exact h.of_same rfl rfl rfl
  | @begin name _ hold => exact h.begin rfl rfl rfl hold nofun (h.follows name _ hold)
  | @take name _ _ hold _ _ => exact h.begin rfl rfl rfl hold nofun (h.follows name _ hold)
  | @takeUp name hold _ => exact h.begin rfl rfl rfl hold nofun (h.follows name _ hold)
  | @lineUp name _ _ _ _ hold _ _ =>
    have hnone : notesOf name r.history = [] := h.follows name _ hold
    exact h.advance rfl rfl rfl hold nofun hnone
  | turnAway _ hold _ _ => exact h.turnAway rfl rfl rfl hold nofun
  | leaveLine _ hold _ => exact h.turnAway rfl rfl rfl hold nofun
  | @decline name others _ hold _ =>
    have hgone : Faithful w known { r with queue := others } := h.of_same rfl rfl rfl
    have hkept : (Roster.pass { r with queue := others }).stage name = some .granted := stage_pass hold (by simp)
    exact hgone.pass.turnAway rfl rfl rfl hkept nofun
  | @goOn name action rest hold hsilent =>
    have hperformed : Performed (w.visitor name) (action :: rest) (notesOf name r.history) := h.follows name _ hold
    have hnotNoted : action.isNoted = false := by
      rcases hsilent with rfl | ⟨rfl, -⟩
      · rfl
      · rfl
    exact h.put hold nofun (hperformed.silent hnotNoted)
  | note hold he => exact h.act hold he
  | @write name other status rest hold _ =>
    have hperformed : Performed (w.visitor name) (.setStatus other status :: rest) (notesOf name r.history) :=
      h.follows name _ hold
    exact h.advance (Table.keys_modify _ _ _) rfl rfl hold nofun (hperformed.silent rfl)
  | @use name rest hold _ =>
    have hperformed : Performed (w.visitor name) (.wait :: rest) (notesOf name r.history) := h.follows name _ hold
    exact h.advance rfl rfl rfl hold nofun (hperformed.silent rfl)
  | @awaitRelease name others rest _ hold _ =>
    have hperformed : Performed (w.visitor name) (.wait :: rest) (notesOf name r.history) := h.follows name _ hold
    exact h.advance rfl rfl rfl hold nofun hperformed
  | @awaitCancel name others rest _ hold _ =>
    have hperformed : Performed (w.visitor name) (.waitCancel :: rest) (notesOf name r.history) :=
      h.follows name _ hold
    exact h.advance rfl rfl rfl hold nofun hperformed
  | @close name others rest error _ hold hends =>
    have hgone : Faithful w known { r with queue := others } := h.of_same rfl rfl rfl
    exact hgone.close hold hends
  | cancel =>
    have hnoted : (r.note .cancelled).Faithful w known := h.note (fun _ => rfl) nofun
    exact hnoted.cancel
  | trip => exact h.cancel

theorem Faithful.play (h : r.Faithful w known) {act : Outside} (hplay : r.Play act r') : r'.Faithful w known := by
  cases hplay with
  | @release name rest hold =>
    have hperformed : Performed (w.visitor name) (.wait :: rest) (notesOf name r.history) := h.follows name _ hold
    have hput : (r.put name (.running rest)).Faithful w known := h.put hold nofun (hperformed.silent rfl)
    exact hput.of_same rfl rfl rfl
  | keep _ => exact h.of_same rfl rfl rfl
  | cancel =>
    have hnoted : (r.note .cancelled).Faithful w known := h.note (fun _ => rfl) nofun
    exact hnoted.cancel
  | again => exact h
  | write => exact h.of_same (Table.keys_modify _ _ _) rfl rfl

end Roster

theorem State.faithful_initial {w : Walk} (statuses : Table Status) (callerCancelled : Bool) :
    (State.initial w statuses callerCancelled).roster.Faithful w statuses.keys := by
  have hhistory : (State.initial w statuses callerCancelled).roster.history = [] ∨
      (State.initial w statuses callerCancelled).roster.history = [.cancelled] := by
    cases callerCancelled with
    | false => exact Or.inl rfl
    | true => exact Or.inr rfl
  have hnotes : ∀ n, notesOf n (State.initial w statuses callerCancelled).roster.history = [] := by
    intro n
    rcases hhistory with h | h
    · rw [h]
      rfl
    · rw [h]
      rfl
  refine ⟨rfl, fun n stage hn => ?_, fun n error hmem => ?_⟩
  · rw [(State.stage_initial hn).2]
    exact hnotes n
  · rcases hhistory with h | h
    · rw [h] at hmem
      cases hmem
    · rw [h] at hmem
      cases List.mem_singleton.1 hmem

/-- **In every state of a walk visits have done what the history notes of them**, and no visitor that began has come to
an end that is not its own. -/
theorem State.Reached.faithful {w : Walk} {statuses : Table Status} {callerCancelled : Bool} {acts : List Outside}
    {s : State} (hw : w.Sound) (hst : ∀ n ∈ w.scope, n ∈ statuses.keys)
    (h : State.Reached w statuses callerCancelled acts s) : s.roster.Faithful w statuses.keys := by
  refine State.Reached.roster_induction (P := fun _ r => r.Faithful w statuses.keys) hw hst
    (State.faithful_initial statuses callerCancelled) ?_ ?_ h
  · exact fun _ _ _ hfaithful hmove => hfaithful.move hmove
  · exact fun _ _ _ _ hfaithful hplay => hfaithful.play hplay

end Rollout
