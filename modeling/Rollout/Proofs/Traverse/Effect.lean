import Rollout.Proofs.Deployment
import Rollout.Proofs.Walk.Marks
import Rollout.Proofs.Walk.Order
import Rollout.Proofs.Walk.Rests
/-!
What a traversal does to the statuses, when neither its visitors nor its script set any.  In every state that it goes
through, a service whose visit has ended well has the target and every other service keeps its status (`Leaves`).  It is
the same at each rest and in what the traversal leaves behind, however it ends (`traverse_statuses`).

A status is new only where the target was recorded, and the target is recorded in the turn in which a visit ends well,
whatever has happened before.  So a visit that ends well after a failure or a cancellation counts like any other, and
services that are not covered, not visited or visited in vain keep what they had.
-/
namespace Rollout

open State (Reached)

/-- What a traversal leaves of the statuses before, when these events have happened in it: the target, if there is one,
for a service whose visit has ended well, and the old status for any other service. -/
structure Leaves (target : Option Status) (before : Table Status) (events : List Event) (after : Table Status) :
    Prop where
  services : after.keys = before.keys
  statuses : ∀ name old, before.get? name = some old →
    after.get? name = some (if .ended name none ∈ events then target.getD old else old)

namespace Leaves

variable {target : Option Status} {before after : Table Status} {events : List Event} {name : String}

theorem of_reverse (h : Leaves target before events.reverse after) : Leaves target before events after := by
  refine ⟨h.services, fun name old hold => ?_⟩
  rw [h.statuses name old hold]
  simp only [List.mem_reverse]

theorem kept (h : Leaves target before events after) (hname : target = none ∨ .ended name none ∉ events) :
    after.get? name = before.get? name := by
  cases hold : before.get? name with
  | none => rwa [Table.get?_eq_none_iff, h.services, ← Table.get?_eq_none_iff]
  | some old =>
    rw [h.statuses name old hold]
    rcases hname with rfl | hnot
    · rw [Option.getD_none, ite_self]
    · rw [if_neg hnot]

end Leaves

namespace State

variable {w : Walk} {statuses : Table Status} {callerCancelled : Bool} {acts : List Outside} {s : State}

/-- **In every state of a passive walk the statuses are those that the traversal leaves.** -/
theorem Reached.leaves (hw : w.Sound) (hst : ∀ n ∈ w.scope, n ∈ statuses.keys) (hpassive : w.visitor.Passive)
    (h : Reached w statuses callerCancelled acts s) (hacts : PassiveActs acts) :
    Leaves w.target statuses s.history s.statuses := by
  refine ⟨(h.faithful hw hst).keys, fun name old hold => ?_⟩
  have hended : .ended name none ∈ s.history ↔ s.outline.progress name = some (.ended none) :=
    (h.traced hw hst).ended_iff nofun
  rw [h.get?_statuses hw hst hpassive hacts name, hold]
  by_cases hmem : .ended name none ∈ s.history
  · rw [if_pos hmem, if_pos (hended.1 hmem)]
    rfl
  · rw [if_neg hmem, if_neg fun hp => hmem (hended.2 hp)]

theorem Reached.not_ended_well (hw : w.Sound) (hst : ∀ n ∈ w.scope, n ∈ statuses.keys)
    (h : Reached w statuses callerCancelled acts s) {name : String}
    (hname : name ∉ w.scope ∨ .began name ∉ s.history ∨ ∃ cause, .ended name (some cause) ∈ s.history) :
    .ended name none ∉ s.history := by
  intro hended
  have hbegan : .began name ∈ s.history := ((h.traced hw hst).began_precedes_ended name none).mem hended
  rcases hname with hout | hnot | ⟨cause, hfailed⟩
  · exact hout (h.mem_scope_of_began hw hst hbegan)
  · exact hnot hbegan
  · exact ((h.traced hw hst).ended_unique hended).1 cause hfailed

end State

namespace Deployment

variable {d : Deployment} {t : Traversal}

/-- **A traversal records its target for each visit that ends well, and touches no other status**: at any time, at each
rest, and in what it leaves behind, whether it succeeds, fails, is cancelled or is dropped.  A visit that ends well
after a failure or a cancellation counts like any other. -/
theorem traverse_statuses (hd : d.Sound) (ht : t.Known d.graph) (limit : Option Limit) {visitor : Visitor}
    (hvisitor : visitor.Passive) (callerCancelled : Bool) :
    ∃ w, t.walk d.graph limit visitor = .ok w ∧
      (∀ acts s, Reached w d.statuses callerCancelled acts s → PassiveActs acts →
        Leaves t.target d.statuses s.history s.statuses ∧
        (∀ name, ¬ t.Covers d.graph name ∨ .began name ∉ s.history ∨
            (∃ cause, .ended name (some cause) ∈ s.history) →
          s.statuses.get? name = d.statuses.get? name) ∧
        (t.target = none → s.statuses = d.statuses)) ∧
      ∀ script, (∀ acts ∈ script, PassiveActs acts) →
        let run := d.traverse t limit visitor callerCancelled script
        (∀ earlier phase later, run.1.phases = earlier ++ phase :: later →
          Leaves t.target d.statuses ((earlier ++ [phase]).flatMap Phase.events) phase.statuses) ∧
        Leaves t.target d.statuses run.1.events run.2.statuses := by
  obtain ⟨w, hwalk, -⟩ := hd.exists_walk ht limit visitor
  obtain ⟨hw, hmem, hst⟩ := hd.of_walk hwalk
  obtain ⟨scope, -, rfl⟩ := walk_eq hwalk
  have hleaves : ∀ acts s,
      Reached ⟨d.graph, t.direction, scope, t.target, limit, visitor⟩ d.statuses callerCancelled acts s →
      PassiveActs acts → Leaves t.target d.statuses s.history s.statuses :=
    fun acts s h hacts => h.leaves hw hst hvisitor hacts
  refine ⟨_, hwalk, fun acts s h hacts => ⟨hleaves acts s h hacts, fun name hname => ?_, fun htarget => ?_⟩,
    fun script hscript => ⟨fun earlier phase later hsplit => ?_, ?_⟩⟩
  · have hout : name ∉ scope ∨ .began name ∉ s.history ∨ ∃ cause, .ended name (some cause) ∈ s.history :=
      hname.imp_left fun hnot hin => hnot ((hmem name).1 hin)
    exact (hleaves acts s h hacts).kept (Or.inr (h.not_ended_well hw hst hout))
  · exact Table.ext_get? fun name => (hleaves acts s h hacts).kept (Or.inl htarget)
  · rw [traverse_eq hwalk] at hsplit
    have hfirst : ∀ w : Walk, Reached w d.statuses callerCancelled [] (State.start w d.statuses callerCancelled) :=
      fun w => State.runs_settle w _
    have hchain := State.isChain_rests hw hst script _ _ [] (hfirst _) List.nil_suffix
    obtain ⟨s, hs, hstatuses, hevents⟩ := State.exists_of_phases_split _ [] hchain earlier phase later hsplit
    obtain ⟨played, hplayed, h⟩ := State.reached_of_mem_rests hs
    rw [hstatuses]
    refine Leaves.of_reverse ?_
    rw [show (earlier ++ [phase]).flatMap Phase.events = s.history.reverse from hevents, List.reverse_reverse]
    exact hleaves _ s h (passive_flatten hscript hplayed)
  · obtain ⟨s, h, -, hevents, -, -, hleft, -⟩ := traverse_reached hwalk hw hst callerCancelled script
    refine Leaves.of_reverse ?_
    rw [hevents, hleft, List.reverse_reverse]
    exact hleaves _ s h (passive_flatten hscript (List.take_prefix _ _))

theorem traverse_statuses_apart :
    let visitor : Visitor := fun name => if name = "api" then [.fail (.plain "down")] else [.wait]
    let left := (apart.traverse .forward none visitor false [[.release "db"]]).2.statuses
    left.get? "api" = some .stopped ∧ left.get? "db" = some .started := by
  intro visitor left
  have hvisitor : visitor.Passive := by
    intro name other status
    by_cases hname : name = "api"
    · simp [visitor, hname]
    · simp [visitor, hname]
  have hscript : ∀ acts ∈ [[Outside.release "db"]], PassiveActs acts := by
    intro acts hacts other status
    rw [List.mem_singleton.1 hacts]
    simp
  obtain ⟨w, -, -, hruns⟩ := traverse_statuses (t := .forward) sound_apart nofun none hvisitor false
  have hleft := (hruns [[.release "db"]] hscript).2
  constructor
  · exact (hleft.statuses "api" .stopped (by decide +kernel)).trans (by decide +kernel)
  · exact (hleft.statuses "db" .stopped (by decide +kernel)).trans (by decide +kernel)

end Deployment

end Rollout
