import Rollout.Proofs.Traverse.Outcome
import Rollout.Proofs.Walk.Held
import Rollout.Proofs.Walk.Stops
/-!
What a traversal leaves alone.  After the first error and after the cancellation by the caller it visits nothing that
was not dispatched by then, and it lets the visits that have begun go on to their own end (`traverse_excludes`).

What is dispatched has all its prerequisites behind it, each with a good end, so whatever waits for a failed service is
never dispatched, directly or through others.  If the caller has cancelled beforehand, nothing is.  A visit that has
begun and has not ended is inside an action that waits, at a rest; so a traversal that is done has let all of them come
to their own end.
-/
namespace Rollout

open Relation (TransGen)
open State (Reached AtRest HeldInside)

theorem State.Reached.ended_or_heldInside {w : Walk} {statuses : Table Status} {callerCancelled : Bool}
    {acts : List Outside} {s : State} (hw : w.Sound) (hst : ∀ n ∈ w.scope, n ∈ statuses.keys)
    (h : Reached w statuses callerCancelled acts s) (hqueue : s.queue = []) {name : String}
    (hbegan : .began name ∈ s.history) : (∃ error, .ended name error ∈ s.history) ∨ HeldInside w s name := by
  rcases (h.traced hw hst).progress_of_began hbegan with hp | ⟨error, -, hended⟩
  · exact Or.inr (h.heldInside_of_underWay hw hst hqueue (State.mem_underWay_iff_progress.2 hp))
  · exact Or.inl ⟨error, hended⟩

namespace Deployment

variable {d : Deployment} {t : Traversal}

/-- **Whatever is visited was dispatched before any stop, after its prerequisites had ended well.**  So nothing is
visited if the caller has cancelled beforehand, nor what waits for a failed service, directly or through others.  A
visit that has begun does its actions to the last or to the first that fails; at a rest only a wait can keep it from
that, and none does once the traversal is done. -/
theorem traverse_excludes (hd : d.Sound) (ht : t.Known d.graph) (limit : Option Limit) (visitor : Visitor)
    (callerCancelled : Bool) :
    ∃ w, t.walk d.graph limit visitor = .ok w ∧
      (∀ script, ∃ s, AtRest w d.statuses callerCancelled s ∧
        (d.traverse t limit visitor callerCancelled script).1.events = s.history.reverse) ∧
      ∀ acts s, Reached w d.statuses callerCancelled acts s →
        (∀ a, .began a ∈ s.history → ∀ e : Event, e.Stops → Precedes (.dispatched a) e s.history ∧
          ∀ b, t.Covers d.graph b → t.direction.Requires d.graph a b →
            .ended b none ∈ s.history ∧ Precedes (.ended b none) e s.history) ∧
        (callerCancelled = true → ∀ a, .began a ∉ s.history) ∧
        (∀ f, (∃ cause, .ended f (some cause) ∈ s.history) ∨ .turnedAway f ∈ s.history →
          ∀ a, TransGen (t.direction.Requires d.graph) a f → .began a ∉ s.history) ∧
        (∀ a error, .ended a error ∈ s.history →
          OwnEnd d.statuses.keys (visitor a) (notesOf a s.history) error) ∧
        ∀ a, .began a ∈ s.history →
          (s.queue = [] → (∃ error, .ended a error ∈ s.history) ∨ HeldInside w s a) ∧
          (s.done = true → ∃ error, .ended a error ∈ s.history) := by
  obtain ⟨w, hwalk, -⟩ := hd.exists_walk ht limit visitor
  obtain ⟨hw, hmem, hst⟩ := hd.of_walk hwalk
  obtain ⟨scope, -, rfl⟩ := walk_eq hwalk
  refine ⟨_, hwalk, fun script => ?_, fun acts s h => ⟨fun a hbegan e he => ⟨?_, fun b hb hab => ?_⟩, ?_,
    fun f hf a haf hbegan => ?_, fun a error hended => ?_, fun a hbegan => ⟨fun hqueue => ?_, fun hdone => ?_⟩⟩⟩
  · obtain ⟨s, h, -, hevents, -, -, -, hqueue⟩ := traverse_reached hwalk hw hst callerCancelled script
    exact ⟨s, ⟨hqueue, _, h⟩, hevents⟩
  · have hdispatched : .dispatched a ∈ s.history := ((h.traced hw hst).dispatched_precedes_began a).mem hbegan
    exact (h.prompt hw hst).dispatched a hdispatched e he
  · exact h.precedes_stop hw hst (Walk.awaits_iff.2 ⟨hab, (hmem b).2 hb⟩) hbegan he
  · rintro rfl a
    exact h.not_began_of_cancelled hw hst a
  · have ha : a ∈ scope := h.mem_scope_of_began hw hst hbegan
    have hfailed : f ∈ scope := by
      -- a visit that has ended is one of a covered service
      rcases hf with ⟨cause, hended⟩ | haway
      · exact h.mem_scope_of_began hw hst (((h.traced hw hst).began_precedes_ended f _).mem hended)
      · exact h.mem_scope_of_turnedAway hw hst haway
    exact h.not_began_of_failed hw hst (hw.transGen_awaits ha hfailed haf) hf hbegan
  · exact ((h.faithful hw hst).ended a error hended).2
  · exact h.ended_or_heldInside hw hst hqueue hbegan
  · exact ((h.done_iff_drained hw hst).1 hdone).began a hbegan

theorem traverse_excludes_pair : ∃ w s,
    Traversal.forward.walk pair.graph none (fun _ => [.fail (.plain "down")]) = .ok w ∧
      AtRest w pair.statuses false s ∧ .ended "db" (some (.plain "down")) ∈ s.history ∧ .began "api" ∉ s.history := by
  obtain ⟨w, hwalk, hreport, hrun⟩ :=
    traverse_excludes (t := .forward) sound_pair nofun none (fun _ => [.fail (.plain "down")]) false
  obtain ⟨s, hrest, hevents⟩ := hreport []
  have hfailed : .ended "db" (some (.plain "down")) ∈ s.history := by
    rw [← List.mem_reverse, ← hevents]
    decide +kernel
  have hrequires : Traversal.forward.direction.Requires pair.graph "api" "db" :=
    show "db" ∈ pair.graph.dependencies "api" by decide +kernel
  obtain ⟨acts, h⟩ := hrest.2
  obtain ⟨-, -, hafter, -⟩ := hrun acts s h
  exact ⟨w, s, hwalk, hrest, hfailed, hafter "db" (Or.inl ⟨_, hfailed⟩) "api" (TransGen.single hrequires)⟩

end Deployment

end Rollout
