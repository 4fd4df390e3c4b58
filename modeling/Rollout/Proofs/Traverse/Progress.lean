import Rollout.Proofs.Traverse.Outcome
import Rollout.Proofs.Walk.Held
/-!
Why a traversal is left pending.  At a rest each visit in flight is held up for a reason that holds, and one of them by
an action of its own (`traverse_held_up`).  So a traversal whose visitors never wait comes to its end, whatever the
limit is: nobody sleeps on when what it waits for is there, and those in line for a slot do not hold up each other.

The reasons are two.  A visit may be inside an action that waits, for a release that nobody has given or for a
cancellation that has not come.  Or it may stand in line for a slot while others have them all, and each of these is
inside an action that waits.  The visits that are dropped with a pending traversal are those under way at its last rest
(`exists_dropped`).
-/
namespace Rollout

open State (AtRest HeldInside HeldInLine)

namespace Deployment

variable {d : Deployment} {t : Traversal} {limit : Option Limit} {visitor : Visitor}

theorem exists_dropped (hd : d.Sound) {callerCancelled : Bool} {script : Script}
    (hpending : (d.traverse t limit visitor callerCancelled script).1.result = .pending) :
    ∃ w s, t.walk d.graph limit visitor = .ok w ∧ AtRest w d.statuses callerCancelled s ∧
      (d.traverse t limit visitor callerCancelled script).1.events = s.history.reverse ∧
      ∃ name ∈ (d.traverse t limit visitor callerCancelled script).1.dropped, HeldInside w s name := by
  cases hwalk : t.walk d.graph limit visitor with
  | error failure =>
    unfold Deployment.traverse at hpending
    rw [hwalk] at hpending
    cases hpending
  | ok w =>
    obtain ⟨hw, -, hst⟩ := hd.of_walk hwalk
    obtain ⟨s, h, -, hevents, hresult, hdropped, -, hqueue⟩ := traverse_reached hwalk hw hst callerCancelled script
    have hdone : s.done = false := by
      rw [hresult, State.result_eq_pending_iff (h.tidy hw hst).aborted] at hpending
      exact hpending
    refine ⟨w, s, rfl, ⟨hqueue, _, h⟩, hevents, ?_⟩
    rw [hdropped, hdone, if_neg Bool.false_ne_true]
    exact h.exists_underWay hw hst hqueue hdone

/-- **A traversal at rest with visits in flight is held up by its visitors alone.**  Each visit in flight waits inside
an action of its own, or in line for a slot while others have them all; one waits inside an action.  If no visitor has
an action that waits, the traversal is not left pending. -/
theorem traverse_held_up (hd : d.Sound) (t : Traversal) (limit : Option Limit) (visitor : Visitor)
    (callerCancelled : Bool) :
    (t.Known d.graph → ∃ w, t.walk d.graph limit visitor = .ok w) ∧
      (∀ w, t.walk d.graph limit visitor = .ok w →
        (∀ script, ∀ s ∈ (State.start w d.statuses callerCancelled).rests w script,
          AtRest w d.statuses callerCancelled s) ∧
        ∀ s, AtRest w d.statuses callerCancelled s → s.done = false →
          (∀ name ∈ s.inFlight, HeldInside w s name ∨
            HeldInLine w s name ∧ ∀ n, limit = Limit.ofNat? n → s.underWay.length = max 1 n) ∧
          ∃ name ∈ s.inFlight, HeldInside w s name) ∧
      (∀ script, (d.traverse t limit visitor callerCancelled script).1.result = .pending →
        ∃ w s, t.walk d.graph limit visitor = .ok w ∧ AtRest w d.statuses callerCancelled s ∧
          (d.traverse t limit visitor callerCancelled script).1.events = s.history.reverse ∧
          ∃ name ∈ (d.traverse t limit visitor callerCancelled script).1.dropped, HeldInside w s name) ∧
      ((∀ name ∈ d.graph.services, .wait ∉ visitor name ∧ .waitCancel ∉ visitor name) →
        ∀ script, (d.traverse t limit visitor callerCancelled script).1.result ≠ .pending) := by
  refine ⟨fun ht => ?_, fun w hwalk => ⟨fun _ _ hs => State.atRest_of_mem_rests hs, ?_⟩, fun _ => exists_dropped hd,
    fun hfree script hpending => ?_⟩
  · obtain ⟨w, hwalk, -⟩ := hd.exists_walk ht limit visitor
    exact ⟨w, hwalk⟩
  · rintro s ⟨hqueue, acts, h⟩ hdone
    obtain ⟨hw, -, hst⟩ := hd.of_walk hwalk
    obtain ⟨scope, -, rfl⟩ := walk_eq hwalk
    refine ⟨fun name hname => ?_, ?_⟩
    · refine (h.held_up hw hst hqueue hname).imp_right fun hline => ⟨hline, fun n hn => ?_⟩
      obtain ⟨l, hl, hfull⟩ := hline.slots
      rw [hfull, Limit.slots_of_ofNat? (hn.symm.trans hl)]
    · obtain ⟨name, hname, hinside⟩ := h.exists_underWay hw hst hqueue hdone
      exact ⟨name, State.mem_inFlight_of_mem_underWay hname, hinside⟩
  · obtain ⟨w, s, hwalk, ⟨-, acts, h⟩, -, name, -, hinside⟩ := exists_dropped hd hpending
    obtain ⟨hw, -, hst⟩ := hd.of_walk hwalk
    obtain ⟨scope, -, rfl⟩ := walk_eq hwalk
    have hcovered : name ∈ scope := by
      obtain ⟨stage, hstage, -⟩ := State.mem_underWay_iff.1 hinside.mem_underWay
      exact (h.placed hw hst).covered name stage hstage
    have hservice : name ∈ d.graph.services := hw.services name hcovered
    rcases hinside.mem_visitor with hwait | hwait
    · exact (hfree name hservice).1 hwait
    · exact (hfree name hservice).2 hwait

theorem traverse_held_up_apart :
    let d := uniform ⟨Table.ofList [("api", []), ("db", [])]⟩ .stopped
    (∃ w s, Traversal.forward.walk d.graph (Limit.ofNat? 0) (fun _ => [.wait]) = .ok w ∧
      AtRest w d.statuses false s ∧ HeldInside w s "api" ∧ HeldInLine w s "db" ∧ s.underWay.length = 1) ∧
    (d.traverse .forward (Limit.ofNat? 0) (fun _ => [.log "up"]) false []).1.result ≠ .pending := by
  intro d
  have hbuild : Graph.build [("api", []), ("db", [])] = .ok d.graph := by decide +kernel
  have hd : d.Sound := sound_uniform hbuild .stopped
  constructor
  · obtain ⟨hwalks, hrest, -, -⟩ := traverse_held_up hd .forward (Limit.ofNat? 0) (fun _ => [.wait]) false
    obtain ⟨w, hwalk⟩ := hwalks nofun
    obtain rfl : w = ⟨d.graph, .forward, ["api", "db"], some .started, Limit.ofNat? 0, fun _ => [.wait]⟩ :=
      Except.ok.inj (hwalk.symm.trans rfl)
    obtain ⟨hrests, hheld⟩ := hrest _ hwalk
    have hs := hrests [] _ List.mem_cons_self
    obtain ⟨hall, name, -, hinside⟩ := hheld _ hs (by decide +kernel)
    have hunder : (State.start ⟨d.graph, .forward, ["api", "db"], some .started, Limit.ofNat? 0, fun _ => [.wait]⟩
        d.statuses false).underWay = ["api"] := by decide +kernel
    refine ⟨_, _, hwalk, hs, ?_, ?_⟩
    · have hname := hinside.mem_underWay
      rw [hunder, List.mem_singleton] at hname
      rwa [hname] at hinside
    · rcases hall "db" (by decide +kernel) with hdb | ⟨hdb, hslots⟩
      · have hmem := hdb.mem_underWay
        rw [hunder] at hmem
        simp at hmem
      · exact ⟨hdb, hslots 0 rfl⟩
  · exact (traverse_held_up hd .forward (Limit.ofNat? 0) (fun _ => [.log "up"]) false).2.2.2 (fun _ _ => by simp) []

end Deployment

end Rollout
