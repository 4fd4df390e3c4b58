import Rollout.Proofs.Deployment
import Rollout.Proofs.Walk.Rests
import Rollout.Proofs.Walk.Rounds
/-!
Where a traversal begins.  Its seeds are the covered services that wait for nothing, and each covered service has a
chain of prerequisites back to one (`Walk.Sound.exists_seed`), although the scope may cut off others.  So a traversal
that covers anything at all has a seed, and unless it is cancelled beforehand the first one is visited
(`Deployment.leaves_generate`).

The first turn of a walk begins the visit of its first seed, whether there is a limit or not: a limit has at least one
slot, and at the first turn nobody else has it (`began_mem_step_initial`).  What has happened by the first rest is shown
in the first phase of the report, so the visit is seen by whoever looks at the report, whatever comes of the traversal
later.
-/
namespace Rollout

open Relation (TransGen ReflTransGen)
open State (Reached)

namespace Walk

variable {w : Walk} {name : String}

theorem mem_seeds_iff : name ∈ w.seeds ↔ name ∈ w.scope ∧ ∀ b, ¬ w.Awaits name b := by
  unfold seeds
  rw [List.mem_filter, List.isEmpty_iff, List.eq_nil_iff_forall_not_mem]
  exact Iff.rfl

/-- **Every covered service has a chain of prerequisites back to a seed**, inside the scope. -/
theorem Sound.exists_seed (hw : w.Sound) (h : name ∈ w.scope) : ∃ seed ∈ w.seeds, ReflTransGen w.Awaits name seed := by
  have hinside : ∀ a ∈ w.scope, ∀ b, w.Awaits a b → b ∈ w.scope := fun _ _ b hb => (mem_prerequisites_iff.1 hb).2
  obtain ⟨seed, hseed, hchain, hend⟩ := exists_end hw.not_awaits_self hinside h
  exact ⟨seed, mem_seeds_iff.2 ⟨hseed, hend⟩, hchain⟩

theorem Sound.seeds_ne_nil (hw : w.Sound) (h : w.scope ≠ []) : w.seeds ≠ [] := by
  obtain ⟨name, hname⟩ := List.exists_mem_of_ne_nil w.scope h
  obtain ⟨seed, hseed, -⟩ := hw.exists_seed hname
  exact List.ne_nil_of_mem hseed

end Walk

namespace State

variable {w : Walk} {statuses : Table Status} {callerCancelled : Bool}

/-- **The first turn of a walk begins the visit of its first seed**, if the caller has not cancelled. -/
theorem began_mem_step_initial (hw : w.Sound) {seed : String} {others : List String} (h : w.seeds = seed :: others) :
    .began seed ∈ ((initial w statuses false).openRound.step w).history := by
  have hfirst := roster_openRound_initial hw statuses
  have hqueue : (initial w statuses false).openRound.queue = seed :: others :=
    (congrArg Roster.queue hfirst).trans h
  have hstage : (initial w statuses false).openRound.stages.get? seed = some .dispatched := by
    refine (congrFun (congrArg Roster.stage hfirst) seed).trans (if_pos ?_)
    rw [h]
    exact List.mem_cons_self
  have hlive : (initial w statuses false).openRound.tokenCancelled = false := congrArg Roster.cancelled hfirst
  have hfree : w.limit.isSome → 0 < (initial w statuses false).openRound.free := by
    intro hlimit
    obtain ⟨limit, hlimit⟩ := Option.isSome_iff_exists.1 hlimit
    have hslots : (initial w statuses false).openRound.free = limit.slots := by
      refine (congrArg Roster.free hfirst).trans ?_
      show (w.limit.map Limit.slots).getD 0 = limit.slots
      rw [hlimit]
      rfl
    rw [hslots]
    exact limit.pos
  have hturn := roster_step_dispatched hqueue hstage hlive hfree
  show _ ∈ ((initial w statuses false).openRound.step w).roster.history
  rw [hturn]
  exact List.mem_cons_self

theorem settle_of_queue {s : State} (h : s.queue ≠ []) : s.settle w = (s.step w).settle w := by
  conv_lhs => unfold settle
  exact if_neg h

theorem began_mem_start (hw : w.Sound) (hst : ∀ n ∈ w.scope, n ∈ statuses.keys) {seed : String} {others : List String}
    (h : w.seeds = seed :: others) : .began seed ∈ (start w statuses false).history := by
  have hqueue : (initial w statuses false).openRound.queue ≠ [] := by
    rw [show (initial w statuses false).openRound.queue = w.seeds from
      congrArg Roster.queue (roster_openRound_initial hw statuses), h]
    exact List.cons_ne_nil seed others
  have hreached : Reached w statuses false [] ((initial w statuses false).openRound.step w) := Runs.refl.turn
  unfold start
  rw [settle_of_queue hqueue]
  exact (hreached.grows hw hst (runs_settle w _)).subset (began_mem_step_initial hw h)

end State

namespace Deployment

variable {d : Deployment} {t : Traversal} {limit : Option Limit} {visitor : Visitor} {w : Walk}

theorem mem_events_of_mem_start (hwalk : t.walk d.graph limit visitor = .ok w) (hw : w.Sound)
    (hst : ∀ n ∈ w.scope, n ∈ d.statuses.keys) {callerCancelled : Bool} {e : Event}
    (h : e ∈ (State.start w d.statuses callerCancelled).history) (script : Script) :
    e ∈ (d.traverse t limit visitor callerCancelled script).1.events := by
  have hfirst : Reached w d.statuses callerCancelled [] (State.start w d.statuses callerCancelled) :=
    State.runs_settle w _
  have hevents := State.events_phases hw hst script _ [] [] hfirst List.nil_suffix
  rw [traverse_eq hwalk]
  refine (congrArg (e ∈ ·) hevents).mpr ?_
  exact List.mem_reverse.2 ((hfirst.grows hw hst (State.runs_last script _)).subset h)

/-- **The leaves of a graph generate it, and a traversal that covers anything has somewhere to begin.**  Every service
has a chain of dependencies down to a leaf and one of dependents up to a root.  Inside a scope, where some prerequisites
are cut off, every service has a chain of prerequisites back to a seed; and if the caller has not cancelled beforehand,
a seed is visited, whatever the limit and the visitors are. -/
theorem leaves_generate (hd : d.Sound) :
    d.graph.closure d.graph.leaves = .ok d.graph.services ∧
    (∀ name ∈ d.graph.services, (∃ leaf ∈ d.graph.leaves, ReflTransGen d.graph.Depends name leaf) ∧
      ∃ root ∈ d.graph.roots, ReflTransGen d.graph.Depends root name) ∧
    (d.graph.services ≠ [] → d.graph.roots ≠ [] ∧ d.graph.leaves ≠ []) ∧
    ∀ (t : Traversal) (limit : Option Limit) (visitor : Visitor), t.Known d.graph →
      ∃ w, t.walk d.graph limit visitor = .ok w ∧ (∀ name, name ∈ w.scope ↔ t.Covers d.graph name) ∧
        (∀ callerCancelled, (State.initial w d.statuses callerCancelled).ready = w.seeds) ∧
        (∀ name ∈ w.scope, ∃ seed ∈ w.seeds, ReflTransGen w.Awaits name seed) ∧
        (∀ roots, t.roots = some roots → roots ≠ [] → w.seeds ≠ []) ∧
        (w.scope ≠ [] → ∀ script, ∃ seed ∈ w.seeds,
          .began seed ∈ (d.traverse t limit visitor false script).1.events) := by
  refine ⟨hd.accepted.closure_leaves, fun name h => ⟨hd.accepted.exists_leaf h, hd.accepted.exists_root h⟩,
    fun hne => ?_, fun t limit visitor ht => ?_⟩
  · obtain ⟨name, hname⟩ := List.exists_mem_of_ne_nil _ hne
    obtain ⟨leaf, hleaf, -⟩ := hd.accepted.exists_leaf hname
    obtain ⟨root, hroot, -⟩ := hd.accepted.exists_root hname
    exact ⟨List.ne_nil_of_mem hroot, List.ne_nil_of_mem hleaf⟩
  · obtain ⟨w, hwalk, hw, -, -, -, hmem, hst⟩ := hd.exists_walk ht limit visitor
    refine ⟨w, hwalk, hmem, fun _ => rfl, fun name h => hw.exists_seed h, fun roots hroots hne => ?_, fun hne script => ?_⟩
    · obtain ⟨root, hroot⟩ := List.exists_mem_of_ne_nil roots hne
      have hcovers : t.Covers d.graph root := by
        unfold Traversal.Covers
        rw [hroots]
        exact ⟨root, hroot, Or.inl rfl⟩
      exact hw.seeds_ne_nil (List.ne_nil_of_mem ((hmem root).2 hcovers))
    · obtain ⟨seed, others, hseeds⟩ := List.exists_cons_of_ne_nil (hw.seeds_ne_nil hne)
      refine ⟨seed, ?_, mem_events_of_mem_start hwalk hw hst (State.began_mem_start hw hst hseeds) script⟩
      rw [hseeds]
      exact List.mem_cons_self

theorem leaves_generate_pair : pair.graph.closure pair.graph.leaves = .ok pair.graph.services ∧
    .began "api" ∈ (pair.traverse (.downstreamOf ["db"]) none (fun _ => [.cancel]) false []).1.events := by
  obtain ⟨hclosure, -, -, hwalks⟩ := leaves_generate sound_pair
  have hknown : (Traversal.downstreamOf ["db"]).Known pair.graph := by
    rintro roots hroots root hroot
    obtain rfl : ["db"] = roots := Option.some.inj hroots
    rw [List.mem_singleton.1 hroot]
    decide +kernel
  obtain ⟨w, hwalk, -, -, -, -, hbegan⟩ := hwalks (.downstreamOf ["db"]) none (fun _ => [.cancel]) hknown
  obtain rfl := Except.ok.inj (hwalk.symm.trans rfl)
  obtain ⟨seed, hseed, hevent⟩ := hbegan (by decide +kernel) []
  refine ⟨hclosure, ?_⟩
  have honly : ∀ name ∈ Walk.seeds ⟨pair.graph, .reverse, pair.graph.downstream ["db"], some .stopped, none,
      fun _ => [.cancel]⟩, name = "api" := by decide +kernel
  rwa [honly seed hseed] at hevent

end Deployment

end Rollout
