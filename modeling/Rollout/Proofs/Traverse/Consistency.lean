import Rollout.Plan
import Rollout.Proofs.Traverse.Requests
import Rollout.Proofs.Walk.Marks
/-!
Statuses through any sequence of operations.  Whether an operation succeeds, fails, is cancelled or is dropped, it
leaves consistent statuses behind, and so the next one starts from such, on whatever mixture it finds
(`statuses_consistent`).

An operation is one run of one of the three entry points, with its limit, its visitor, its token and its script
(`Undertaking`).  It is passive if neither its visitor nor its script sets a status; one that does may write whatever it
likes, and nothing can be said of the statuses then.  Consistency is shown for every state that an operation goes
through (`consistent_of_reached`), and from there for what it shows at its rests and for what it leaves behind
(`run_consistent`).  A sequence of operations is then an induction on the list.
-/
namespace Rollout

open State (Reached)

/-- One run of an operation on a deployment. -/
structure Undertaking where
  operation : Plan.Operation
  limit : Option Limit
  visitor : Visitor
  callerCancelled : Bool
  script : Script

namespace Undertaking

/-- Neither its visitors nor its script set a status. -/
structure Passive (u : Undertaking) : Prop where
  visitor : u.visitor.Passive
  script : ∀ acts ∈ u.script, PassiveActs acts

def run (u : Undertaking) (d : Deployment) : Report × Deployment :=
  d.traverse u.operation.traversal u.limit u.visitor u.callerCancelled u.script

end Undertaking

namespace Deployment

variable {d : Deployment} {g : Graph} {u : Undertaking}

def after (d : Deployment) (us : List Undertaking) : Deployment := us.foldl (fun d u => (u.run d).2) d

theorem after_cons (d : Deployment) (u : Undertaking) (us : List Undertaking) :
    d.after (u :: us) = (u.run d).2.after us := rfl

theorem consistent_uniform (hg : g.Accepted) (status : Status) : Consistent g (uniform g status).statuses := by
  refine consistent_of_depends fun a b hab ha => ?_
  have hstatus : ∀ n, (uniform g status).statuses.get? n = (g.declared.get? n).map fun _ => status :=
    fun n => Table.get?_map _ _ _
  obtain ⟨names, hb⟩ := Option.isSome_iff_exists.1 ((g.declared.get?_isSome_iff b).2 (hg.declared a b hab))
  rw [hstatus] at ha ⊢
  obtain ⟨-, -, hstarted⟩ := Option.map_eq_some_iff.1 ha
  rw [hb, Option.map_some, hstarted]

/-! ## One operation -/

/-- **Statuses are consistent at any time while an operation runs**, if they were before. -/
theorem consistent_of_reached (hd : d.Sound) (hpassive : u.visitor.Passive) (hbefore : Consistent d.graph d.statuses)
    {w : Walk} (hwalk : u.operation.traversal.walk d.graph u.limit u.visitor = .ok w) {acts : List Outside} {s : State}
    (h : Reached w d.statuses u.callerCancelled acts s) (hacts : PassiveActs acts) :
    Consistent d.graph s.statuses := by
  obtain ⟨hw, -, hst⟩ := hd.of_walk hwalk
  obtain ⟨scope, hscope, rfl⟩ := walk_eq hwalk
  cases hoperation : u.operation with
  | up =>
    rw [hoperation] at hscope
    obtain rfl : d.graph.services = scope := Except.ok.inj hscope
    exact h.consistent_up hw hst hpassive hacts (by rw [hoperation]; rfl) (by rw [hoperation]; rfl) (fun _ hn => hn)
      hbefore
  | down =>
    exact h.consistent_down hw hst hpassive hacts (by rw [hoperation]; rfl) (by rw [hoperation]; rfl) hbefore
  | restart services =>
    exact h.consistent_down hw hst hpassive hacts (by rw [hoperation]; rfl) (by rw [hoperation]; rfl) hbefore

/-- **An operation shows and leaves behind consistent statuses**, if it found such. -/
theorem run_consistent (hd : d.Sound) (hu : u.Passive) (hbefore : Consistent d.graph d.statuses) :
    (∀ phase ∈ (u.run d).1.phases, Consistent d.graph phase.statuses) ∧
      Consistent d.graph (u.run d).2.statuses := by
  unfold Undertaking.run
  cases hwalk : u.operation.traversal.walk d.graph u.limit u.visitor with
  | error failure =>
    unfold Deployment.traverse
    rw [hwalk]
    refine ⟨fun phase hphase => ?_, hbefore⟩
    rw [List.mem_singleton.1 hphase]
    exact hbefore
  | ok w =>
    have hrests : ∀ t ∈ (State.start w d.statuses u.callerCancelled).rests w u.script,
        Consistent d.graph t.statuses := by
      intro t ht
      obtain ⟨played, hplayed, h⟩ := State.reached_of_mem_rests ht
      exact consistent_of_reached hd hu.visitor hbefore hwalk h (passive_flatten hu.script hplayed)
    rw [traverse_eq hwalk]
    refine ⟨fun phase hphase => ?_, hrests _ (State.last_mem_rests w _ u.script)⟩
    obtain ⟨t, ht, heq⟩ := State.statuses_of_mem_phases _ _ hphase
    rw [heq]
    exact hrests t ht

theorem run_sound (hd : d.Sound) (u : Undertaking) : (u.run d).2.Sound ∧ (u.run d).2.graph = d.graph :=
  hd.traverse u.operation.traversal u.limit u.visitor u.callerCancelled u.script

/-! ## Any sequence -/

theorem after_consistent : ∀ (us : List Undertaking) (d : Deployment), d.Sound → Consistent d.graph d.statuses →
    (∀ u ∈ us, u.Passive) →
    (d.after us).Sound ∧ (d.after us).graph = d.graph ∧ Consistent d.graph (d.after us).statuses
  | [], _, hd, hbefore, _ => ⟨hd, rfl, hbefore⟩
  | u :: us, d, hd, hbefore, hus => by
    obtain ⟨hsound, hgraph⟩ := run_sound hd u
    have hleft := (run_consistent hd (hus u List.mem_cons_self) hbefore).2
    rw [← hgraph] at hleft
    have ih := after_consistent us (u.run d).2 hsound hleft fun u hu => hus u (List.mem_cons_of_mem _ hu)
    rw [after_cons, ← hgraph]
    exact ih

/-- **Through any sequence of passive operations, what is started has all its dependencies started**: in what each of
them shows, at any time while it runs, and in what they leave behind. -/
theorem statuses_consistent {entries : List (String × List String)} (hg : Graph.build entries = .ok g) (status : Status)
    (us : List Undertaking) (hus : ∀ u ∈ us, u.Passive) :
    Consistent g ((uniform g status).after us).statuses ∧
      ∀ earlier u later, us = earlier ++ u :: later →
        (∀ phase ∈ (u.run ((uniform g status).after earlier)).1.phases, Consistent g phase.statuses) ∧
        ∀ w acts s, u.operation.traversal.walk g u.limit u.visitor = .ok w →
          Reached w ((uniform g status).after earlier).statuses u.callerCancelled acts s → PassiveActs acts →
          Consistent g s.statuses := by
  have hfirst := consistent_uniform (Graph.accepted_of_build hg) status
  have hsound := sound_uniform hg status
  refine ⟨(after_consistent us _ hsound hfirst hus).2.2, ?_⟩
  rintro earlier u later rfl
  have hearlier : ∀ u ∈ earlier, u.Passive := fun u hu => hus u (List.mem_append_left _ hu)
  have hu : u.Passive := hus u (List.mem_append_right _ List.mem_cons_self)
  obtain ⟨hd, hgraph, hbefore⟩ := after_consistent earlier _ hsound hfirst hearlier
  have hgraph : ((uniform g status).after earlier).graph = g := hgraph
  have hbefore : Consistent ((uniform g status).after earlier).graph
      ((uniform g status).after earlier).statuses := by
    rw [hgraph]
    exact hbefore
  refine ⟨fun phase hphase => ?_, fun w acts s hwalk h hacts => ?_⟩
  · have hphase := (run_consistent hd hu hbefore).1 phase hphase
    rwa [hgraph] at hphase
  · rw [← hgraph] at hwalk
    have hstate := consistent_of_reached hd hu.visitor hbefore hwalk h hacts
    rwa [hgraph] at hstate

theorem statuses_consistent_pair :
    let up : Undertaking := ⟨.up, none, fun _ => [.log "up"], false, []⟩
    let restart : Undertaking :=
      ⟨.restart ["db"], Limit.ofNat? 1, fun n => if n = "db" then [.fail (.plain "down")] else [], false, []⟩
    let left := ((uniform pair.graph .stopped).after [up, restart]).statuses
    Consistent pair.graph left ∧ left.get? "api" = some .stopped ∧ left.get? "db" = some .started := by
  intro up restart left
  have hbuild : Graph.build [("api", ["db"]), ("db", [])] = .ok pair.graph := by decide +kernel
  have hup : up.Passive := ⟨fun _ _ _ => by simp [up], nofun⟩
  have hrestart : restart.Passive := by
    refine ⟨fun name _ _ => ?_, nofun⟩
    by_cases hname : name = "db"
    · simp [restart, hname]
    · simp [restart, hname]
  have hpassive : ∀ u ∈ [up, restart], u.Passive := by
    intro u hu
    rcases List.mem_cons.1 hu with rfl | hu
    · exact hup
    · rw [List.mem_singleton.1 hu]
      exact hrestart
  exact ⟨(statuses_consistent hbuild .stopped [up, restart] hpassive).1, by decide +kernel, by decide +kernel⟩

end Deployment

end Rollout
