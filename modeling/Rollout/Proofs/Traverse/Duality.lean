import Rollout.Proofs.Deployment
import Rollout.Proofs.Graph.Opposite
import Rollout.Proofs.Walk.Rests
/-!
Walking a graph in reverse and walking its opposite forward.  A walk looks at its graph and its direction only for the
prerequisites and the successors of the services that it covers, so two walks that agree in these take the same turns
(`Walk.Alike`, `step_congr`) and come to the same rests (`rests_congr`).  A reverse walk of a graph and a forward walk
of its opposite do agree, so their reports are the same (`traverse_opposite`).

That two walks are alike is kept by nothing, since neither walk changes; each function of the machine is shown to look
at no more of its walk than what is alike in both.  What the machine looks at is in a few places only: where a walk
begins, where a visit is counted off, and where a visitor is called.
-/
namespace Rollout

/-- Two walks that cover the same services, each with the same prerequisites and successors, and that have the same
visitor, target and limit. -/
structure Walk.Alike (w w' : Walk) : Prop where
  scope : w.scope = w'.scope
  prerequisites : w.prerequisites = w'.prerequisites
  successors : w.successors = w'.successors
  target : w.target = w'.target
  limit : w.limit = w'.limit
  visitor : w.visitor = w'.visitor

/-! ## The same turns -/

namespace State

variable {w w' : Walk} {s : State} {name : String}

theorem initial_congr (h : w.Alike w') : initial w = initial w' := by
  funext statuses callerCancelled
  unfold initial
  rw [h.scope, h.prerequisites, h.limit]

theorem conclude_congr (h : w.Alike w') (error : Option Failure) :
    s.conclude w name error = s.conclude w' name error := by
  unfold conclude mark
  rw [h.target, h.successors]

theorem finish_congr (h : w.Alike w') (error : Option Failure) :
    s.finish w name error = s.finish w' name error := by
  unfold finish
  rw [h.limit]
  exact conclude_congr h error

theorem turnAway_congr (h : w.Alike w') : s.turnAway w name = s.turnAway w' name := conclude_congr h _

theorem begin_congr (h : w.Alike w') : s.begin w name = s.begin w' name := by
  unfold begin
  rw [h.visitor]

theorem enter_congr (h : w.Alike w') (others : List String) :
    s.enter w name others = s.enter w' name others := by
  unfold enter
  rw [h.limit, begin_congr h, turnAway_congr h, begin_congr h]

theorem perform_congr (h : w.Alike w') (others : List String) (rest : List Action) (action : Action) :
    s.perform w name others rest action = s.perform w' name others rest action := by
  cases action with
  | setStatus other status =>
    simp only [perform]
    rw [finish_congr h]
  | fail cause =>
    simp only [perform]
    rw [finish_congr h]
  | _ => rfl

/-- **Walks that are alike take the same turns.** -/
theorem step_congr (h : w.Alike w') (s : State) : s.step w = s.step w' := by
  unfold step
  simp only [enter_congr h, turnAway_congr h, begin_congr h, finish_congr h, perform_congr h]

/-! ## The same rests -/

theorem settle_congr (h : w.Alike w') (s : State) : s.settle w = s.settle w' := by
  fun_induction State.settle w s with
  | case1 s hqueue =>
    unfold State.settle
    rw [if_pos hqueue]
  | case2 s hqueue ih =>
    rw [ih, step_congr h]
    conv_rhs => unfold State.settle
    rw [if_neg hqueue]

theorem resume_congr (h : w.Alike w') (s : State) (acts : List Outside) : s.resume w acts = s.resume w' acts :=
  settle_congr h _

theorem start_congr (h : w.Alike w') (statuses : Table Status) (callerCancelled : Bool) :
    start w statuses callerCancelled = start w' statuses callerCancelled := by
  unfold start
  rw [initial_congr h, settle_congr h]

/-- **Walks that are alike come to the same rests.** -/
theorem rests_congr (h : w.Alike w') : ∀ (script : Script) (s : State), s.rests w script = s.rests w' script
  | [], _ => rfl
  | acts :: script, s => by
    cases hdone : s.done with
    | true => rw [rests_of_done hdone, rests_of_done hdone]
    | false => rw [rests_cons hdone, rests_cons hdone, resume_congr h, rests_congr h script]

end State

/-! ## Opposite graphs -/

theorem Walk.alike_opposite {g t : Graph} (h : g.Opposite t) (target : Option Status) (limit : Option Limit)
    (visitor : Visitor) :
    Alike ⟨g, .reverse, g.services, target, limit, visitor⟩ ⟨t, .forward, t.services, target, limit, visitor⟩ where
  scope := h.services.symm
  prerequisites := by
    funext name
    unfold prerequisites Direction.prerequisites
    dsimp only
    rw [h.children_eq, h.services]
  successors := by
    funext name
    unfold successors Direction.successors
    dsimp only
    rw [h.parents_eq, h.services]
  target := rfl
  limit := rfl
  visitor := rfl

namespace Deployment

/-- **To walk a graph in reverse is to walk its opposite forward.**  Entries that list the dependents of each service of
a graph make a graph as well, its opposite.  From the same statuses, and with the same target, limit, visitor and
script, both traversals of the whole take the same turns, so they show the same events and statuses phase by phase, end
with the same result, drop the same visits and leave the same statuses behind.  All that is different is what a visitor
is told its service declares: in the opposite graph, the dependents. -/
theorem traverse_opposite {entries : List (String × List String)} {g : Graph} (hg : Graph.build entries = .ok g) :
    Graph.Opposes g.turned g ∧
      ∀ turned, Graph.Opposes turned g → ∃ t, Graph.build turned = .ok t ∧ t.services = g.services ∧
        (∀ name, t.children name = g.parents name ∧ t.parents name = g.children name) ∧
        ∀ (statuses : Table Status) (target : Option Status) (limit : Option Limit) (visitor : Visitor)
            (callerCancelled : Bool) (script : Script),
          let back := traverse ⟨g, statuses⟩ (Traversal.reverse.withTarget target) limit visitor callerCancelled script
          let forth := traverse ⟨t, statuses⟩ (Traversal.forward.withTarget target) limit visitor callerCancelled script
          forth.1 = back.1 ∧ forth.2.statuses = back.2.statuses ∧
            ∃ w w', (Traversal.reverse.withTarget target).walk g limit visitor = .ok w ∧
              (Traversal.forward.withTarget target).walk t limit visitor = .ok w' ∧
              State.initial w' = State.initial w ∧ (∀ s : State, s.step w' = s.step w) ∧
              ∀ (s : State) (acts : List Outside), s.resume w' acts = s.resume w acts := by
  have haccepted := Graph.accepted_of_build hg
  refine ⟨haccepted.opposes_turned, fun turned hturned => ?_⟩
  obtain ⟨t, hbuild, hopposite⟩ := haccepted.exists_opposite hturned
  refine ⟨t, hbuild, hopposite.services, fun name => ⟨hopposite.children_eq name, hopposite.parents_eq name⟩, ?_⟩
  intro statuses target limit visitor callerCancelled script back forth
  have halike := Walk.alike_opposite hopposite target limit visitor
  have hback : (Traversal.reverse.withTarget target).walk g limit visitor =
      .ok ⟨g, .reverse, g.services, target, limit, visitor⟩ := rfl
  have hforth : (Traversal.forward.withTarget target).walk t limit visitor =
      .ok ⟨t, .forward, t.services, target, limit, visitor⟩ := rfl
  have hsame : forth = (back.1, { graph := t, statuses := back.2.statuses }) := by
    unfold forth back
    rw [traverse_eq (d := ⟨t, statuses⟩) hforth, traverse_eq (d := ⟨g, statuses⟩) hback]
    dsimp only
    unfold State.last
    rw [State.start_congr halike, State.rests_congr halike]
  rw [hsame]
  exact ⟨rfl, rfl, _, _, hback, hforth, (State.initial_congr halike).symm, fun s => (State.step_congr halike s).symm,
    fun s acts => (State.resume_congr halike s acts).symm⟩

theorem traverse_opposite_pair : ∃ t, Graph.build [("api", []), ("db", ["api"])] = .ok t ∧
    let visitor : Visitor := fun name => if name = "api" then [.wait] else [.log "down", .wait]
    let script : Script := [[.release "api"]]
    let report := (pair.traverse (Traversal.reverse.withTarget (some .stopped)) none visitor false script).1
    (traverse ⟨t, pair.statuses⟩ (Traversal.forward.withTarget (some .stopped)) none visitor false script).1 = report ∧
      report.dropped = ["db"] ∧ .log "db" "down" ∈ report.events := by
  have hbuild : Graph.build [("api", ["db"]), ("db", [])] = .ok pair.graph := by decide +kernel
  have hturned : pair.graph.turned = [("api", []), ("db", ["api"])] := by decide +kernel
  obtain ⟨hopposes, hopposite⟩ := traverse_opposite hbuild
  rw [hturned] at hopposes
  obtain ⟨t, ht, -, -, hsame⟩ := hopposite _ hopposes
  exact ⟨t, ht, (hsame pair.statuses _ none _ false _).1, by decide +kernel, by decide +kernel⟩

end Deployment

end Rollout
