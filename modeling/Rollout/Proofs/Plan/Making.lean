import Rollout.Proofs.Plan.Layers
import Rollout.Proofs.Program.Output
import Rollout.Proofs.Traverse.Smooth
/-!
Plans are made, and their waves are layers.  The visits of a traversal that ends well begin in an order in which each
service comes after its prerequisites (`Reached.admits_begun`), and they have been dispatched in such an order as well
(`Reached.admits_dispatched`).  So it makes no difference at which of its turns a visit gets its wave, and none how many
visits may be under way at once, nor what is done in them (`ofReport_eq`).  `plan_layers` says what is in a plan.

A plan needs a traversal that comes to a good end.  The one that plans are made of does, since its visitor does nothing
(`traverse_idle`); what is planned of it is therefore neither a failure nor left pending, as long as the operation names
known services only (`exists_layered`).  Any other visitor may be put in its place, and whatever it does or waits for,
and whatever happens from outside, the plan is the same if the traversal ends well.  Visits that give way to others have
their turns in another order, which is an order of the prerequisites as well; each such order gives the same plan.
-/
namespace Rollout

theorem Event.dispatched?_eq_some_iff (e : Event) (name : String) :
    e.dispatched? = some name ↔ e = .dispatched name := by
  cases e <;> simp [dispatched?]

/-! ## The order of the visits -/

theorem mem_of_precedes {kind : Event → Option String} {event : String → Event} {history : List Event} {a b : String}
    {before after : List String} (hkind : ∀ e name, kind e = some name ↔ e = event name)
    (hsplit : history.reverse.filterMap kind = before ++ a :: after) (h : Precedes (event b) (event a) history) :
    b ∈ before := by
  obtain ⟨older, rest, hhistory, rfl, hrest⟩ := List.filterMap_eq_append_iff.1 hsplit
  obtain ⟨others, e, newer, rfl, hothers, he, -⟩ := List.filterMap_eq_cons_iff.1 hrest
  obtain rfl := (hkind e a).1 he
  have hback : history = newer.reverse ++ event a :: (older ++ others).reverse := by
    rw [← List.reverse_reverse history, hhistory]
    simp
  have hmem : event b ∈ older ++ others := List.mem_reverse.1 (h _ _ hback)
  rcases List.mem_append.1 hmem with hmem | hmem
  · exact List.mem_filterMap.2 ⟨event b, hmem, (hkind _ b).2 rfl⟩
  · exact absurd ((hkind _ b).2 rfl) (hothers _ hmem ▸ nofun)

namespace State

variable {t : Traversal} {w : Walk} {statuses : Table Status} {callerCancelled : Bool} {acts : List Outside} {s : State}

theorem Reached.admits_of_perm {kind : Event → Option String} {event : String → Event}
    (hkind : ∀ e name, kind e = some name ↔ e = event name) (hw : w.Sound) (hdirection : w.direction = t.direction)
    (hmem : ∀ n, n ∈ w.scope ↔ t.Covers w.graph n) (hperm : (s.history.filterMap kind).Perm w.scope)
    (hprecedes : ∀ a b, w.Awaits a b → Precedes (event b) (event a) s.history) :
    t.Admits w.graph (s.history.reverse.filterMap kind) := by
  have hlisted : (s.history.reverse.filterMap kind).Perm w.scope :=
    ((List.reverse_perm s.history).filterMap kind).trans hperm
  refine ⟨hlisted.nodup_iff.2 hw.nodup, fun name => hlisted.mem_iff.trans (hmem name), ?_⟩
  intro before a after hsplit b hab hb
  rw [← hdirection] at hab
  exact mem_of_precedes hkind hsplit (hprecedes a b (Walk.awaits_iff.2 ⟨hab, (hmem b).2 hb⟩))

/-- **The visits of a walk that ends well begin in an order of the prerequisites.** -/
theorem Reached.admits_begun (hw : w.Sound) (hst : ∀ n ∈ w.scope, n ∈ statuses.keys)
    (hdirection : w.direction = t.direction) (hmem : ∀ n, n ∈ w.scope ↔ t.Covers w.graph n)
    (h : Reached w statuses callerCancelled acts s) (hdone : s.done = true) (hf : s.failure = none) :
    t.Admits w.graph (begun s.history.reverse) := by
  refine admits_of_perm Event.begun?_eq_some_iff hw hdirection hmem (h.complete hw hst hdone hf).begun fun a b hab => ?_
  have hended := h.precedes_of_awaits hw hst (Relation.TransGen.single hab)
  exact ((h.traced hw hst).began_precedes_ended b none).trans hended

theorem Reached.perm_dispatched (hw : w.Sound) (hst : ∀ n ∈ w.scope, n ∈ statuses.keys)
    (h : Reached w statuses callerCancelled acts s) (hdone : s.done = true) (hf : s.failure = none) :
    (s.history.filterMap Event.dispatched?).Perm w.scope :=
  h.perm_scope hw hst Event.dispatched?_eq_some_iff (fun _ => rfl) fun n hn =>
    (h.traced hw hst).dispatched_of_progress (h.ended_of_done hw hst hdone hf n hn) nofun

/-- **They are dispatched in such an order as well**, so any turn between the dispatch and the beginning will do. -/
theorem Reached.admits_dispatched (hw : w.Sound) (hst : ∀ n ∈ w.scope, n ∈ statuses.keys)
    (hdirection : w.direction = t.direction) (hmem : ∀ n, n ∈ w.scope ↔ t.Covers w.graph n)
    (h : Reached w statuses callerCancelled acts s) (hdone : s.done = true) (hf : s.failure = none) :
    t.Admits w.graph (s.history.reverse.filterMap Event.dispatched?) := by
  have htraced := h.traced hw hst
  refine admits_of_perm Event.dispatched?_eq_some_iff hw hdirection hmem (h.perm_dispatched hw hst hdone hf) ?_
  intro a b hab
  have hended : Precedes (.ended b none) (.dispatched a) s.history := h.fed hw hst a b hab
  exact ((htraced.dispatched_precedes_began b).trans (htraced.began_precedes_ended b none)).trans hended

end State

/-- **The visits of a traversal that ends well are dispatched in an order of the prerequisites, and begin in one.** -/
theorem Deployment.admits_of_ok {d : Deployment} {t : Traversal} {limit : Option Limit} {visitor : Visitor}
    {callerCancelled : Bool} {script : Script} (hd : d.Sound)
    (hok : (d.traverse t limit visitor callerCancelled script).1.result = .ok) :
    let report := (d.traverse t limit visitor callerCancelled script).1
    t.Admits d.graph report.dispatched ∧ t.Admits d.graph (begun report.events) := by
  cases hwalk : t.walk d.graph limit visitor with
  | error failure =>
    unfold Deployment.traverse at hok
    rw [hwalk] at hok
    cases hok
  | ok w =>
    obtain ⟨hw, hmem, hst⟩ := hd.of_walk hwalk
    obtain ⟨s, h, -, hevents, hresult, -⟩ := Deployment.traverse_reached hwalk hw hst callerCancelled script
    obtain ⟨hdone, hf⟩ := (State.result_eq_ok_iff (h.tidy hw hst).aborted).1 (hresult.symm.trans hok)
    obtain ⟨scope, -, rfl⟩ := Deployment.walk_eq hwalk
    intro report
    show t.Admits d.graph (report.events.filterMap Event.dispatched?) ∧ t.Admits d.graph (begun report.events)
    rw [show report.events = s.history.reverse from hevents]
    exact ⟨h.admits_dispatched hw hst rfl hmem hdone hf, h.admits_begun hw hst rfl hmem hdone hf⟩

def Config.pair : Config :=
  ⟨Table.ofList [("api", { Service.blank with dependsOn := [.plain "db"] }), ("db", Service.blank)]⟩

theorem Config.graph_pair : Config.pair.graph = .ok Deployment.pair.graph := by decide +kernel

/-! ## Making a plan -/

namespace Plan

variable {g : Graph} {o : Operation} {entries : List (String × List String)}

theorem smooth_idle (known : List String) : Visitor.Smooth idle known :=
  ⟨fun _ => ⟨List.not_mem_nil, List.not_mem_nil⟩, fun _ => List.not_mem_nil, fun _ _ h => absurd h List.not_mem_nil⟩

/-- The services that an operation names are services of the graph. -/
def Operation.Known (o : Operation) (g : Graph) : Prop :=
  ∀ named, o = .restart named → ∀ name ∈ named, name ∈ g.services

theorem Operation.Known.traversal (h : o.Known g) : o.traversal.Known g := by
  cases o with
  | up => nofun
  | down => nofun
  | restart named =>
    intro roots hroots root hroot
    refine h named rfl root ?_
    unfold Operation.traversal Traversal.downstreamOf Traversal.withRoots at hroots
    dsimp only at hroots
    split at hroots
    · cases hroots
    · cases hroots
      exact hroot

theorem Operation.covers_of_requires (hg : g.Accepted) {a b : String} (ha : o.traversal.Covers g a)
    (hab : o.traversal.direction.Requires g a b) : o.traversal.Covers g b := by
  cases o with
  | up => exact hg.declared a b hab
  | down => exact ha.dependent hab
  | restart _ => exact ha.dependent hab

/-- **The plan of a report is that of any order of the visits**, whatever was done in them. -/
theorem ofReport_eq {d : Deployment} {t : Traversal} {limit : Option Limit} {visitor : Visitor} {callerCancelled : Bool}
    {script : Script} (hd : d.Sound) {p : Plan} (hp : p.Layered t d.graph)
    (hok : (d.traverse t limit visitor callerCancelled script).1.result = .ok) :
    ofReport t.direction d.graph (d.traverse t limit visitor callerCancelled script).1 = .made p ∧
      ofOrder t.direction d.graph (begun (d.traverse t limit visitor callerCancelled script).1.events) = p := by
  obtain ⟨hdispatched, hbegun⟩ := Deployment.admits_of_ok hd hok
  refine ⟨?_, (layered_ofOrder hbegun).unique hp⟩
  unfold ofReport
  rw [hok]
  exact congrArg Planning.made ((layered_ofOrder hdispatched).unique hp)

theorem traverse_idle (hg : Graph.build entries = .ok g) (ho : o.Known g) (limit : Option Limit) :
    ((Deployment.uniform g o.initialStatus).traverse o.traversal limit idle false []).1.result = .ok := by
  have hd : (Deployment.uniform g o.initialStatus).Sound := Deployment.sound_uniform hg o.initialStatus
  obtain ⟨w, hwalk, -⟩ := hd.exists_walk ho.traversal limit idle
  exact Deployment.traverse_smooth hd (smooth_idle _) hwalk []

/-- **A plan is made of known services, and it is layered.** -/
theorem exists_layered (hg : Graph.build entries = .ok g) (ho : o.Known g) (limit : Option Limit) :
    ∃ p, ofGraph g o limit false = .made p ∧ p.Layered o.traversal g := by
  have hd : (Deployment.uniform g o.initialStatus).Sound := Deployment.sound_uniform hg o.initialStatus
  have hok := traverse_idle hg ho limit
  have hlayered := layered_ofOrder (Deployment.admits_of_ok hd hok).1
  exact ⟨_, (ofReport_eq hd hlayered hok).1, hlayered⟩

/-- **The plan is the same for every limit.** -/
theorem exists_layered_forall (hg : Graph.build entries = .ok g) (ho : o.Known g) :
    ∃ p, p.Layered o.traversal g ∧ ∀ limit, ofGraph g o limit false = .made p := by
  obtain ⟨p, -, hlayered⟩ := exists_layered hg ho none
  refine ⟨p, hlayered, fun limit => ?_⟩
  obtain ⟨q, hq, hother⟩ := exists_layered hg ho limit
  rw [hq, hother.unique hlayered]

theorem run_of_made {c : Config} (hg : c.graph = .ok g) {p : Plan} (hmade : ∀ limit, ofGraph g o limit false = .made p)
    {parallel : Option Nat} (hparallel : ∀ n ∈ parallel, n ≤ Limit.most) :
    (Command.plan o).run c parallel false = .printed (p.overview o.title) := by
  obtain ⟨limit, hlimit⟩ := Command.exists_withLimit hparallel
  rw [Command.run_plan hg, hlimit, Command.planGraph_of_made (hmade limit)]

/-- **A plan is the layers of what its operation covers.**  The traversal of any configuration with an accepted graph
comes to a good end, and the plan that is made of it is the same for every limit.  It makes no difference to the plan
what else the visits do, as long as the traversal comes to a good end, nor when between its dispatch and its beginning
a visit gets its wave, nor in which order the visits have their turns.  Each service has one wave, the length of the
longest chain of prerequisites that ends at it; so the waves are numbered without gaps, each service comes after its
prerequisites, and what is not in the first wave waits for something in the wave before. -/
theorem plan_layers {c : Config} (hg : c.graph = .ok g) (ho : o.Known g) :
    ∃ p, (∀ limit, ofGraph g o limit false = .made p) ∧
      (∀ names, o.traversal.Admits g names → ofOrder o.traversal.direction g names = p) ∧
      (∀ limit visitor cancelled script,
        let report := ((Deployment.uniform g o.initialStatus).traverse o.traversal limit visitor cancelled script).1
        report.result = .ok → ofReport o.traversal.direction g report = .made p ∧
          ofOrder o.traversal.direction g (begun report.events) = p) ∧
      (∀ parallel : Option Nat, (∀ n ∈ parallel, n ≤ Limit.most) →
        (Command.plan o).run c parallel false = .printed (p.overview o.title)) ∧
      (∀ name, o.traversal.Covers g name → ∃! wave, name ∈ p.members wave) ∧
      (∀ wave, Ascending (p.members wave) ∧ ∀ name ∈ p.members wave, o.traversal.Covers g name ∧
        IsGreatest { length | ∃ chain, o.traversal.Chain g name chain ∧ chain.length = length } wave) ∧
      p.waves = List.range' 1 p.waves.length ∧
      (∀ a b n, a ∈ p.members n → o.traversal.direction.Requires g a b → ∃ m < n, b ∈ p.members m) ∧
      ∀ a n, a ∈ p.members (n + 2) → ∃ b ∈ p.members (n + 1), o.traversal.direction.Requires g a b := by
  obtain ⟨p, hlayered, hp⟩ := exists_layered_forall hg ho
  have hd : (Deployment.uniform g o.initialStatus).Sound := Deployment.sound_uniform hg o.initialStatus
  refine ⟨p, hp, fun _ hadmits => (layered_ofOrder hadmits).unique hlayered,
    fun _ _ _ _ => ofReport_eq hd hlayered, fun parallel hparallel => run_of_made hg hp hparallel,
    fun name hname => ?_, fun wave => ?_, ?_, ?_, ?_⟩
  · obtain ⟨n, hn⟩ := hlayered.exists_wave hname
    refine ⟨n, mem_members_iff.2 hn, fun m hm => ?_⟩
    exact Option.some.inj ((mem_members_iff.1 hm).symm.trans hn)
  · refine ⟨ascending_members p wave, fun name hname => ?_⟩
    rw [mem_members_iff] at hname
    exact ⟨hlayered.covered hname, hlayered.isGreatest hname⟩
  · rw [hlayered.waves_eq, List.length_range']
  · intro a b n ha hab
    rw [mem_members_iff] at ha
    obtain ⟨m, hm⟩ := hlayered.exists_wave (o.covers_of_requires (Graph.accepted_of_build hg) (hlayered.covered ha) hab)
    exact ⟨m, hlayered.lt_of_requires ha hm hab, mem_members_iff.2 hm⟩
  · intro a n ha
    obtain ⟨b, hab, hb⟩ := hlayered.exists_requires (mem_members_iff.1 ha)
    exact ⟨b, mem_members_iff.2 hb, hab⟩

theorem plan_layers_pair : ∃ p, (∀ limit, ofGraph Deployment.pair.graph (.restart ["db"]) limit false = .made p) ∧
    ∃ n, "db" ∈ p.members n ∧ ∃ m < n, "api" ∈ p.members m := by
  have hknown : Operation.Known (.restart ["db"]) Deployment.pair.graph := by
    rintro named ⟨⟩ name hname
    rw [List.mem_singleton.1 hname]
    decide +kernel
  obtain ⟨p, hp, -, -, -, honce, -, -, hrequires, -⟩ := plan_layers Config.graph_pair hknown
  obtain ⟨n, hdb, -⟩ := honce "db" ⟨"db", List.mem_singleton_self _, Or.inl rfl⟩
  refine ⟨p, hp, n, hdb, hrequires "db" "api" n hdb ?_⟩
  exact show "db" ∈ Deployment.pair.graph.dependencies "api" by decide +kernel

end Plan

end Rollout
