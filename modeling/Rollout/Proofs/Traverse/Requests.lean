import Rollout.Proofs.Deployment
import Rollout.Proofs.Graph.Adjacency
import Rollout.Proofs.Walk.Conduct
import Rollout.Proofs.Walk.Rests
/-!
What stays true of a deployment whatever is asked of it.  A request changes a status or runs a traversal; the graph
stays the one that was built, and the status table keeps one entry for each service (`Sound.serve`, `Sound.serveAll`).
So at any time, also inside of a traversal, a deployment represents the entries that its graph was built from: the
adjacency is that of the entries at both ends, and the statuses of its neighbours divide the neighbours of a service up
(`representation_kept`).

A deployment represents entries if each of its queries is answered by what the entries say (`Represents`), the
neighbours of a service among them as they are filled in edge by edge.  That is a matter of the graph, which never
changes, and of which services have a status, which never changes either; so it is enough to follow the keys of the
status table through a walk (`Sound.keys_of_reached`) and into the phases that it shows (`Sound.keys_of_phase`).
-/
namespace Rollout

open State (Reached)

/-- Some names divided up by status: each list keeps their order, and each name is in the list of one status. -/
structure DividedUp (names : List String) (among : Status → List String) : Prop where
  sublist : ∀ status, (among status).Sublist names
  unique : ∀ name ∈ names, ∃! status, name ∈ among status

/-! ## Requests -/

inductive Request where
  | setStatus (name : String) (status : Status)
  | traverse (traversal : Traversal) (limit : Option Limit) (visitor : Visitor) (callerCancelled : Bool)
      (script : Script)

namespace Deployment

variable {d : Deployment} {g : Graph} {t : Traversal} {limit : Option Limit} {visitor : Visitor}
  {entries : List (String × List String)}

def serve (d : Deployment) : Request → Deployment
  | .setStatus name status =>
    match d.setStatus name status with
    | .ok d => d
    | .error _ => d
  | .traverse t limit visitor callerCancelled script => (d.traverse t limit visitor callerCancelled script).2

def serveAll (d : Deployment) (requests : List Request) : Deployment := requests.foldl serve d

theorem Sound.keys_of_reached (hd : d.Sound) {w : Walk} (hwalk : t.walk d.graph limit visitor = .ok w)
    {callerCancelled : Bool} {acts : List Outside} {s : State} (h : Reached w d.statuses callerCancelled acts s) :
    s.statuses.keys = d.graph.services := by
  obtain ⟨hw, -, hst⟩ := hd.of_walk hwalk
  exact (h.faithful hw hst).keys.trans hd.statuses

theorem Sound.keys_of_phase (hd : d.Sound) {callerCancelled : Bool} {script : Script} {phase : Phase}
    (hphase : phase ∈ (d.traverse t limit visitor callerCancelled script).1.phases) :
    phase.statuses.keys = d.graph.services := by
  cases hwalk : t.walk d.graph limit visitor with
  | error failure =>
    unfold Deployment.traverse at hphase
    rw [hwalk] at hphase
    rw [List.mem_singleton.1 hphase]
    exact hd.statuses
  | ok w =>
    rw [traverse_eq hwalk] at hphase
    obtain ⟨s, hs, hstatuses⟩ := State.statuses_of_mem_phases _ _ hphase
    obtain ⟨played, -, h⟩ := State.reached_of_mem_rests hs
    rw [hstatuses]
    exact hd.keys_of_reached hwalk h

/-- **A traversal leaves a sound deployment with the same graph**, whatever it comes to. -/
theorem Sound.traverse (hd : d.Sound) (t : Traversal) (limit : Option Limit) (visitor : Visitor)
    (callerCancelled : Bool) (script : Script) :
    (d.traverse t limit visitor callerCancelled script).2.Sound ∧
      (d.traverse t limit visitor callerCancelled script).2.graph = d.graph := by
  cases hwalk : t.walk d.graph limit visitor with
  | error failure =>
    unfold Deployment.traverse
    rw [hwalk]
    exact ⟨hd, rfl⟩
  | ok w =>
    rw [traverse_eq hwalk]
    have hlast : Reached w d.statuses callerCancelled _ ((State.start w d.statuses callerCancelled).last w script) :=
      (State.runs_settle w _).trans (State.runs_last script _)
    exact ⟨⟨hd.built, hd.keys_of_reached hwalk hlast⟩, rfl⟩

/-- **A request leaves a sound deployment with the same graph.** -/
theorem Sound.serve (hd : d.Sound) (request : Request) : (d.serve request).Sound ∧ (d.serve request).graph = d.graph := by
  cases request with
  | setStatus name status =>
    unfold Deployment.serve
    dsimp only
    cases hset : d.setStatus name status with
    | error failure => exact ⟨hd, rfl⟩
    | ok d' => exact ⟨hd.setStatus hset, graph_setStatus hset⟩
  | traverse t limit visitor callerCancelled script => exact hd.traverse t limit visitor callerCancelled script

theorem Sound.serveAll : ∀ (requests : List Request) {d : Deployment}, d.Sound →
    (d.serveAll requests).Sound ∧ (d.serveAll requests).graph = d.graph
  | [], _, hd => ⟨hd, rfl⟩
  | request :: requests, d, hd => by
    obtain ⟨hserved, hgraph⟩ := hd.serve request
    obtain ⟨hsound, hsame⟩ := Sound.serveAll requests hserved
    exact ⟨hsound, hsame.trans hgraph⟩

/-! ## What a deployment represents -/

/-- What a deployment is to the entries that its graph was built from. -/
structure Represents (d : Deployment) (entries : List (String × List String)) : Prop where
  /-- The services are the names of the entries, each once. -/
  services : Ascending d.graph.services ∧ ∀ name, name ∈ d.graph.services ↔ name ∈ entries.map Prod.fst
  children : ∀ a b, b ∈ d.graph.children a ↔ Lists entries a b
  parents : ∀ a b, a ∈ d.graph.parents b ↔ Lists entries a b
  not_own_child : ∀ a, a ∉ d.graph.children a
  /-- Filled edge by edge, both ends come to the same. -/
  filled : ∀ name ∈ d.graph.services,
    (Adjacency.ofGraph d.graph).children.get? name = some (d.graph.children name) ∧
      (Adjacency.ofGraph d.graph).parents.get? name = some (d.graph.parents name)
  statuses : d.statuses.keys = d.graph.services
  children_by_status : ∀ name ∈ d.graph.services, ∃ all among, d.graph.childrenOf name = .ok all ∧
    (∀ status, d.childrenWithStatus name status = .ok (among status)) ∧ DividedUp all among
  parents_by_status : ∀ name ∈ d.graph.services, ∃ all among, d.graph.parentsOf name = .ok all ∧
    (∀ status, d.parentsWithStatus name status = .ok (among status)) ∧ DividedUp all among

/-! ### Neighbours by their statuses -/

def inStatus (d : Deployment) (names : List String) (status : Status) : List String :=
  names.filter fun name => d.status? name = some status

theorem dividedUp_inStatus (hstatuses : d.statuses.keys = d.graph.services) {names : List String}
    (hnames : ∀ name ∈ names, name ∈ d.graph.services) : DividedUp names (d.inStatus names) := by
  refine ⟨fun status => List.filter_sublist, fun name hname => ?_⟩
  have hbound : (d.statuses.get? name).isSome := by
    rw [Table.get?_isSome_iff, hstatuses]
    exact hnames name hname
  obtain ⟨status, hstatus⟩ := Option.isSome_iff_exists.1 hbound
  have hmem : ∀ other, name ∈ d.inStatus names other ↔ status = other := fun other => by
    unfold inStatus
    rw [List.mem_filter, decide_eq_true_iff, and_iff_right hname, show d.status? name = some status from hstatus,
      Option.some.injEq]
  exact ⟨status, (hmem status).2 rfl, fun other hother => ((hmem other).1 hother).symm⟩

theorem childrenOf_of_mem {name : String} (hname : name ∈ g.services) : g.childrenOf name = .ok (g.children name) := by
  unfold Graph.childrenOf Graph.require
  rw [Graph.contains_iff.2 hname]
  rfl

theorem parentsOf_of_mem {name : String} (hname : name ∈ g.services) : g.parentsOf name = .ok (g.parents name) := by
  unfold Graph.parentsOf Graph.require
  rw [Graph.contains_iff.2 hname]
  rfl

theorem childrenWithStatus_of_mem {name : String} (hname : name ∈ d.graph.services) (status : Status) :
    d.childrenWithStatus name status = .ok (d.inStatus (d.graph.children name) status) := by
  unfold childrenWithStatus
  rw [childrenOf_of_mem hname]
  rfl

theorem parentsWithStatus_of_mem {name : String} (hname : name ∈ d.graph.services) (status : Status) :
    d.parentsWithStatus name status = .ok (d.inStatus (d.graph.parents name) status) := by
  unfold parentsWithStatus
  rw [parentsOf_of_mem hname]
  rfl

/-! ### Any requests -/

/-- **A deployment represents its entries** as long as its services have statuses, and nothing else has one. -/
theorem represents_of_build (hbuild : Graph.build entries = .ok d.graph)
    (hstatuses : d.statuses.keys = d.graph.services) : d.Represents entries := by
  have haccepted := Graph.accepted_of_build hbuild
  have hgraph : d.graph = ⟨Table.ofList entries⟩ := Graph.eq_of_build hbuild
  have hservices : ∀ name, name ∈ d.graph.services ↔ name ∈ entries.map Prod.fst := by
    rw [hgraph]
    exact fun name => Graph.mem_services_ofEntries
  have hdepends : ∀ a b, d.graph.Depends a b ↔ Lists entries a b := by
    rw [hgraph]
    exact fun a b => Graph.depends_ofEntries_iff
  refine ⟨⟨d.graph.declared.ascending, hservices⟩, fun a b => Graph.mem_children_iff.trans (hdepends a b),
    fun a b => Graph.mem_parents_iff.trans (hdepends a b), fun a ha => ?_,
    fun name hname => ⟨Adjacency.children_ofGraph hname, Adjacency.parents_ofGraph hname⟩, hstatuses,
    fun name hname => ?_, fun name hname => ?_⟩
  · exact haccepted.acyclic a (Relation.TransGen.single (Graph.mem_children_iff.1 ha))
  · refine ⟨_, _, childrenOf_of_mem hname, childrenWithStatus_of_mem hname, dividedUp_inStatus hstatuses ?_⟩
    exact fun child hchild => haccepted.declared name child (Graph.mem_children_iff.1 hchild)
  · refine ⟨_, _, parentsOf_of_mem hname, parentsWithStatus_of_mem hname, dividedUp_inStatus hstatuses ?_⟩
    exact fun parent hparent => Graph.mem_services_of_depends (Graph.mem_parents_iff.1 hparent)

/-- **Whatever is asked of it, a deployment represents the entries that its graph was built from**, and the graph stays
as it was built: after any requests, in each phase that a traversal shows among them, and in every state that it goes
through. -/
theorem representation_kept (hg : Graph.build entries = .ok g) (status : Status) (requests : List Request) :
    ((uniform g status).serveAll requests).graph = g ∧ ((uniform g status).serveAll requests).Represents entries ∧
      ∀ earlier t limit visitor callerCancelled script later,
        requests = earlier ++ .traverse t limit visitor callerCancelled script :: later →
        let d := (uniform g status).serveAll earlier
        (∀ phase ∈ (d.traverse t limit visitor callerCancelled script).1.phases,
          Represents ⟨g, phase.statuses⟩ entries) ∧
        ∀ w acts s, t.walk g limit visitor = .ok w → Reached w d.statuses callerCancelled acts s →
          Represents ⟨g, s.statuses⟩ entries := by
  have hafter : ∀ requests, ((uniform g status).serveAll requests).Sound ∧
      ((uniform g status).serveAll requests).graph = g := fun requests =>
    Sound.serveAll requests (sound_uniform hg status)
  obtain ⟨hsound, hgraph⟩ := hafter requests
  have hbuilt : Graph.build entries = .ok ((uniform g status).serveAll requests).graph :=
    hg.trans (congrArg Except.ok hgraph.symm)
  refine ⟨hgraph, represents_of_build hbuilt hsound.statuses, ?_⟩
  intro earlier t limit visitor callerCancelled script later _ d
  obtain ⟨hd, hsame⟩ := hafter earlier
  have hservices : d.graph.services = g.services := congrArg Graph.services hsame
  refine ⟨fun phase hphase => ?_, fun w acts s hwalk h => ?_⟩
  · exact represents_of_build (d := ⟨g, phase.statuses⟩) hg ((hd.keys_of_phase hphase).trans hservices)
  · rw [← show d.graph = g from hsame] at hwalk
    exact represents_of_build (d := ⟨g, s.statuses⟩) hg ((hd.keys_of_reached hwalk h).trans hservices)

theorem representation_kept_pair :
    let visitor : Visitor := fun name => if name = "api" then [.setStatus "db" .upgrading, .fail (.plain "down")] else []
    let d := pair.serveAll [.setStatus "cache" .removed, .traverse .forward none visitor false []]
    d.Represents [("api", ["db"]), ("db", [])] ∧ d.childrenWithStatus "api" .upgrading = .ok ["db"] ∧
      d.parentsWithStatus "db" .stopped = .ok ["api"] := by
  intro visitor d
  have hbuild : Graph.build [("api", ["db"]), ("db", [])] = .ok pair.graph := by decide +kernel
  exact ⟨(representation_kept hbuild .stopped _).2.1, by decide +kernel, by decide +kernel⟩

end Deployment

end Rollout
