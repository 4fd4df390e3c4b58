import Rollout.Proofs.Config.Sources
import Rollout.Proofs.Graph.Rejection
/-!
What profiles leave of a configuration.  A filter keeps the services that are active and nothing else about them changes
(`Config.get?_withProfiles`), so two filters may change places, and to filter again changes nothing.  The graph of what
is left is the one that the active services induce, or it is refused for an active service that depends on an inactive
one (`Config.withProfiles_induces`): a cycle of it would be one of the full graph.

A graph is induced by some of the services of another one if it has them, with all that they depend on there and those
of their dependents that are left (`Graph.Induces`).  The graph of a configuration comes to one of three ends, and
`graph_cases` is what each of them says in terms of what the services list; the three ends of the filtered configuration
are compared with those of the whole one.
-/
namespace Rollout

open Relation (TransGen)

/-- Belongs to no profile, or to one of the active ones. -/
def Service.Active (s : Service) (active : List String) : Prop :=
  s.profiles = [] ∨ ∃ profile ∈ s.profiles, profile ∈ active

theorem Service.isActive_iff {s : Service} {active : List String} : s.isActive active = true ↔ s.Active active := by
  unfold isActive Active
  simp

/-- A graph on those services of another one that have a property, with all that they depend on there and those of
their dependents that are left. -/
structure Graph.Induces (g part : Graph) (P : String → Prop) : Prop where
  services : ∀ name, name ∈ part.services ↔ name ∈ g.services ∧ P name
  dependencies : ∀ name, P name → part.dependencies name = g.dependencies name
  children : ∀ name, P name → part.children name = g.children name
  parents : ∀ name, P name → ∀ other, other ∈ part.parents name ↔ other ∈ g.parents name ∧ P other

namespace Config

variable {c : Config} {g part : Graph} {active more : List String} {name a b : String}

/-! ## The filter -/

theorem get?_withProfiles {service : Service} : (c.withProfiles active).services.get? name = some service ↔
    c.services.get? name = some service ∧ service.Active active := by
  unfold withProfiles
  rw [Table.get?_filter, Option.filter_eq_some_iff, Service.isActive_iff]

theorem ext_services {c' : Config}
    (h : ∀ name service, c.services.get? name = some service ↔ c'.services.get? name = some service) : c = c' := by
  have hservices : c.services = c'.services := Table.ext_get? fun name => Option.ext (h name)
  cases c
  exact congrArg Config.mk hservices

/-- **Two filters may change places.** -/
theorem withProfiles_comm (c : Config) (active more : List String) :
    (c.withProfiles active).withProfiles more = (c.withProfiles more).withProfiles active :=
  ext_services fun name service => by
    rw [get?_withProfiles, get?_withProfiles, get?_withProfiles, get?_withProfiles, and_right_comm]

/-- **To filter again changes nothing.** -/
theorem withProfiles_withProfiles (c : Config) (active : List String) :
    (c.withProfiles active).withProfiles active = c.withProfiles active :=
  ext_services fun name service => by
    rw [get?_withProfiles, and_iff_left_of_imp fun h => (get?_withProfiles.1 h).2]

/-! ## The graph of a configuration -/

def declared (c : Config) : Table (List String) := c.services.map fun _ service => service.dependencies

theorem ofList_declared (c : Config) : Table.ofList c.declared.entries = c.declared :=
  Source.ofList_entries (.configured c)

theorem graph_eq (c : Config) : c.graph = Graph.build c.declared.entries :=
  Source.build_eq (s := .configured c) (ofList_declared c)

theorem eq_of_graph (h : c.graph = .ok g) : g = ⟨c.declared⟩ := by
  rw [Graph.eq_of_build ((graph_eq c).symm.trans h), ofList_declared]

/-- **What the graph of a configuration comes to.** -/
theorem graph_cases (c : Config) :
    (∃ service dependency, c.graph = .error (.unknownDependency service dependency) ∧
      Graph.Depends ⟨c.declared⟩ service dependency ∧ dependency ∉ Graph.services ⟨c.declared⟩) ∨
    (∃ path, c.graph = .error (.cyclicDependency path) ∧ ∃ a, Graph.DependsOn ⟨c.declared⟩ a a) ∨
    c.graph = .ok ⟨c.declared⟩ := by
  have hdepends : Lists c.declared.entries = Graph.Depends ⟨c.declared⟩ := by
    funext a b
    have hiff : Graph.Depends ⟨Table.ofList c.declared.entries⟩ a b ↔ Lists c.declared.entries a b :=
      Graph.depends_ofEntries_iff
    rw [ofList_declared] at hiff
    exact propext hiff.symm
  rw [graph_eq]
  rcases Graph.build_cases c.declared.entries with ⟨service, dependency, hbuild, -⟩ | ⟨path, hbuild, -, hcycle⟩ |
    ⟨hbuild, -⟩
  · have hfound := Graph.build_eq_unknown_iff.1 hbuild
    rw [ofList_declared] at hfound
    obtain ⟨⟨before, after, hlisted, -⟩, hundeclared, -⟩ := Graph.undeclared?_eq_some hfound
    refine Or.inl ⟨service, dependency, hbuild, Graph.mem_dependencies_iff.2 ⟨_, hlisted, ?_⟩, hundeclared⟩
    exact List.mem_append_right before List.mem_cons_self
  · rw [hdepends] at hcycle
    exact Or.inr (Or.inl ⟨path, hbuild, hcycle⟩)
  · rw [ofList_declared] at hbuild
    exact Or.inr (Or.inr hbuild)

/-! ## What is left of it -/

def Active (c : Config) (active : List String) (name : String) : Prop :=
  ∃ service, c.services.get? name = some service ∧ service.Active active

theorem get?_declared_withProfiles {listed : List String} :
    (c.withProfiles active).declared.get? name = some listed ↔
      c.declared.get? name = some listed ∧ c.Active active name := by
  have hget : ∀ c : Config, c.declared.get? name = some listed ↔
      ∃ service, c.services.get? name = some service ∧ service.dependencies = listed := fun c => by
    unfold declared
    rw [Table.get?_map, Option.map_eq_some_iff]
  rw [hget, hget]
  constructor
  · rintro ⟨service, hservice, rfl⟩
    obtain ⟨hkept, hactive⟩ := get?_withProfiles.1 hservice
    exact ⟨⟨service, hkept, rfl⟩, service, hkept, hactive⟩
  · rintro ⟨⟨service, hservice, rfl⟩, other, hother, hactive⟩
    obtain rfl : service = other := Option.some.inj (hservice.symm.trans hother)
    exact ⟨service, get?_withProfiles.2 ⟨hservice, hactive⟩, rfl⟩

theorem mem_services_withProfiles : name ∈ Graph.services ⟨(c.withProfiles active).declared⟩ ↔
    name ∈ Graph.services ⟨c.declared⟩ ∧ c.Active active name := by
  show name ∈ (c.withProfiles active).declared.keys ↔ name ∈ c.declared.keys ∧ _
  rw [← Table.get?_isSome_iff, ← Table.get?_isSome_iff, Option.isSome_iff_exists, Option.isSome_iff_exists]
  simp only [get?_declared_withProfiles, exists_and_right]

theorem depends_withProfiles : Graph.Depends ⟨(c.withProfiles active).declared⟩ a b ↔
    Graph.Depends ⟨c.declared⟩ a b ∧ c.Active active a := by
  unfold Graph.Depends
  rw [Graph.mem_dependencies_iff, Graph.mem_dependencies_iff]
  simp only [get?_declared_withProfiles]
  constructor
  · rintro ⟨listed, ⟨hget, hactive⟩, hb⟩
    exact ⟨⟨listed, hget, hb⟩, hactive⟩
  · rintro ⟨⟨listed, hget, hb⟩, hactive⟩
    exact ⟨listed, ⟨hget, hactive⟩, hb⟩

/-- **What is left is the graph that the active services induce.** -/
theorem induces_withProfiles (c : Config) (active : List String) :
    Graph.Induces ⟨c.declared⟩ ⟨(c.withProfiles active).declared⟩ (c.Active active) := by
  have hdependencies : ∀ name, c.Active active name →
      Graph.dependencies ⟨(c.withProfiles active).declared⟩ name = Graph.dependencies ⟨c.declared⟩ name := by
    intro name hactive
    have hget : (c.withProfiles active).declared.get? name = c.declared.get? name := Option.ext fun listed => by
      rw [get?_declared_withProfiles, and_iff_left hactive]
    unfold Graph.dependencies Table.getD
    rw [hget]
  refine ⟨fun name => mem_services_withProfiles, hdependencies, fun name hactive => ?_, fun name _ other => ?_⟩
  · unfold Graph.children
    rw [hdependencies name hactive]
  · rw [Graph.mem_parents_iff, Graph.mem_parents_iff]
    exact depends_withProfiles

theorem dependsOn_of_withProfiles (h : Graph.DependsOn ⟨(c.withProfiles active).declared⟩ a b) :
    Graph.DependsOn ⟨c.declared⟩ a b := TransGen.mono (fun _ _ hstep => (depends_withProfiles.1 hstep).1) _ _ h

/-- **Profiles leave the graph that the active services induce, or an honest error.**  The graph is built if the active
services depend on active ones only.  Otherwise the error names an active service and a dependency of it that is not
active; it is never about a cycle.  Two filters keep what is active under both, in either order, and one filter twice is
that filter. -/
theorem withProfiles_induces (c : Config) (active : List String) :
    (∀ g, c.graph = .ok g →
      ((∃ part, (c.withProfiles active).graph = .ok part) ↔
        ∀ a b, c.Active active a → g.Depends a b → c.Active active b) ∧
      (∀ part, (c.withProfiles active).graph = .ok part → g.Induces part (c.Active active)) ∧
      ∀ failure, (c.withProfiles active).graph = .error failure →
        (∃ service dependency, failure = .unknownDependency service dependency ∧ c.Active active service ∧
          g.Depends service dependency ∧ dependency ∈ g.services ∧ ¬ c.Active active dependency) ∧
        ∀ path, failure ≠ .cyclicDependency path) ∧
    ∀ more, (∀ name service, ((c.withProfiles active).withProfiles more).services.get? name = some service ↔
        c.services.get? name = some service ∧ service.Active active ∧ service.Active more) ∧
      (c.withProfiles active).withProfiles more = (c.withProfiles more).withProfiles active ∧
      (c.withProfiles active).withProfiles active = c.withProfiles active := by
  refine ⟨fun g hgraph => ?_, fun more => ⟨fun name service => ?_, withProfiles_comm c active more,
    withProfiles_withProfiles c active⟩⟩
  · have hg : g.Accepted := Graph.accepted_of_build ((graph_eq c).symm.trans hgraph)
    obtain rfl := eq_of_graph hgraph
    rcases graph_cases (c.withProfiles active) with ⟨service, dependency, hpart, hdepends, hgone⟩ |
      ⟨path, hpart, a, hcycle⟩ | hpart
    · -- the name is a service of the full graph, so it is missing because it is not active
      obtain ⟨hdepends, hactive⟩ := depends_withProfiles.1 hdepends
      have hknown := hg.declared service dependency hdepends
      have hinactive : ¬ c.Active active dependency := fun h => hgone (mem_services_withProfiles.2 ⟨hknown, h⟩)
      refine ⟨⟨?_, fun hall => absurd (hall service dependency hactive hdepends) hinactive⟩, ?_, ?_⟩
      · rintro ⟨part, hok⟩
        cases hpart.symm.trans hok
      · intro part hok
        cases hpart.symm.trans hok
      · intro failure herror
        obtain rfl := Except.error.inj (hpart.symm.trans herror)
        exact ⟨⟨service, dependency, rfl, hactive, hdepends, hknown, hinactive⟩, nofun⟩
    · exact absurd (dependsOn_of_withProfiles hcycle) (hg.acyclic a)
    · refine ⟨⟨fun _ a b ha hab => ?_, fun _ => ⟨_, hpart⟩⟩, ?_, ?_⟩
      · have hpartial := Graph.accepted_of_build ((graph_eq _).symm.trans hpart)
        exact (mem_services_withProfiles.1 (hpartial.declared a b (depends_withProfiles.2 ⟨hab, ha⟩))).2
      · intro part hok
        obtain rfl := eq_of_graph hok
        exact induces_withProfiles c active
      · intro failure herror
        cases hpart.symm.trans herror
  · rw [get?_withProfiles, get?_withProfiles, and_assoc]

theorem withProfiles_induces_orphan :
    let web : Service := { Service.blank with dependsOn := [.plain "db"], profiles := ["edge", "full"] }
    let db : Service := { Service.blank with profiles := ["full"] }
    let c : Config := ⟨Table.ofList [("web", web), ("db", db), ("log", Service.blank)]⟩
    Graph.Induces ⟨c.declared⟩ ⟨(c.withProfiles ["full"]).declared⟩ (c.Active ["full"]) ∧
      (c.withProfiles ["edge"]).graph = .error (.unknownDependency "web" "db") ∧
      c.Active ["edge"] "web" ∧ ¬ c.Active ["edge"] "db" ∧
      (c.withProfiles ["edge"]).withProfiles ["full"] = (c.withProfiles ["full"]).withProfiles ["edge"] := by
  intro web db c
  have hgraph : c.graph = .ok ⟨c.declared⟩ := by decide +kernel
  have hfull : (c.withProfiles ["full"]).graph = .ok ⟨(c.withProfiles ["full"]).declared⟩ := by decide +kernel
  have hedge : (c.withProfiles ["edge"]).graph = .error (.unknownDependency "web" "db") := by decide +kernel
  obtain ⟨-, hinduces, -⟩ := (withProfiles_induces c ["full"]).1 _ hgraph
  obtain ⟨hedges, hfilters⟩ := withProfiles_induces c ["edge"]
  obtain ⟨⟨service, dependency, hnamed, hactive, -, -, hinactive⟩, -⟩ := (hedges _ hgraph).2.2 _ hedge
  cases hnamed
  exact ⟨hinduces _ hfull, hedge, hactive, hinactive, (hfilters ["full"]).2.1⟩

end Config

end Rollout
