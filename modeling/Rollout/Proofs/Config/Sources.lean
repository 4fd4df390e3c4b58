import Rollout.Config
import Rollout.Proofs.Graph.Assembly
import Rollout.Proofs.Traverse.Dialogue
/-!
What of its source a graph depends on.  A graph is built from a list of entries or from a configuration, and all that it
takes from either is a table of names with the names that each of them lists (`Source.build_eq`).  Sources that agree on
that table cannot be told apart (`Source.build_agrees`): not by the order of their entries, nor by entries that a later
one replaces, by how a dependency is written, or by what else a service has.

What a source says of a name in the end is `Source.Says`: the last entry of a list with that name, or the service of a
configuration.  Two sources agree if they say the same of every name.  A map that binds each name that a source says
something of may hold them in any order (`HeldBy`), and the graph that is assembled from it is the same as well.
-/
namespace Rollout

inductive Source where
  | listed (entries : List (String × List String))
  | configured (config : Config)

namespace Source

variable {s s' : Source} {bindings : List (String × List String)}

def build : Source → Except Failure Graph
  | .listed entries => Graph.build entries
  | .configured config => config.graph

/-- What a source says of a name in the end: the last entry of a list, or the service of a configuration. -/
def Says (s : Source) (name : String) (listed : List String) : Prop :=
  match s with
  | .listed entries => Counts entries name listed
  | .configured config => ∃ service, config.services.get? name = some service ∧ service.dependencies = listed

def Agrees (s s' : Source) : Prop := ∀ name listed, s.Says name listed ↔ s'.Says name listed

/-- A map binds each name that a source says something of, and in any order. -/
structure HeldBy (s : Source) (bindings : List (String × List String)) : Prop where
  nodup : (bindings.map Prod.fst).Nodup
  mem_iff : ∀ name listed, (name, listed) ∈ bindings ↔ s.Says name listed

/-! ## The table of a source -/

def declared : Source → Table (List String)
  | .listed entries => Table.ofList entries
  | .configured config => config.services.map fun _ service => service.dependencies

theorem says_iff {name : String} {listed : List String} : s.Says name listed ↔ s.declared.get? name = some listed := by
  cases s with
  | listed entries => exact Graph.counts_iff
  | configured config =>
    unfold Says declared
    dsimp only
    rw [Table.get?_map, Option.map_eq_some_iff]

theorem agrees_iff : s.Agrees s' ↔ s.declared = s'.declared := by
  unfold Agrees
  simp only [says_iff]
  constructor
  · exact fun h => Table.ext_get? fun name => Option.ext (h name)
  · intro h name listed
    rw [h]

theorem heldBy_iff : s.HeldBy bindings ↔ Assembly.Arranges bindings ⟨s.declared⟩ := by
  have hmem : ∀ name listed, (bindings.map Prod.fst).Nodup →
      ((name, listed) ∈ bindings ↔ (Table.ofList bindings).get? name = some listed) := fun name listed hnodup => by
    rw [Table.get?_ofList_of_nodup hnodup, Table.lookup_eq_some_iff hnodup]
  constructor
  · rintro ⟨hnodup, hsays⟩
    refine ⟨hnodup, Table.ext_get? fun name => Option.ext fun listed => ?_⟩
    rw [← hmem name listed hnodup, hsays, says_iff]
  · rintro ⟨hnodup, hdeclared⟩
    refine ⟨hnodup, fun name listed => ?_⟩
    rw [hmem name listed hnodup, hdeclared, says_iff]

/-- **A graph takes nothing else from its source than what it says.** -/
theorem build_eq (h : Table.ofList bindings = s.declared) : s.build = Graph.build bindings := by
  cases s with
  | listed entries =>
    have hentries : Table.ofList bindings = Table.ofList entries := h
    unfold build Graph.build
    rw [hentries]
  | configured config =>
    have hservices : Table.ofList (config.services.entries.map fun e => (e.1, e.2.dependencies)) =
        config.services.map fun _ service => service.dependencies := Table.ofList_of_perm (List.Perm.refl _)
    unfold build Config.graph Graph.build
    dsimp only
    rw [hservices, h]
    rfl

theorem ofList_entries (s : Source) : Table.ofList s.declared.entries = s.declared :=
  Table.ofList_of_perm (List.Perm.refl _)

/-! ## Sources that agree -/

/-- **Sources that agree cannot be told apart.**  Either both are refused for the same reason, or both are built, and
then no dialogue tells the graphs apart.  The same comes of a map that holds what they say, in whatever order it
does. -/
theorem build_agrees (h : s.Agrees s') :
    (∃ failure, s.build = .error failure ∧ s'.build = .error failure ∧
      ∀ bindings, s'.HeldBy bindings → Assembly.build bindings = .error failure) ∨
    ∃ g g', s.build = .ok g ∧ s'.build = .ok g' ∧
      (∀ status turns, (Deployment.uniform g status).replies turns = (Deployment.uniform g' status).replies turns) ∧
      ∀ bindings, s'.HeldBy bindings → ∃ assembly, Assembly.build bindings = .ok assembly ∧ assembly.Shows g := by
  have hdeclared : Table.ofList s'.declared.entries = s.declared := by
    rw [ofList_entries, agrees_iff.1 h]
  have hsame : s.build = s'.build := (build_eq hdeclared).trans (build_eq s'.ofList_entries).symm
  have hheld : ∀ bindings, s'.HeldBy bindings → Assembly.Arranges bindings ⟨s'.declared⟩ ∧
      Graph.build bindings = s'.build := fun bindings hbindings => by
    have harranges := heldBy_iff.1 hbindings
    exact ⟨harranges, (build_eq harranges.declared).symm⟩
  cases hbuild : s'.build with
  | error failure =>
    refine Or.inl ⟨failure, hsame.trans hbuild, rfl, fun bindings hbindings => ?_⟩
    obtain ⟨harranges, hgraph⟩ := hheld bindings hbindings
    rw [Assembly.build_eq harranges, hgraph, hbuild]
    rfl
  | ok g =>
    refine Or.inr ⟨g, g, hsame.trans hbuild, rfl, fun status turns => rfl, fun bindings hbindings => ?_⟩
    obtain ⟨harranges, hgraph⟩ := hheld bindings hbindings
    have hg : g = ⟨s'.declared⟩ := by
      rw [Graph.eq_of_build (hgraph.trans hbuild), harranges.declared]
    refine ⟨⟨bindings, Adjacency.ofGraph g⟩, ?_, ?_⟩
    · rw [Assembly.build_eq harranges, hgraph, hbuild]
      rfl
    · rw [hg] at hbuild ⊢
      exact harranges.shows (Graph.accepted_of_build (hgraph.trans hbuild))

theorem build_agrees_web :
    let entries := [("web", ["gone"]), ("db", ["web"]), ("web", []), ("cache", ["db"]), ("db", []),
      ("web", ["db", "cache", "db"])]
    let web : Service := { Service.blank with
      image := some "web:2", profiles := ["edge"],
      dependsOn := [.structured "db" .healthy, .plain "cache", .structured "db" .started] }
    let cache : Service := { Service.blank with
      process := some "serve", dependsOn := [.structured "db" .completedSuccessfully] }
    let config : Config := ⟨Table.ofList [("cache", cache), ("db", Service.blank), ("web", web)]⟩
    let bindings := [("web", ["db", "cache", "db"]), ("cache", ["db"]), ("db", [])]
    let turns := [Turn.ask (.vertex "web"), .request (.setStatus "db" .started),
      .ask (.childrenWithStatus "web" .started)]
    Agrees (.listed entries) (.configured config) ∧ HeldBy (.configured config) bindings ∧
      ∃ g g' assembly, Graph.build entries = .ok g ∧ config.graph = .ok g' ∧
        (Deployment.uniform g' .stopped).replies turns =
          [.vertex (some ⟨"web", ["cache", "db"], [], ["db", "cache", "db"]⟩), .done, .names ["db"]] ∧
        Assembly.build bindings = .ok assembly ∧ assembly.Shows g := by
  intro entries web cache config bindings turns
  have hagrees : Agrees (.listed entries) (.configured config) := agrees_iff.2 (by decide +kernel)
  have hheld : HeldBy (.configured config) bindings := heldBy_iff.2 ⟨by decide +kernel, by decide +kernel⟩
  refine ⟨hagrees, hheld, ?_⟩
  rcases build_agrees hagrees with ⟨failure, hrefused, -⟩ | ⟨g, g', hbuild, hbuild', hreplies, hheldBy⟩
  · have hsome : (Graph.build entries).toOption.isSome := by decide +kernel
    rw [show Graph.build entries = .error failure from hrefused] at hsome
    cases hsome
  · have hgraph : Graph.build entries = .ok g := hbuild
    obtain ⟨assembly, hassembly, hshows⟩ := hheldBy bindings hheld
    refine ⟨g, g', assembly, hgraph, hbuild', ?_, hassembly, hshows⟩
    rw [← hreplies, Graph.eq_of_build hgraph]
    decide +kernel

end Source

end Rollout
