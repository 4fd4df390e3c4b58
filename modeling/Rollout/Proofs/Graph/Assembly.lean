import Rollout.Proofs.Deployment
import Rollout.Proofs.Graph.Adjacency
import Rollout.Proofs.Graph.Rejection
/-!
Graphs that are put together from a map.  A map holds the declared services in an order of its own, and nothing of that
order shows: dependencies are looked up service by service in the order of the names, so the same one is missed first
(`Assembly.collect_eq_error`), neighbours are kept in order, and a traversal sorts the services that it starts with
(`Assembly.Arranges.shows`).  What comes of it is the graph that the same bindings give as a list (`Assembly.build_eq`).

The edges of a service are those to the names it declares, unless one of them is not bound (`resolve`).  They are all
collected before the first one is entered, and a cycle is looked for after the last one.  What a map shows of a graph is
the answers to its queries and where a traversal begins: the counts of prerequisites in a scope, in the order of the
map, and the services without any, sorted.
-/
namespace Rollout

/-! ## Passes over a list -/

theorem mapM_of_ok {ε α β : Type} {visit : α → Except ε β} {value : α → β} :
    ∀ {l : List α}, (∀ a ∈ l, visit a = .ok (value a)) → l.mapM visit = .ok (l.map value)
  | [], _ => rfl
  | a :: l, h => by
    rw [List.mapM_cons, h a List.mem_cons_self, mapM_of_ok fun b hb => h b (List.mem_cons_of_mem a hb)]
    rfl

theorem mapM_of_error {ε α β : Type} {visit : α → Except ε β} {value : α → β} {before after : List α} {a : α} {e : ε}
    (hbefore : ∀ b ∈ before, visit b = .ok (value b)) (ha : visit a = .error e) :
    (before ++ a :: after).mapM visit = .error e := by
  rw [List.mapM_append, mapM_of_ok hbefore, List.mapM_cons, ha]
  rfl

/-- A graph in a map: what each service declares, in the order of the map, and its neighbours by either end. -/
structure Assembly where
  bindings : List (String × List String)
  adjacency : Adjacency

namespace Assembly

variable {bindings : List (String × List String)} {assembly : Assembly} {g : Graph} {name : String}

/-! ## Putting a graph together -/

def names (bindings : List (String × List String)) : List String := Names.ofList (bindings.map Prod.fst)

def declared (bindings : List (String × List String)) (name : String) : List String :=
  (bindings.lookup name).getD []

def resolve (bindings : List (String × List String)) (name : String) : Except Failure (List (String × String)) :=
  (declared bindings name).mapM fun other =>
    if (bindings.lookup other).isSome then .ok (name, other) else .error (.unknownDependency name other)

def collect (bindings : List (String × List String)) : Except Failure (List (String × String)) :=
  ((names bindings).mapM (resolve bindings)).map List.flatten

def services (assembly : Assembly) : List String := names assembly.bindings

def children (assembly : Assembly) (name : String) : List String := assembly.adjacency.children.getD name []

def parents (assembly : Assembly) (name : String) : List String := assembly.adjacency.parents.getD name []

def cycle? (assembly : Assembly) : Option (List String) := Cycle.find? assembly.services assembly.children

def build (bindings : List (String × List String)) : Except Failure Assembly :=
  match collect bindings with
  | .error failure => .error failure
  | .ok edges =>
    let assembly : Assembly := ⟨bindings, Adjacency.fill (bindings.map Prod.fst) edges⟩
    match assembly.cycle? with
    | some path => .error (.cyclicDependency path)
    | none => .ok assembly

/-! ## What a graph in a map answers -/

def contains (assembly : Assembly) (name : String) : Bool := (assembly.bindings.lookup name).isSome

def roots (assembly : Assembly) : List String := assembly.services.filter fun name => (assembly.parents name).isEmpty

def leaves (assembly : Assembly) : List String := assembly.services.filter fun name => (assembly.children name).isEmpty

def closure (assembly : Assembly) (roots : List String) : Except Failure (List String) :=
  match roots.find? fun name => !assembly.contains name with
  | some name => .error (.serviceNotFound name)
  | none =>
    let fuel := roots.length + (assembly.services.flatMap assembly.parents).length + 1
    let met := Graph.reach assembly.parents fuel roots []
    .ok (assembly.services.filter (· ∈ met))

def prerequisites (assembly : Assembly) : Direction → String → List String
  | .forward => assembly.children
  | .reverse => assembly.parents

/-- The services of a scope in the order of the map, each with the number of its prerequisites in the scope. -/
def slots (assembly : Assembly) (direction : Direction) (scope : List String) : List (String × Nat) :=
  ((assembly.bindings.map Prod.fst).filter (· ∈ scope)).map fun name =>
    (name, ((assembly.prerequisites direction name).filter (· ∈ scope)).length)

def seeds (assembly : Assembly) (direction : Direction) (scope : List String) : List String :=
  Names.ofList (((assembly.slots direction scope).filter fun slot => slot.2 = 0).map Prod.fst)

/-- The map answers as the graph does, and a traversal begins with the same counts and the same services. -/
structure Shows (assembly : Assembly) (g : Graph) : Prop where
  size : assembly.bindings.length = g.size
  contains : ∀ name, assembly.contains name = g.contains name
  services : assembly.services = g.services
  declared : ∀ name, declared assembly.bindings name = g.dependencies name
  children : ∀ name, assembly.children name = g.children name
  parents : ∀ name, assembly.parents name = g.parents name
  roots : assembly.roots = g.roots
  leaves : assembly.leaves = g.leaves
  closure : ∀ roots, assembly.closure roots = g.closure roots
  schedule : ∀ t limit visitor w, Traversal.walk t g limit visitor = .ok w → ∀ statuses callerCancelled,
    Table.ofList (assembly.slots w.direction w.scope) = (State.initial w statuses callerCancelled).unresolved ∧
      assembly.seeds w.direction w.scope = (State.initial w statuses callerCancelled).ready

/-! ## The graph of the same bindings -/

/-- Each service of a graph is bound once, to what it declares. -/
structure Arranges (bindings : List (String × List String)) (g : Graph) : Prop where
  nodup : (bindings.map Prod.fst).Nodup
  declared : Table.ofList bindings = g.declared

namespace Arranges

theorem lookup (h : Arranges bindings g) (name : String) : bindings.lookup name = g.declared.get? name := by
  rw [← h.declared, Table.get?_ofList_of_nodup h.nodup]

theorem declared_eq (h : Arranges bindings g) (name : String) :
    Assembly.declared bindings name = g.dependencies name := by
  unfold Assembly.declared
  rw [h.lookup]
  rfl

theorem mem_names_iff (h : Arranges bindings g) : name ∈ bindings.map Prod.fst ↔ name ∈ g.services := by
  unfold Graph.services
  rw [← h.declared]
  exact Table.mem_keys_ofList.symm

theorem perm_services (h : Arranges bindings g) : (bindings.map Prod.fst).Perm g.services :=
  (List.perm_ext_iff_of_nodup h.nodup g.nodup_services).2 fun _ => h.mem_names_iff

theorem names_eq (h : Arranges bindings g) : names bindings = g.services :=
  Names.ofList_of_perm h.perm_services g.declared.ascending

end Arranges

/-! ### The edges -/

theorem resolve_of_declared (h : Arranges bindings g) (hdeclared : ∀ other ∈ g.dependencies name, other ∈ g.services) :
    resolve bindings name = .ok ((g.dependencies name).map fun other => (name, other)) := by
  unfold resolve
  rw [h.declared_eq]
  refine mapM_of_ok fun other hother => ?_
  rw [h.lookup, if_pos ((g.declared.get?_isSome_iff other).2 (hdeclared other hother))]

theorem collect_eq_ok (h : Arranges bindings g) (hdeclared : g.undeclared? = none) : collect bindings = .ok g.edges := by
  have hresolve : ∀ name ∈ g.services,
      resolve bindings name = .ok ((g.dependencies name).map fun other => (name, other)) := fun name _ =>
    resolve_of_declared h (Graph.undeclared?_eq_none_iff.1 hdeclared name)
  unfold collect
  rw [h.names_eq, mapM_of_ok hresolve, g.edges_eq, List.flatMap_def]
  rfl

/-- **The dependency that is missed first is the one that the graph reports**, whatever the order of the map is. -/
theorem collect_eq_error (h : Arranges bindings g) {service dependency : String}
    (hmissing : g.undeclared? = some (service, dependency)) :
    collect bindings = .error (.unknownDependency service dependency) := by
  obtain ⟨⟨before, after, hlisted, hbefore⟩, hundeclared, hleast⟩ := Graph.undeclared?_eq_some hmissing
  have hservice : service ∈ g.services := by
    rw [Graph.services, ← g.declared.get?_isSome_iff, hlisted]
    rfl
  obtain ⟨earlier, later, hservices⟩ := List.append_of_mem hservice
  have hearlier : ∀ name ∈ earlier, resolve bindings name =
      .ok ((g.dependencies name).map fun other => (name, other)) := fun name hname => by
    refine resolve_of_declared h fun other hother => Decidable.byContradiction fun hnot => ?_
    have hascending : Ascending g.services := g.declared.ascending
    rw [hservices] at hascending
    have hlt := (List.pairwise_append.1 hascending).2.2 name hname service List.mem_cons_self
    exact String.not_lt.2 (hleast name other hother hnot) hlt
  have hfails : resolve bindings service = .error (.unknownDependency service dependency) := by
    unfold resolve declared
    rw [h.lookup, hlisted]
    have hbound : ∀ other ∈ before, (if (bindings.lookup other).isSome then .ok (service, other)
        else .error (.unknownDependency service other) : Except Failure _) = .ok (service, other) := fun other hother => by
      rw [h.lookup, if_pos ((g.declared.get?_isSome_iff other).2 (hbefore other hother))]
    refine mapM_of_error hbound ?_
    rw [h.lookup, if_neg fun hsome => hundeclared ((g.declared.get?_isSome_iff dependency).1 hsome)]
  unfold collect
  rw [h.names_eq, hservices, mapM_of_error hearlier hfails]
  rfl

/-! ### The neighbours -/

theorem Arranges.fill_eq (h : Arranges bindings g) :
    Adjacency.fill (bindings.map Prod.fst) g.edges = Adjacency.ofGraph g := by
  have hblank : Adjacency.blank (bindings.map Prod.fst) = Adjacency.blank g.services := by
    have hrows : Table.ofNames (bindings.map Prod.fst) (fun _ => ([] : List String)) =
        Table.ofNames g.services fun _ => [] := Table.ext_get? fun name => by
      simp only [Table.get?_ofNames, h.mem_names_iff]
    unfold Adjacency.blank
    rw [hrows]
  unfold Adjacency.ofGraph Adjacency.fill
  rw [hblank]

theorem Arranges.cycle?_eq (h : Arranges bindings g) : cycle? ⟨bindings, Adjacency.ofGraph g⟩ = g.cycle? := by
  have hchildren : children ⟨bindings, Adjacency.ofGraph g⟩ = g.children := funext (Adjacency.getD_children_ofGraph g)
  have hservices : services ⟨bindings, Adjacency.ofGraph g⟩ = g.services := h.names_eq
  unfold cycle? Graph.cycle?
  rw [hchildren, hservices]

/-- **Of any order of the map comes the graph of the same bindings**, or the same error. -/
theorem build_eq (h : Arranges bindings g) :
    build bindings = (Graph.build bindings).map fun g => ⟨bindings, Adjacency.ofGraph g⟩ := by
  have hgraph : (⟨Table.ofList bindings⟩ : Graph) = g := congrArg Graph.mk h.declared
  unfold build Graph.build
  rw [hgraph]
  dsimp only
  cases hundeclared : g.undeclared? with
  | some pair =>
    rw [collect_eq_error h hundeclared]
    rfl
  | none =>
    rw [collect_eq_ok h hundeclared]
    dsimp only
    rw [h.fill_eq, h.cycle?_eq]
    cases g.cycle? with
    | some path => rfl
    | none => rfl

/-! ### The answers -/

theorem Arranges.perm_scope (h : Arranges bindings g) {scope : List String} (hscope : Ascending scope)
    (hservices : ∀ name ∈ scope, name ∈ g.services) : ((bindings.map Prod.fst).filter (· ∈ scope)).Perm scope := by
  have hnodup : scope.Nodup := hscope.imp fun {_ _} hlt => Names.ne_of_lt hlt
  refine (List.perm_ext_iff_of_nodup (h.nodup.filter _) hnodup).2 fun name => ?_
  rw [List.mem_filter, decide_eq_true_iff, h.mem_names_iff]
  exact and_iff_right_of_imp (hservices name)

theorem prerequisites_ofGraph (hg : g.Accepted) (direction : Direction) (name : String) :
    prerequisites ⟨bindings, Adjacency.ofGraph g⟩ direction name = direction.prerequisites g name := by
  cases direction with
  | forward => exact Adjacency.getD_children_ofGraph g name
  | reverse => exact Adjacency.getD_parents_ofGraph hg.declared name

theorem Arranges.perm_slots (h : Arranges bindings g) (hg : g.Accepted) {scope : List String} (hscope : Ascending scope)
    (hservices : ∀ name ∈ scope, name ∈ g.services) (direction : Direction) :
    (slots ⟨bindings, Adjacency.ofGraph g⟩ direction scope).Perm
      (scope.map fun name => (name, ((direction.prerequisites g name).filter (· ∈ scope)).length)) := by
  unfold slots
  simp only [prerequisites_ofGraph hg]
  exact (h.perm_scope hscope hservices).map _

/-- **A map shows the graph that it arranges**, whatever its order is. -/
theorem Arranges.shows (h : Arranges bindings g) (hg : g.Accepted) : Shows ⟨bindings, Adjacency.ofGraph g⟩ g := by
  have hchildren : ∀ name, children ⟨bindings, Adjacency.ofGraph g⟩ name = g.children name :=
    Adjacency.getD_children_ofGraph g
  have hparents : ∀ name, parents ⟨bindings, Adjacency.ofGraph g⟩ name = g.parents name :=
    Adjacency.getD_parents_ofGraph hg.declared
  have hservices : services ⟨bindings, Adjacency.ofGraph g⟩ = g.services := h.names_eq
  have hcontains : ∀ name, contains ⟨bindings, Adjacency.ofGraph g⟩ name = g.contains name := fun name => by
    unfold contains
    rw [h.lookup]
    rfl
  refine ⟨?_, hcontains, hservices, h.declared_eq, hchildren, hparents, ?_, ?_, fun roots => ?_, ?_⟩
  · have hlength := h.perm_services.length_eq
    unfold Graph.services Table.keys at hlength
    rwa [List.length_map, List.length_map] at hlength
  · unfold roots Graph.roots
    simp only [hservices, hparents]
  · unfold leaves Graph.leaves
    simp only [hservices, hchildren]
  · have hrows : parents ⟨bindings, Adjacency.ofGraph g⟩ = g.parents := funext hparents
    unfold closure Graph.closure Graph.downstream
    simp only [hcontains]
    cases roots.find? fun name => !g.contains name with
    | some name => rfl
    | none =>
      dsimp only
      rw [hservices, hrows]
  · intro t limit visitor w hwalk statuses callerCancelled
    obtain ⟨scope, hscope, rfl⟩ := Deployment.walk_eq hwalk
    obtain ⟨_, hsame, -, -, hw⟩ := Walk.sound_of_known hg (Traversal.known_of_scope hscope) limit visitor
    obtain rfl := Except.ok.inj (hscope.symm.trans hsame)
    have hslots := h.perm_slots hg hw.ascending hw.services t.direction
    constructor
    · refine Table.ofList_of_perm (hslots.trans (List.Perm.of_eq ?_))
      show _ = (Names.ofList _).map _
      rw [Names.ofList_of_ascending hw.ascending]
      rfl
    · refine Names.ofList_of_perm (((hslots.filter _).map Prod.fst).trans (List.Perm.of_eq ?_)) ?_
      · rw [List.filter_map, List.map_map]
        refine (List.map_id _).trans (List.filter_congr fun name _ => ?_)
        show decide (List.length _ = 0) = List.isEmpty ((t.direction.prerequisites g name).filter (· ∈ scope))
        cases (t.direction.prerequisites g name).filter (· ∈ scope) with
        | nil => rfl
        | cons other others => rfl
      · exact hw.ascending.sublist List.filter_sublist

end Assembly

end Rollout
