import Rollout.Proofs.Graph.Dependency
/-!
Adjacency that is kept at both ends.  It is filled edge by edge: an edge is entered among the children of the service
that depends and among the parents of the one that it depends on.  Each end holds the edges entered so far
(`Adjacency.Holds`), so both stay inverse to each other, and when all edges of a graph are entered they hold what the
graph reads off its declarations (`Adjacency.children_ofGraph`, `Adjacency.parents_ofGraph`).

One end is a table of rows (`Rows`): for each name the names that the edges from there lead to, in ascending order.  A
row is known by its members, so it makes no difference in which order edges are entered, nor how often.  An edge that
begins at a name without a row is not entered at all; in a graph that declares all that it depends on there is no such
edge, at either end.
-/
namespace Rollout

def Graph.edges (g : Graph) : List (String × String) :=
  g.declared.entries.flatMap fun e => e.2.map fun name => (e.1, name)

theorem Graph.edges_eq (g : Graph) :
    g.edges = g.services.flatMap fun name => (g.dependencies name).map fun other => (name, other) := by
  unfold edges
  rw [g.declared.entries_eq_map_keys [], List.flatMap_map]
  rfl

theorem Graph.mem_edges_iff {g : Graph} {a b : String} : (a, b) ∈ g.edges ↔ g.Depends a b := by
  unfold edges
  simp only [List.mem_flatMap, List.mem_map, Prod.mk.injEq]
  constructor
  · rintro ⟨⟨service, names⟩, he, name, hname, rfl, rfl⟩
    exact mem_dependencies_iff.2 ⟨names, g.declared.get?_eq_some_iff.2 he, hname⟩
  · intro hab
    obtain ⟨names, hget, hb⟩ := mem_dependencies_iff.1 hab
    exact ⟨(a, names), g.declared.get?_eq_some_iff.1 hget, b, hb, rfl, rfl⟩

theorem Graph.mem_edges_swap_iff {g : Graph} {a b : String} : (b, a) ∈ g.edges.map Prod.swap ↔ g.Depends a b := by
  rw [← mem_edges_iff, List.mem_map]
  constructor
  · rintro ⟨⟨c, d⟩, h, heq⟩
    obtain ⟨rfl, rfl⟩ := Prod.mk.inj heq
    exact h
  · exact fun h => ⟨(a, b), h, rfl⟩

/-! ## One end -/

/-- For each name, those that the edges from there lead to. -/
abbrev Rows := Table (List String)

namespace Rows

variable {rows : Rows} {names : List String} {edges : List (String × String)} {a b : String} {row : List String}

def enter (rows : Rows) (edge : String × String) : Rows := rows.modify edge.1 (Names.insert edge.2)

structure Hold (rows : Rows) (names : List String) (edges : List (String × String)) : Prop where
  keys : rows.keys = Names.ofList names
  row : ∀ a row, rows.get? a = some row → Ascending row ∧ ∀ b, b ∈ row ↔ (a, b) ∈ edges

theorem hold_blank (names : List String) : Hold (Table.ofNames names fun _ => []) names [] := by
  refine ⟨Table.keys_ofNames names _, fun a row hrow => ?_⟩
  rw [Table.get?_ofNames] at hrow
  split at hrow
  · cases hrow
    exact ⟨List.Pairwise.nil, fun b => by simp⟩
  · cases hrow

theorem Hold.enter (h : Hold rows names edges) (edge : String × String) :
    Hold (rows.enter edge) names (edges ++ [edge]) := by
  obtain ⟨start, stop⟩ := edge
  refine ⟨(Table.keys_modify _ _ _).trans h.keys, fun a row hrow => ?_⟩
  have hlast : ∀ b, (a, b) ∈ edges ++ [(start, stop)] ↔ (a, b) ∈ edges ∨ a = start ∧ b = stop := fun b => by
    rw [List.mem_append, List.mem_singleton, Prod.mk.injEq]
  simp only [hlast]
  unfold Rows.enter at hrow
  rw [Table.get?_modify] at hrow
  split at hrow
  · rename_i hstart
    obtain ⟨old, hold, rfl⟩ := Option.map_eq_some_iff.1 hrow
    obtain ⟨hascending, hmem⟩ := h.row a old hold
    refine ⟨Names.ascending_insert hascending, fun b => ?_⟩
    rw [Names.mem_insert, hmem, or_comm, and_iff_right hstart]
  · rename_i hother
    obtain ⟨hascending, hmem⟩ := h.row a row hrow
    exact ⟨hascending, fun b => (hmem b).trans (or_iff_left fun hb => hother hb.1).symm⟩

theorem Hold.get?_eq (h : Hold rows names edges) (ha : a ∈ names) (hrow : Ascending row)
    (hmem : ∀ b, b ∈ row ↔ (a, b) ∈ edges) : rows.get? a = some row := by
  have hbound : (rows.get? a).isSome := by rwa [Table.get?_isSome_iff, h.keys, Names.mem_ofList]
  obtain ⟨found, hfound⟩ := Option.isSome_iff_exists.1 hbound
  obtain ⟨hascending, hfoundMem⟩ := h.row a found hfound
  rw [hfound, ascending_ext hascending hrow fun b => (hfoundMem b).trans (hmem b).symm]

theorem Hold.getD_eq (h : Hold rows names edges) (hstart : ∀ b, (a, b) ∈ edges → a ∈ names) (hrow : Ascending row)
    (hmem : ∀ b, b ∈ row ↔ (a, b) ∈ edges) : rows.getD a [] = row := by
  unfold Table.getD
  by_cases ha : a ∈ names
  · rw [h.get?_eq ha hrow hmem]
    rfl
  · have hunbound : rows.get? a = none := by rwa [Table.get?_eq_none_iff, h.keys, Names.mem_ofList]
    rw [hunbound]
    exact (List.eq_nil_iff_forall_not_mem.2 fun b hb => ha (hstart b ((hmem b).1 hb))).symm

end Rows

/-! ## Both ends -/

structure Adjacency where
  children : Rows
  parents : Rows

namespace Adjacency

variable {adjacency : Adjacency} {names : List String} {edges : List (String × String)} {g : Graph}

def blank (names : List String) : Adjacency := ⟨Table.ofNames names fun _ => [], Table.ofNames names fun _ => []⟩

def add (adjacency : Adjacency) (edge : String × String) : Adjacency :=
  ⟨adjacency.children.enter edge, adjacency.parents.enter edge.swap⟩

def fill (names : List String) (edges : List (String × String)) : Adjacency := edges.foldl add (blank names)

/-- Both ends hold the same edges. -/
structure Holds (adjacency : Adjacency) (names : List String) (edges : List (String × String)) : Prop where
  children : adjacency.children.Hold names edges
  parents : adjacency.parents.Hold names (edges.map Prod.swap)

/-- **An edge keeps both ends in step.** -/
theorem Holds.add (h : adjacency.Holds names edges) (edge : String × String) :
    (adjacency.add edge).Holds names (edges ++ [edge]) := by
  refine ⟨h.children.enter edge, ?_⟩
  rw [List.map_append]
  exact h.parents.enter edge.swap

theorem Holds.foldl : ∀ (later earlier : List (String × String)) (adjacency : Adjacency),
    adjacency.Holds names earlier → (later.foldl Adjacency.add adjacency).Holds names (earlier ++ later)
  | [], earlier, adjacency, h => by
    rw [List.append_nil]
    exact h
  | edge :: later, earlier, adjacency, h => by
    rw [List.append_cons]
    exact Holds.foldl later (earlier ++ [edge]) (adjacency.add edge) (h.add edge)

theorem holds_fill (names : List String) (edges : List (String × String)) : (fill names edges).Holds names edges :=
  Holds.foldl edges [] (blank names) ⟨Rows.hold_blank names, Rows.hold_blank names⟩

/-! ## Both ends of the edges of a graph -/

def ofGraph (g : Graph) : Adjacency := fill g.services g.edges

theorem children_ofGraph {name : String} (hname : name ∈ g.services) :
    (ofGraph g).children.get? name = some (g.children name) :=
  (holds_fill g.services g.edges).children.get?_eq hname (g.ascending_children name) fun _ =>
    Graph.mem_children_iff.trans Graph.mem_edges_iff.symm

theorem parents_ofGraph {name : String} (hname : name ∈ g.services) :
    (ofGraph g).parents.get? name = some (g.parents name) :=
  (holds_fill g.services g.edges).parents.get?_eq hname (g.ascending_parents name) fun _ =>
    Graph.mem_parents_iff.trans Graph.mem_edges_swap_iff.symm

theorem getD_children_ofGraph (g : Graph) (name : String) : (ofGraph g).children.getD name [] = g.children name :=
  (holds_fill g.services g.edges).children.getD_eq
    (fun _ hedge => Graph.mem_services_of_depends (Graph.mem_edges_iff.1 hedge)) (g.ascending_children name)
    fun _ => Graph.mem_children_iff.trans Graph.mem_edges_iff.symm

theorem getD_parents_ofGraph (hdeclared : ∀ a b, g.Depends a b → b ∈ g.services) (name : String) :
    (ofGraph g).parents.getD name [] = g.parents name :=
  (holds_fill g.services g.edges).parents.getD_eq
    (fun other hedge => hdeclared other name (Graph.mem_edges_swap_iff.1 hedge)) (g.ascending_parents name)
    fun _ => Graph.mem_parents_iff.trans Graph.mem_edges_swap_iff.symm

end Adjacency

end Rollout
