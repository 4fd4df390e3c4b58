import Mathlib.Data.List.Forall2
import Rollout.Proofs.Graph.Acceptance
import Rollout.Proofs.Names
/-!
What a refused graph is refused for.  A reported cycle is a closed path of direct dependencies (`Circular`), whatever
the search had walked through before it met one.  A reported name is the first that nobody declares, in the order of the
services and then of what the service lists (`FirstUndeclared`).  The search takes what a service lists as a set, so a
list that is worded otherwise makes no difference to the cycle (`cycle?_congr`).

The two reports are told apart by the order in which construction asks: an undeclared name comes first, even if there is
a cycle as well.  It depends on the wording of the lists, since the first such name of a service is meant; the cycle
does not, since the search goes through the children of a service in the order of their names (`build_eq_cyclic_congr`).
-/
namespace Rollout

/-! ## Entries -/

variable {entries reworded : List (String × List String)} {e : String × List String} {a b : String}

theorem mem_names_of_lists (h : Lists entries a b) : a ∈ entries.map Prod.fst :=
  Graph.mem_services_ofEntries.1 (Graph.mem_services_of_depends (Graph.depends_ofEntries_iff.2 h))

theorem lists_cons_iff :
    Lists (e :: entries) a b ↔ Lists entries a b ∨ e.1 = a ∧ b ∈ e.2 ∧ a ∉ entries.map Prod.fst := by
  constructor
  · rintro ⟨earlier, names, later, heq, hlater, hb⟩
    cases earlier with
    | nil =>
      obtain ⟨rfl, rfl⟩ := List.cons.inj heq
      exact Or.inr ⟨rfl, hb, by simpa using fun x hx => hlater (a, x) hx rfl⟩
    | cons _ earlier => exact Or.inl ⟨earlier, names, later, (List.cons.inj heq).2, hlater, hb⟩
  · rintro (⟨earlier, names, later, rfl, hlater, hb⟩ | ⟨rfl, hb, hlast⟩)
    · exact ⟨e :: earlier, names, later, rfl, hlater, hb⟩
    · exact ⟨[], e.2, entries, rfl, fun e' he' heq => hlast (heq ▸ List.mem_map_of_mem he'), hb⟩

/-- The same entries one by one, with what each lists in another order or repeated. -/
def Reworded : List (String × List String) → List (String × List String) → Prop :=
  List.Forall₂ fun e e' => e.1 = e'.1 ∧ ∀ name, name ∈ e.2 ↔ name ∈ e'.2

theorem Reworded.names (h : Reworded entries reworded) : reworded.map Prod.fst = entries.map Prod.fst := by
  induction h with
  | nil => rfl
  | cons hhead _ ih => rw [List.map_cons, List.map_cons, ih, hhead.1]

theorem Reworded.lists (h : Reworded entries reworded) : Lists reworded a b ↔ Lists entries a b := by
  induction h with
  | nil => exact Iff.rfl
  | cons hhead htail ih =>
    have hnames := Reworded.names htail
    rw [lists_cons_iff, lists_cons_iff, ih, hhead.1, hhead.2, hnames]

namespace Graph

variable {g t : Graph} {service dependency : String} {path : List String}

/-! ## Cycles -/

/-- A closed path of direct dependencies that meets no other service twice. -/
structure Circular (entries : List (String × List String)) (path : List String) : Prop where
  two_le : 2 ≤ path.length
  closed : path.head? = path.getLast?
  distinct : path.dropLast.Nodup
  declared : ∀ name ∈ path, name ∈ entries.map Prod.fst
  depends : path.IsChain (Lists entries)

theorem exists_next_of_isChain {R : String → String → Prop} {last : String} {names : List String}
    (h : (names ++ [last]).IsChain R) (ha : a ∈ names) : ∃ b, R a b := by
  obtain ⟨before, after, rfl⟩ := List.append_of_mem ha
  rw [List.append_assoc, List.cons_append, List.isChain_append] at h
  cases after with
  | nil => exact ⟨last, (List.isChain_cons_cons.1 h.2.1).1⟩
  | cons next after => exact ⟨next, (List.isChain_cons_cons.1 h.2.1).1⟩

theorem circular_of_loop (h : Cycle.Loop (children ⟨Table.ofList entries⟩) path) : Circular entries path := by
  obtain ⟨back, between, rfl, hnodup, hchain⟩ := h
  have hdepends : (back :: between ++ [back]).IsChain (Lists entries) :=
    hchain.imp fun _ _ hstep => depends_ofEntries_iff.1 (step_children_iff.1 hstep)
  have hdeclared : ∀ name ∈ back :: between, name ∈ entries.map Prod.fst := fun name hname => by
    obtain ⟨next, hnext⟩ := exists_next_of_isChain hdepends hname
    exact mem_names_of_lists hnext
  refine ⟨by simp, ?_, ?_, fun name hname => ?_, hdepends⟩
  · rw [List.getLast?_concat, List.cons_append, List.head?_cons]
  · rwa [List.dropLast_concat]
  · rcases List.mem_append.1 hname with hname | hname
    · exact hdeclared name hname
    · exact List.mem_singleton.1 hname ▸ hdeclared back List.mem_cons_self

/-- **The cycle that is reported depends on the dependency relation only.** -/
theorem cycle?_congr (hservices : t.services = g.services) (hdepends : ∀ a b, t.Depends a b ↔ g.Depends a b) :
    t.cycle? = g.cycle? := by
  have hchildren : t.children = g.children := funext fun name =>
    ascending_ext (t.ascending_children name) (g.ascending_children name) fun other =>
      mem_children_iff.trans ((hdepends name other).trans mem_children_iff.symm)
  unfold cycle?
  rw [hservices, hchildren]

theorem build_eq_cyclic_iff : build entries = .error (.cyclicDependency path) ↔
    AllDeclared entries ∧ cycle? ⟨Table.ofList entries⟩ = some path := by
  rw [← undeclared?_ofEntries_iff]
  unfold build
  dsimp only
  cases undeclared? ⟨Table.ofList entries⟩ with
  | some pair => simp
  | none => cases cycle? ⟨Table.ofList entries⟩ <;> simp

theorem build_eq_cyclic_congr (h : Reworded entries reworded) :
    build reworded = .error (.cyclicDependency path) ↔ build entries = .error (.cyclicDependency path) := by
  have hservices : services ⟨Table.ofList reworded⟩ = services ⟨Table.ofList entries⟩ := by
    refine ascending_ext (Table.ascending_keys _) (Table.ascending_keys _) fun name => ?_
    refine mem_services_ofEntries.trans ?_
    rw [h.names]
    exact mem_services_ofEntries.symm
  have hcycle := cycle?_congr hservices fun a b =>
    depends_ofEntries_iff.trans (h.lists.trans depends_ofEntries_iff.symm)
  have hall : AllDeclared reworded ↔ AllDeclared entries := by
    unfold AllDeclared
    simp only [h.lists, h.names]
  rw [build_eq_cyclic_iff, build_eq_cyclic_iff, hcycle, hall]

/-! ## Undeclared names -/

/-- `service` is the first, by the bytes of its name, that lists something undeclared, and `dependency` is the first
such name in its list. -/
structure FirstUndeclared (entries : List (String × List String)) (service dependency : String) : Prop where
  first : ∃ before after, Counts entries service (before ++ dependency :: after) ∧
    ∀ name ∈ before, name ∈ entries.map Prod.fst
  undeclared : dependency ∉ entries.map Prod.fst
  least : ∀ other name, Lists entries other name → name ∉ entries.map Prod.fst →
    Names.bytes service ≤ Names.bytes other

theorem undeclared?_eq_some (h : g.undeclared? = some (service, dependency)) :
    (∃ before after, g.declared.get? service = some (before ++ dependency :: after) ∧
      ∀ name ∈ before, name ∈ g.services) ∧
      dependency ∉ g.services ∧ ∀ other name, g.Depends other name → name ∉ g.services → service ≤ other := by
  obtain ⟨earlier, ⟨found, listed⟩, later, hentries, hfound, hearlier⟩ := List.findSome?_eq_some_iff.1 h
  obtain ⟨name, hname, heq⟩ := Option.map_eq_some_iff.1 hfound
  obtain ⟨rfl, rfl⟩ := Prod.mk.inj heq
  obtain ⟨hundeclared, before, after, hlisted, hbefore⟩ := List.find?_eq_some_iff_append.1 hname
  refine ⟨⟨before, after, ?_, fun name hname => ?_⟩, ?_, fun other name hdepends hnot => ?_⟩
  · rw [g.declared.get?_eq_some_iff, hentries, ← hlisted]
    exact List.mem_append_right earlier List.mem_cons_self
  · simpa [contains_iff] using hbefore name hname
  · rw [← contains_iff]
    simpa using hundeclared
  · obtain ⟨names, hget, hin⟩ := mem_dependencies_iff.1 hdepends
    have hentry := g.declared.get?_eq_some_iff.1 hget
    have hascending : (g.declared.entries.map Prod.fst).Pairwise (· < ·) := g.declared.ascending
    rw [hentries] at hentry
    rw [hentries, List.map_append, List.map_cons, List.pairwise_append, List.pairwise_cons] at hascending
    rcases List.mem_append.1 hentry with hentry | hentry
    · have hnone := List.find?_eq_none.1 (Option.map_eq_none_iff.1 (hearlier _ hentry)) name hin
      exact absurd (by simpa [contains_iff] using hnone) hnot
    · rcases List.mem_cons.1 hentry with hentry | hentry
      · cases hentry
        exact String.le_refl _
      · have hlt := hascending.2.1.1 other (List.mem_map_of_mem hentry)
        exact String.not_lt.1 (String.lt_asymm hlt)

theorem build_eq_unknown_iff : build entries = .error (.unknownDependency service dependency) ↔
    undeclared? ⟨Table.ofList entries⟩ = some (service, dependency) := by
  unfold build
  dsimp only
  cases undeclared? ⟨Table.ofList entries⟩ with
  | some pair => simp [Prod.ext_iff]
  | none => cases cycle? ⟨Table.ofList entries⟩ <;> simp

theorem firstUndeclared_of_undeclared? (h : undeclared? ⟨Table.ofList entries⟩ = some (service, dependency)) :
    FirstUndeclared entries service dependency := by
  obtain ⟨⟨before, after, hcounts, hbefore⟩, hundeclared, hleast⟩ := undeclared?_eq_some h
  refine ⟨⟨before, after, counts_iff.2 hcounts, fun name hname => ?_⟩, ?_, fun other name hlists hnot => ?_⟩
  · exact mem_services_ofEntries.1 (hbefore name hname)
  · exact fun hdeclared => hundeclared (mem_services_ofEntries.2 hdeclared)
  · rw [Names.bytes_le_iff]
    exact hleast other name (depends_ofEntries_iff.2 hlists) fun hin => hnot (mem_services_ofEntries.1 hin)

/-! ## The two errors -/

/-- **What construction reports is there.**  A refused graph is refused for a cycle that it reports, which is one of
distinct services, or for the first name that is undeclared.  The cycle stays the same when what the services list is
put in another order or repeated. -/
theorem build_error_genuine (entries : List (String × List String)) :
    (∀ failure, build entries = .error failure →
      (∃ path, failure = .cyclicDependency path ∧ Circular entries path) ∨
        ∃ service dependency, failure = .unknownDependency service dependency ∧
          FirstUndeclared entries service dependency) ∧
    ∀ reworded, Reworded entries reworded → ∀ path,
      build reworded = .error (.cyclicDependency path) ↔ build entries = .error (.cyclicDependency path) := by
  refine ⟨fun failure hbuild => ?_, fun reworded hreworded path => ?_⟩
  · rcases build_cases entries with ⟨service, dependency, herror, -⟩ | ⟨path, herror, hall, -⟩ | ⟨hok, -⟩
    · obtain rfl := Except.error.inj (herror.symm.trans hbuild)
      exact Or.inr ⟨service, dependency, rfl, firstUndeclared_of_undeclared? (build_eq_unknown_iff.1 hbuild)⟩
    · obtain rfl := Except.error.inj (herror.symm.trans hbuild)
      have hclosed := undeclared?_eq_none_iff.1 (undeclared?_ofEntries_iff.2 hall)
      have hloop := Cycle.loop_of_find? (fun a _ b hb => hclosed a b (step_children_iff.1 hb))
        (build_eq_cyclic_iff.1 hbuild).2
      exact Or.inl ⟨path, rfl, circular_of_loop hloop⟩
    · rw [hok] at hbuild
      cases hbuild
  · exact build_eq_cyclic_congr hreworded

theorem build_error_genuine_behind :
    let cyclic := [("a", ["b"]), ("b", ["c", "d"]), ("c", ["d"]), ("d", ["b"])]
    let missing := [("c", ["y"]), ("b", ["a", "x", "y"]), ("a", ["b"])]
    Circular cyclic ["b", "c", "d", "b"] ∧
      build [("a", ["b", "b"]), ("b", ["d", "c", "d"]), ("c", ["d"]), ("d", ["b"])] =
        .error (.cyclicDependency ["b", "c", "d", "b"]) ∧
      FirstUndeclared missing "b" "x" := by
  intro cyclic missing
  have hcycle : build cyclic = .error (.cyclicDependency ["b", "c", "d", "b"]) := by decide +kernel
  have hmissing : build missing = .error (.unknownDependency "b" "x") := by decide +kernel
  obtain ⟨hgenuine, hreworded⟩ := build_error_genuine cyclic
  refine ⟨?_, (hreworded _ ?_ _).2 hcycle, ?_⟩
  · rcases hgenuine _ hcycle with ⟨path, heq, hcircular⟩ | ⟨_, _, heq, -⟩
    · cases heq
      exact hcircular
    · cases heq
  · simp [Reworded, cyclic, or_comm]
  · rcases (build_error_genuine missing).1 _ hmissing with ⟨_, heq, -⟩ | ⟨_, _, heq, hfirst⟩
    · cases heq
    · cases heq
      exact hfirst

end Graph

end Rollout
