import Rollout.Proofs.Graph.Dependency
import Rollout.Proofs.Graph.Search
/-!
Which entries make a graph.  All that is declared has to be a service, which is asked first, and then no service may
depend on itself.  `build_verdict` says which answer is given when; what was built is `Accepted`.

Entries may repeat a name, and then the last one counts, so what is declared is read off the table of the entries and
not off their list (`AllDeclared`).  `build_cases` is the case split that other modules use: an undeclared name is
reported, and then there is a first service that depends on one; or a cycle is reported, and then it is one; or neither,
and then the graph of the entries is accepted.
-/
namespace Rollout

open Relation (TransGen)

namespace Graph

variable {g : Graph} {entries : List (String × List String)}

/-- Every declared dependency is a service, and no service depends on itself. -/
structure Accepted (g : Graph) : Prop where
  declared : ∀ a b, g.Depends a b → b ∈ g.services
  acyclic : ∀ a, ¬ g.DependsOn a a

/-! ## Undeclared names -/

theorem undeclared?_eq_none_iff : g.undeclared? = none ↔ ∀ a b, g.Depends a b → b ∈ g.services := by
  unfold undeclared?
  simp only [List.findSome?_eq_none_iff, Option.map_eq_none_iff, List.find?_eq_none, Bool.not_eq_true',
    Bool.not_eq_false, contains_iff]
  constructor
  · intro h a b hab
    obtain ⟨names, hget, hb⟩ := mem_dependencies_iff.1 hab
    exact h (a, names) (g.declared.get?_eq_some_iff.1 hget) b hb
  · intro h e he b hb
    exact h e.1 b (mem_dependencies_iff.2 ⟨e.2, g.declared.get?_eq_some_iff.2 he, hb⟩)

/-! ## Cycles -/

theorem step_children_iff {a b : String} : Cycle.Step g.children a b ↔ g.Depends a b := mem_children_iff

theorem transGen_children_iff {a b : String} : TransGen (Cycle.Step g.children) a b ↔ g.DependsOn a b := by
  have heq : Cycle.Step g.children = g.Depends := by
    funext a b
    exact propext step_children_iff
  rw [heq]
  rfl

theorem cycle?_eq_none_iff (h : ∀ a b, g.Depends a b → b ∈ g.services) :
    g.cycle? = none ↔ ∀ a, ¬ g.DependsOn a a := by
  have hclosed : ∀ a ∈ g.services, ∀ b ∈ g.children a, b ∈ g.services := fun a _ b hb => h a b (step_children_iff.1 hb)
  constructor
  · intro hnone a hcycle
    exact Cycle.acyclic_of_find?_eq_none hclosed hnone a (mem_services_of_dependsOn hcycle)
      (transGen_children_iff.2 hcycle)
  · intro hacyclic
    cases hfound : g.cycle? with
    | none => rfl
    | some path =>
      obtain ⟨a, ha⟩ := (Cycle.loop_of_find? hclosed hfound).transGen
      exact absurd (transGen_children_iff.1 ha) (hacyclic a)

/-! ## The three answers -/

def AllDeclared (entries : List (String × List String)) : Prop :=
  ∀ a b, Lists entries a b → b ∈ entries.map Prod.fst

theorem undeclared?_ofEntries_iff :
    undeclared? ⟨Table.ofList entries⟩ = none ↔ AllDeclared entries := by
  rw [undeclared?_eq_none_iff]
  simp only [depends_ofEntries_iff, mem_services_ofEntries]
  rfl

theorem cycle?_ofEntries_iff (h : AllDeclared entries) :
    cycle? ⟨Table.ofList entries⟩ = none ↔ ∀ a, ¬ TransGen (Lists entries) a a := by
  have hlists : Depends ⟨Table.ofList entries⟩ = Lists entries := by
    funext a b
    exact propext depends_ofEntries_iff
  rw [cycle?_eq_none_iff (undeclared?_eq_none_iff.1 (undeclared?_ofEntries_iff.2 h))]
  unfold DependsOn
  rw [hlists]

/-- **What construction answers**, and what is the case then. -/
theorem build_cases (entries : List (String × List String)) :
    (∃ service dependency, build entries = .error (.unknownDependency service dependency) ∧ ¬ AllDeclared entries) ∨
    (∃ path, build entries = .error (.cyclicDependency path) ∧ AllDeclared entries ∧
      ∃ a, TransGen (Lists entries) a a) ∨
    (build entries = .ok ⟨Table.ofList entries⟩ ∧ AllDeclared entries ∧ ∀ a, ¬ TransGen (Lists entries) a a) := by
  unfold build
  dsimp only
  cases hundeclared : undeclared? ⟨Table.ofList entries⟩ with
  | some pair =>
    refine Or.inl ⟨pair.1, pair.2, rfl, fun hall => ?_⟩
    rw [undeclared?_ofEntries_iff.2 hall] at hundeclared
    cases hundeclared
  | none =>
    have hall := undeclared?_ofEntries_iff.1 hundeclared
    cases hcycle : cycle? ⟨Table.ofList entries⟩ with
    | some path =>
      refine Or.inr (Or.inl ⟨path, rfl, hall, ?_⟩)
      by_contra hnone
      rw [(cycle?_ofEntries_iff hall).2 (not_exists.1 hnone)] at hcycle
      cases hcycle
    | none => exact Or.inr (Or.inr ⟨rfl, hall, (cycle?_ofEntries_iff hall).1 hcycle⟩)

theorem eq_of_build (h : build entries = .ok g) : g = ⟨Table.ofList entries⟩ := by
  rcases build_cases entries with ⟨_, _, herror, -⟩ | ⟨_, herror, -⟩ | ⟨hok, -⟩
  · rw [herror] at h
    cases h
  · rw [herror] at h
    cases h
  · exact Except.ok.inj (h.symm.trans hok)

/-- **What is built is accepted.** -/
theorem accepted_of_build (h : build entries = .ok g) : g.Accepted := by
  rcases build_cases entries with ⟨_, _, herror, -⟩ | ⟨_, herror, -, -⟩ | ⟨hok, hall, hacyclic⟩
  · rw [herror] at h
    cases h
  · rw [herror] at h
    cases h
  · rw [hok] at h
    cases h
    have hdeclared := undeclared?_eq_none_iff.1 (undeclared?_ofEntries_iff.2 hall)
    exact ⟨hdeclared, (cycle?_eq_none_iff hdeclared).1 ((cycle?_ofEntries_iff hall).2 hacyclic)⟩

/-- **When a graph is built, and what is wrong when it is not.**  An undeclared name is reported even if there is a
cycle as well; a cycle is found wherever it is. -/
theorem build_verdict (entries : List (String × List String)) :
    ((∃ g, build entries = .ok g) ↔
      (∀ a b, Lists entries a b → b ∈ entries.map Prod.fst) ∧ ∀ a, ¬ TransGen (Lists entries) a a) ∧
    ((∃ service dependency, build entries = .error (.unknownDependency service dependency)) ↔
      ∃ a b, Lists entries a b ∧ b ∉ entries.map Prod.fst) ∧
    ((∃ path, build entries = .error (.cyclicDependency path)) ↔
      (∀ a b, Lists entries a b → b ∈ entries.map Prod.fst) ∧ ∃ a, TransGen (Lists entries) a a) := by
  have hundeclared : (∃ a b, Lists entries a b ∧ b ∉ entries.map Prod.fst) ↔ ¬ AllDeclared entries := by
    simp [AllDeclared]
  rw [hundeclared]
  change (_ ↔ AllDeclared entries ∧ _) ∧ _ ∧ (_ ↔ AllDeclared entries ∧ _)
  rcases build_cases entries with ⟨service, dependency, hbuild, h⟩ | ⟨path, hbuild, hall, hcycle⟩ | ⟨hbuild, hall, h⟩
  · simp [hbuild, h]
  · simp [hbuild, hall, hcycle]
  · simp [hbuild, hall, h]

-- there is a cycle as well
example : build [("a", ["b"]), ("b", ["a", "x"])] = .error (.unknownDependency "b" "x") := by decide +kernel

end Graph

end Rollout
