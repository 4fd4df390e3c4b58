import Rollout.Proofs.Graph.Dependency
import Rollout.Closure
/-!
The closure of some roots is what depends on them.  While the worklist is swept, everything met or pending leads to a
root, and the dependents of what is met are met or pending (`Sweep`); each name taken off the list lowers what is still
to be done, so the bound on the number of names is never reached (`sweep_reach`).  `mem_downstream_iff` is the result.

What is still to be done is the length of the worklist and the dependents of all names that are not met yet, put
together (`load`).  A name that is met now pays for its own dependents, and one that has been met before only leaves the
list.
-/
namespace Rollout

open Relation (TransGen ReflTransGen)

namespace Graph

variable {g : Graph} {roots pending met : List String}

/-- What holds between the names of the worklist and those met so far. -/
structure Sweep (g : Graph) (roots pending met : List String) : Prop where
  started : ∀ root ∈ roots, root ∈ met ∨ root ∈ pending
  closed : ∀ a ∈ met, ∀ b, g.Depends b a → b ∈ met ∨ b ∈ pending
  known : ∀ a ∈ pending, a ∈ g.services
  reached : ∀ a, a ∈ met ∨ a ∈ pending → ∃ root ∈ roots, ReflTransGen g.Depends a root

theorem Sweep.skip {name : String} (h : Sweep g roots (name :: pending) met) (hmet : name ∈ met) :
    Sweep g roots pending met := by
  have hcut : ∀ a, a ∈ met ∨ a ∈ name :: pending → a ∈ met ∨ a ∈ pending := fun a ha => by
    rcases ha with ha | ha
    · exact Or.inl ha
    · rcases List.mem_cons.1 ha with rfl | ha
      · exact Or.inl hmet
      · exact Or.inr ha
  exact {
    started := fun root hroot => hcut root (h.started root hroot)
    closed := fun a ha b hb => hcut b (h.closed a ha b hb)
    known := fun a ha => h.known a (List.mem_cons_of_mem _ ha)
    reached := fun a ha => h.reached a (ha.imp_right (List.mem_cons_of_mem _)) }

theorem Sweep.expand {name : String} (h : Sweep g roots (name :: pending) met) :
    Sweep g roots (pending ++ g.parents name) (name :: met) := by
  have hmove : ∀ a, a ∈ met ∨ a ∈ name :: pending → a ∈ name :: met ∨ a ∈ pending ++ g.parents name := fun a ha => by
    rcases ha with ha | ha
    · exact Or.inl (List.mem_cons_of_mem _ ha)
    · rcases List.mem_cons.1 ha with rfl | ha
      · exact Or.inl List.mem_cons_self
      · exact Or.inr (List.mem_append_left _ ha)
  refine ⟨fun root hroot => hmove root (h.started root hroot), fun a ha b hb => ?_, fun a ha => ?_, fun a ha => ?_⟩
  · rcases List.mem_cons.1 ha with rfl | ha
    · exact Or.inr (List.mem_append_right _ (mem_parents_iff.2 hb))
    · exact hmove b (h.closed a ha b hb)
  · rcases List.mem_append.1 ha with ha | ha
    · exact h.known a (List.mem_cons_of_mem _ ha)
    · exact mem_services_of_depends (mem_parents_iff.1 ha)
  · have hname := h.reached name (Or.inr List.mem_cons_self)
    rcases ha with ha | ha
    · rcases List.mem_cons.1 ha with rfl | ha
      · exact hname
      · exact h.reached a (Or.inl ha)
    · rcases List.mem_append.1 ha with ha | ha
      · exact h.reached a (Or.inr (List.mem_cons_of_mem _ ha))
      · obtain ⟨root, hroot, hpath⟩ := hname
        exact ⟨root, hroot, ReflTransGen.head (mem_parents_iff.1 ha) hpath⟩

/-! ## What is still to be done -/

/-- The dependents of the names that are not met yet, put together. -/
def load (g : Graph) (names met : List String) : Nat := ((names.filter (· ∉ met)).flatMap g.parents).length

theorem load_nil (names : List String) : load g names [] = (names.flatMap g.parents).length := by
  unfold load
  rw [List.filter_eq_self.2 (by simp)]

theorem load_cons_of_not_mem (name : String) : ∀ names : List String, name ∉ names →
    load g names (name :: met) = load g names met
  | [], _ => rfl
  | n :: names, h => by
    have hne : n ≠ name := fun heq => h (heq ▸ List.mem_cons_self)
    have ih := load_cons_of_not_mem name names (List.not_mem_of_not_mem_cons h)
    unfold load at ih ⊢
    by_cases hn : n ∈ met
    · simpa [List.filter_cons, hn] using ih
    · simpa [List.filter_cons, hn, hne] using ih

theorem load_cons (name : String) (hnew : name ∉ met) : ∀ names : List String, names.Nodup → name ∈ names →
    load g names (name :: met) + (g.parents name).length = load g names met
  | [], _, h => absurd h List.not_mem_nil
  | n :: names, hnd, h => by
    obtain ⟨hn, hnd⟩ := List.nodup_cons.1 hnd
    by_cases heq : n = name
    · subst heq
      have hrest : load g names (n :: met) = load g names met := load_cons_of_not_mem n names hn
      unfold load at hrest ⊢
      simp only [List.filter_cons, List.mem_cons, true_or, not_true_eq_false, decide_false, Bool.false_eq_true,
        if_false, hnew, not_false_eq_true, decide_true, if_true, List.flatMap_cons, List.length_append]
      simp only [List.mem_cons] at hrest
      omega
    · have ih := load_cons name hnew names hnd ((List.mem_cons.1 h).resolve_left (Ne.symm heq))
      unfold load at ih ⊢
      by_cases hmet : n ∈ met
      · simpa [List.filter_cons, hmet] using ih
      · simp only [List.mem_cons] at ih
        simp only [List.filter_cons, List.mem_cons, heq, hmet, or_self, not_false_eq_true, decide_true, if_true,
          List.flatMap_cons, List.length_append]
        omega

/-- **The worklist is swept to its end.** -/
theorem sweep_reach : ∀ (fuel : Nat) (pending met : List String), Sweep g roots pending met →
    pending.length + load g g.services met < fuel → Sweep g roots [] (reach g.parents fuel pending met)
  | 0, _, _, _, hfuel => absurd hfuel (Nat.not_lt_zero _)
  | fuel + 1, [], met, h, _ => h
  | fuel + 1, name :: pending, met, h, hfuel => by
    unfold reach
    simp only [List.length_cons] at hfuel
    by_cases hmet : name ∈ met
    · rw [if_pos hmet]
      exact sweep_reach fuel pending met (h.skip hmet) (by omega)
    · rw [if_neg hmet]
      have hload := load_cons (g := g) name hmet g.services g.nodup_services (h.known name List.mem_cons_self)
      refine sweep_reach fuel _ _ h.expand ?_
      rw [List.length_append]
      omega

/-! ## The closure -/

/-- **The closure of known roots** holds the roots and what depends on one of them. -/
theorem mem_downstream_iff (hroots : ∀ root ∈ roots, root ∈ g.services) {name : String} :
    name ∈ g.downstream roots ↔ ∃ root ∈ roots, name = root ∨ g.DependsOn name root := by
  have hstart : Sweep g roots roots [] :=
    ⟨fun _ => Or.inr, by simp, hroots, fun a ha => ⟨a, by simpa using ha, ReflTransGen.refl⟩⟩
  have hend := sweep_reach (roots.length + (g.services.flatMap g.parents).length + 1) roots [] hstart
    (by rw [load_nil]; omega)
  have hpath : ∀ root, ReflTransGen g.Depends name root ↔ name = root ∨ g.DependsOn name root := fun root => by
    rw [Relation.reflTransGen_iff_eq_or_transGen, eq_comm]
    rfl
  unfold downstream
  simp only [List.mem_filter, decide_eq_true_eq, ← hpath]
  constructor
  · rintro ⟨-, hmet⟩
    exact hend.reached name (Or.inl hmet)
  · rintro ⟨root, hroot, hreach⟩
    refine ⟨?_, ?_⟩
    · rcases (hpath root).1 hreach with rfl | hdep
      · exact hroots name hroot
      · exact mem_services_of_dependsOn hdep
    · -- from the root back to the name: each step stays inside what was met
      clear hpath
      induction hreach using ReflTransGen.head_induction_on with
      | refl => exact (hend.started root hroot).resolve_right List.not_mem_nil
      | head hstep _ ih => exact (hend.closed _ ih _ hstep).resolve_right List.not_mem_nil

end Graph

end Rollout
