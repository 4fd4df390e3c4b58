import Rollout.Proofs.Graph.Downstream
/-!
The closure of some roots as a set.  It is the least one that contains the roots and, with a service, all that depends
on it (`Closed`).  So closures can be put together root by root (`closure_append`), and a set that is closed already
stays as it is (`closure_closure`).

A closure fails for one reason only, an unknown root, and it names the first one (`closure_eq_error_iff`), even if
another root covers it.  To add members of the closure to the roots changes nothing, so the order of the roots and their
repeats make no difference either (`closure_eq_of_between`).
-/
namespace Rollout

open Relation (TransGen ReflTransGen)

namespace Graph

variable {g : Graph} {roots more closed other : List String} {name : String} {failure : Failure}

/-- Contains the roots and, with a service, everything that depends on it. -/
structure Closed (g : Graph) (roots : List String) (P : String → Prop) : Prop where
  roots : ∀ root ∈ roots, P root
  dependents : ∀ a b, P a → g.Depends b a → P b

theorem Closed.of_dependsOn {P : String → Prop} (h : g.Closed roots P) {a b : String} (hb : g.DependsOn b a) (ha : P a) :
    P b := by
  unfold DependsOn at hb
  induction hb using TransGen.head_induction_on with
  | single hstep => exact h.dependents a _ ha hstep
  | head hstep _ ih => exact h.dependents _ _ ih hstep

/-! ## When there is a closure -/

theorem closure_eq_ok_iff :
    g.closure roots = .ok closed ↔ (∀ root ∈ roots, root ∈ g.services) ∧ closed = g.downstream roots := by
  have hknown : (roots.find? fun name => !g.contains name) = none ↔ ∀ root ∈ roots, root ∈ g.services := by
    simp [List.find?_eq_none, contains_iff]
  unfold closure
  rw [← hknown]
  cases roots.find? fun name => !g.contains name with
  | none => simp [eq_comm]
  | some unknown => simp

/-- **The first unknown root is named** when there is no closure. -/
theorem closure_eq_error_iff : g.closure roots = .error failure ↔
    ∃ known unknown others, roots = known ++ unknown :: others ∧ (∀ root ∈ known, root ∈ g.services) ∧
      unknown ∉ g.services ∧ failure = .serviceNotFound unknown := by
  unfold closure
  constructor
  · intro h
    cases hfind : roots.find? fun name => !g.contains name with
    | none =>
      rw [hfind] at h
      cases h
    | some unknown =>
      rw [hfind] at h
      obtain ⟨hunknown, known, others, hroots, hknown⟩ := List.find?_eq_some_iff_append.1 hfind
      refine ⟨known, unknown, others, hroots, fun root hroot => ?_, ?_, (Except.error.inj h).symm⟩
      · simpa [contains_iff] using hknown root hroot
      · rw [← contains_iff]
        simpa using hunknown
  · rintro ⟨known, unknown, others, rfl, hknown, hunknown, rfl⟩
    have hfind : ((known ++ unknown :: others).find? fun name => !g.contains name) = some unknown := by
      rw [List.find?_eq_some_iff_append]
      refine ⟨?_, known, others, rfl, fun root hroot => ?_⟩
      · rw [← contains_iff] at hunknown
        simpa using hunknown
      · simpa [contains_iff] using hknown root hroot
    rw [hfind]

/-! ## What is in it -/

theorem ascending_closure (h : g.closure roots = .ok closed) : Ascending closed := by
  rw [(closure_eq_ok_iff.1 h).2]
  exact g.declared.ascending.sublist List.filter_sublist

theorem mem_closure_iff (h : g.closure roots = .ok closed) :
    name ∈ closed ↔ ∃ root ∈ roots, name = root ∨ g.DependsOn name root := by
  obtain ⟨hroots, rfl⟩ := closure_eq_ok_iff.1 h
  exact mem_downstream_iff hroots

theorem mem_services_of_mem_closure (h : g.closure roots = .ok closed) (hname : name ∈ closed) : name ∈ g.services := by
  rw [(closure_eq_ok_iff.1 h).2] at hname
  exact (List.mem_filter.1 hname).1

theorem closed_closure (h : g.closure roots = .ok closed) : g.Closed roots (· ∈ closed) where
  roots := fun root hroot => (mem_closure_iff h).2 ⟨root, hroot, Or.inl rfl⟩
  dependents := fun a b ha hb => by
    obtain ⟨root, hroot, rfl | ha⟩ := (mem_closure_iff h).1 ha
    · exact (mem_closure_iff h).2 ⟨a, hroot, Or.inr (TransGen.single hb)⟩
    · exact (mem_closure_iff h).2 ⟨root, hroot, Or.inr (TransGen.head hb ha)⟩

/-- **The closure is the least set that is closed.** -/
theorem Closed.of_mem_closure {P : String → Prop} (hP : g.Closed roots P) (h : g.closure roots = .ok closed)
    (hname : name ∈ closed) : P name := by
  obtain ⟨root, hroot, rfl | hdep⟩ := (mem_closure_iff h).1 hname
  · exact hP.roots name hroot
  · exact hP.of_dependsOn hdep (hP.roots root hroot)

/-! ## Closures of closures -/

/-- **To add members of the closure to the roots changes nothing**, in whatever order and however often they come. -/
theorem closure_eq_of_between (h : g.closure roots = .ok closed) (hmore : ∀ root ∈ roots, root ∈ more)
    (hinside : ∀ name ∈ more, name ∈ closed) : g.closure more = .ok closed := by
  have hknown : ∀ name ∈ more, name ∈ g.services := fun name hname => mem_services_of_mem_closure h (hinside name hname)
  have hdown : g.closure more = .ok (g.downstream more) := closure_eq_ok_iff.2 ⟨hknown, rfl⟩
  rw [hdown]
  refine congrArg Except.ok (ascending_ext (ascending_closure hdown) (ascending_closure h) fun name => ⟨?_, ?_⟩)
  · exact Closed.of_mem_closure ⟨hinside, (closed_closure h).dependents⟩ hdown
  · refine Closed.of_mem_closure ⟨fun root hroot => ?_, (closed_closure hdown).dependents⟩ h
    exact (closed_closure hdown).roots root (hmore root hroot)

theorem closure_closure (h : g.closure roots = .ok closed) : g.closure closed = .ok closed :=
  closure_eq_of_between h (closed_closure h).roots fun _ => id

theorem closure_append (h : g.closure roots = .ok closed) (hmore : g.closure more = .ok other) :
    g.closure (roots ++ more) = .ok (Names.ofList (closed ++ other)) := by
  have hknown : ∀ root ∈ roots ++ more, root ∈ g.services := fun root hroot =>
    (List.mem_append.1 hroot).elim ((closure_eq_ok_iff.1 h).1 root) ((closure_eq_ok_iff.1 hmore).1 root)
  have hdown : g.closure (roots ++ more) = .ok (g.downstream (roots ++ more)) := closure_eq_ok_iff.2 ⟨hknown, rfl⟩
  rw [hdown]
  refine congrArg Except.ok (ascending_ext (ascending_closure hdown) (Names.ascending_ofList _) fun name => ?_)
  rw [mem_closure_iff hdown, Names.mem_ofList, List.mem_append, mem_closure_iff h, mem_closure_iff hmore]
  simp only [List.mem_append, or_and_right, exists_or]

/-- **The closure of some roots is what can be reached from them.**  There is one if all roots are services, and else
the first one that is not is named.  It holds the roots and what depends on one of them, directly or through others,
which is the least set that is closed. -/
theorem closure_reaches (g : Graph) (roots : List String) :
    ((∃ closed, g.closure roots = .ok closed) ↔ ∀ root ∈ roots, root ∈ g.services) ∧
    (∀ failure, g.closure roots = .error failure ↔
      ∃ known unknown others, roots = known ++ unknown :: others ∧ (∀ root ∈ known, root ∈ g.services) ∧
        unknown ∉ g.services ∧ failure = .serviceNotFound unknown) ∧
    ∀ closed, g.closure roots = .ok closed →
      Ascending closed ∧ (∀ name, name ∈ closed ↔ ∃ root ∈ roots, name = root ∨ g.DependsOn name root) ∧
      (g.Closed roots (· ∈ closed) ∧ ∀ P, g.Closed roots P → ∀ name ∈ closed, P name) ∧
      g.closure closed = .ok closed ∧
      ∀ more other, g.closure more = .ok other →
        g.closure (roots ++ more) = .ok (Names.ofList (closed ++ other)) := by
  refine ⟨?_, fun failure => closure_eq_error_iff, fun closed h => ?_⟩
  · constructor
    · rintro ⟨closed, h⟩
      exact (closure_eq_ok_iff.1 h).1
    · exact fun hknown => ⟨_, closure_eq_ok_iff.2 ⟨hknown, rfl⟩⟩
  · refine ⟨ascending_closure h, fun name => mem_closure_iff h, ⟨closed_closure h, ?_⟩, closure_closure h, ?_⟩
    · exact fun P hP name hname => hP.of_mem_closure h hname
    · exact fun more other hmore => closure_append h hmore

theorem closure_reaches_diamond :
    let diamond : Graph :=
      ⟨Table.ofList [("top", ["left", "right"]), ("left", ["base"]), ("right", ["base"]), ("base", []), ("side", [])]⟩
    diamond.closure ["left", "base", "base"] = .ok ["base", "left", "right", "top"] ∧
      diamond.closure ["base", "left", "right", "top"] = .ok ["base", "left", "right", "top"] ∧
      diamond.closure (["left", "base", "base"] ++ ["side"]) = .ok ["base", "left", "right", "side", "top"] ∧
      diamond.closure ["side", "cache", "queue"] = .error (.serviceNotFound "cache") := by
  intro diamond
  have hbase : diamond.closure ["left", "base", "base"] = .ok ["base", "left", "right", "top"] :=
    closure_eq_ok_iff.2 (by decide +kernel)
  have hside : diamond.closure ["side"] = .ok ["side"] := closure_eq_ok_iff.2 (by decide +kernel)
  obtain ⟨-, -, hclosed⟩ := closure_reaches diamond ["left", "base", "base"]
  obtain ⟨-, -, -, hagain, hunion⟩ := hclosed _ hbase
  refine ⟨hbase, hagain, (hunion _ _ hside).trans (congrArg Except.ok (by decide +kernel)), ?_⟩
  refine ((closure_reaches diamond _).2.1 _).2 ⟨["side"], "cache", ["queue"], rfl, ?_, ?_, rfl⟩
  · decide +kernel
  · decide +kernel

end Graph

end Rollout
