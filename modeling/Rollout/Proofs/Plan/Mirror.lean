import Rollout.Proofs.Plan.Making
/-!
Bring-up and tear-down mirror each other.  What a service waits for in the one direction waits for it in the other, so a
service that is above `n` waves in one plan has at least `n` waves above it in the other (`Layered.add_le_highest`).  So
both plans are equally high, though they are made by runs that know nothing of each other (`Layered.highest_eq`), and
the two waves of a service add up to one more than that at most (`Layered.add_le`).  `up_down_mirror` says it of what is
printed.

All of this is said of two layered plans of traversals that cover the same services and go opposite ways
(`Traversal.Mirrors`).  That the first waves are the leaves and the roots is said of one plan of the whole graph: the
first wave waits for nothing (`Layered.members_one`).
-/
namespace Rollout

open Relation (TransGen)

variable {g : Graph} {a b : String}

/-! ## Traversals that mirror each other -/

/-- Two traversals cover the same services, and go opposite ways. -/
structure Traversal.Mirrors (t t' : Traversal) (g : Graph) : Prop where
  covers : ∀ name, t'.Covers g name ↔ t.Covers g name
  requires : ∀ a b, t'.direction.Requires g b a ↔ t.direction.Requires g a b

namespace Traversal

variable {t t' : Traversal}

theorem Mirrors.symm (h : t.Mirrors t' g) : t'.Mirrors t g :=
  ⟨fun name => (h.covers name).symm, fun a b => (h.requires b a).symm⟩

theorem inDependencyOrder_mirrors (g : Graph) : inDependencyOrder.Mirrors inReverseDependencyOrder g :=
  ⟨fun _ => Iff.rfl, fun _ _ => Iff.rfl⟩

end Traversal

namespace Plan

variable {p q : Plan} {t t' : Traversal} {name : String} {n m : Nat}

theorem mem_members_iff_of_wave (h : p.wave.get? name = some n) {wave : Nat} : name ∈ p.members wave ↔ wave = n := by
  rw [mem_members_iff, h, Option.some_inj, eq_comm]

namespace Layered

/-! ## The heights of two plans -/

/-- **What is above `n` waves in one plan has at least `n` waves above it in the other.** -/
theorem add_le_highest (hp : p.Layered t g) (hq : q.Layered t' g) (h : t.Mirrors t' g) :
    ∀ (n m : Nat) (name : String), p.wave.get? name = some (n + 1) → q.wave.get? name = some m → n + m ≤ q.highest
  | 0, m, name, _, hm => by
    rw [Nat.zero_add]
    exact le_foldl_max (mem_values_iff.2 ⟨name, hm⟩)
  | n + 1, m, name, hn, hm => by
    -- a step down in `p` is a step up in `q`
    obtain ⟨below, hrequires, hbelow⟩ := hp.exists_requires hn
    obtain ⟨k, hk⟩ := hq.exists_wave ((h.covers below).2 (hp.covered hbelow))
    have hup : m < k := hq.lt_of_requires hk hm ((h.requires name below).2 hrequires)
    have hrest : n + k ≤ q.highest := add_le_highest hp hq h n k below hbelow hk
    omega

/-- **The waves of a service in both plans add up to one more than their height at most.** -/
theorem add_le (hp : p.Layered t g) (hq : q.Layered t' g) (h : t.Mirrors t' g) (hn : p.wave.get? name = some n)
    (hm : q.wave.get? name = some m) : n + m ≤ q.highest + 1 := by
  obtain ⟨below, rfl⟩ := Nat.exists_eq_succ_of_ne_zero (hp.pos hn).ne'
  have hsum : below + m ≤ q.highest := hp.add_le_highest hq h below m name hn hm
  omega

theorem highest_le (hp : p.Layered t g) (hq : q.Layered t' g) (h : t.Mirrors t' g) : p.highest ≤ q.highest := by
  rcases Nat.eq_zero_or_pos p.highest with hzero | hpos
  · rw [hzero]
    exact Nat.zero_le _
  obtain ⟨name, hname⟩ := hp.exists_of_le_highest hpos le_rfl
  obtain ⟨m, hm⟩ := hq.exists_wave ((h.covers name).2 (hp.covered hname))
  have hsum : p.highest + m ≤ q.highest + 1 := hp.add_le hq h hname hm
  have hfirst : 0 < m := hq.pos hm
  omega

/-- **Plans that mirror each other are equally high.** -/
theorem highest_eq (hp : p.Layered t g) (hq : q.Layered t' g) (h : t.Mirrors t' g) : p.highest = q.highest :=
  Nat.le_antisymm (hp.highest_le hq h) (hq.highest_le hp h.symm)

theorem services_eq_of_mirrors (hp : p.Layered t g) (hq : q.Layered t' g) (h : t.Mirrors t' g) :
    p.services = q.services :=
  ascending_ext p.wave.ascending q.wave.ascending fun name =>
    (hp.services name).trans ((h.covers name).symm.trans (hq.services name).symm)

/-! ## One plan of the whole graph -/

theorem lt_of_transGen (h : p.Layered t g) (hclosed : ∀ a b, t.Covers g a → t.direction.Requires g a b → t.Covers g b)
    (hab : TransGen (t.direction.Requires g) a b) (hb : p.wave.get? b = some m) :
    ∀ n, p.wave.get? a = some n → m < n := by
  induction hab using TransGen.head_induction_on with
  | single hab => exact fun n ha => h.lt_of_requires ha hb hab
  | head hac _ ih =>
    intro n ha
    obtain ⟨k, hc⟩ := h.exists_wave (hclosed _ _ (h.covered ha) hac)
    exact (ih k hc).trans (h.lt_of_requires ha hc hac)

/-- **The first wave waits for nothing.** -/
theorem members_one (hg : g.Accepted) (h : p.Layered t g) (hwhole : ∀ name, t.Covers g name ↔ name ∈ g.services) :
    p.members 1 = g.services.filter fun name => (t.direction.prerequisites g name).isEmpty := by
  refine ascending_ext (ascending_members p 1) (g.declared.ascending.sublist List.filter_sublist) fun name => ?_
  rw [mem_members_iff, List.mem_filter, List.isEmpty_iff, List.eq_nil_iff_forall_not_mem]
  constructor
  · refine fun hname => ⟨(hwhole name).1 (h.covered hname), fun b hb => ?_⟩
    have hrequires := Direction.mem_prerequisites_iff.1 hb
    obtain ⟨m, hm⟩ := h.exists_wave ((hwhole b).2 (Direction.mem_services_of_requires hg hrequires))
    exact absurd (h.lt_of_requires hname hm hrequires) (Nat.not_lt.2 (h.pos hm))
  · rintro ⟨hname, hnone⟩
    obtain ⟨n, hn⟩ := h.exists_wave ((hwhole name).2 hname)
    match n, hn with
    | 0, hn => exact absurd (h.pos hn) (Nat.lt_irrefl 0)
    | 1, hn => exact hn
    | n + 2, hn =>
      obtain ⟨b, hrequires, -⟩ := h.exists_requires hn
      exact absurd (Direction.mem_prerequisites_iff.2 hrequires) (hnone b)

end Layered

/-! ## Bring-up and tear-down -/

/-- **Bring-up and tear-down mirror each other**, whatever limits they are planned under.  Both plans hold all services,
in equally many waves.  The two waves of a service add up to one more than that at most.  What is brought up first are
the leaves and what is torn down first the roots, as a check prints them; and of two services of which one depends on
the other, directly or not, the one is brought up later and torn down earlier. -/
theorem up_down_mirror {c : Config} (hg : c.graph = .ok g) :
    ∃ (up down : Plan) (k : Nat),
      (∀ limit, ofGraph g .up limit false = .made up ∧ ofGraph g .down limit false = .made down) ∧
      (∀ parallel : Option Nat, (∀ n ∈ parallel, n ≤ Limit.most) →
        (Command.plan .up).run c parallel false = .printed (up.overview "Bring-up order:") ∧
          (Command.plan .down).run c parallel false = .printed (down.overview "Tear-down order:")) ∧
      (up.services = g.services ∧ down.services = g.services) ∧
      (up.waves = List.range' 1 k ∧ down.waves = List.range' 1 k) ∧
      (∀ name ∈ g.services, ∃ n m, (∀ wave, name ∈ up.members wave ↔ wave = n) ∧
        (∀ wave, name ∈ down.members wave ↔ wave = m) ∧ n + m ≤ k + 1) ∧
      (up.members 1 = g.leaves ∧ down.members 1 = g.roots) ∧
      (g.isEmpty = false → ∀ parallel callerCancelled, Command.check.run c parallel callerCancelled = .printed
        (.status "Dependencies:" :: (Text.lines g.display).map (fun line => .status ("  " ++ line)) ++
          [.status ("Roots:  " ++ ", ".intercalate (down.members 1)),
            .status ("Leaves: " ++ ", ".intercalate (up.members 1)),
            .success ("Dependency graph is valid (" ++ toString g.size ++ " services)")])) ∧
      ∀ a b, g.DependsOn a b → ∀ n m, (a ∈ up.members n → b ∈ up.members m → m < n) ∧
        (a ∈ down.members n → b ∈ down.members m → n < m) := by
  have haccepted : g.Accepted := Graph.accepted_of_build hg
  obtain ⟨up, hup, hmakesUp⟩ := exists_layered_forall (o := .up) hg nofun
  obtain ⟨down, hdown, hmakesDown⟩ := exists_layered_forall (o := .down) hg nofun
  have hmirror := Traversal.inDependencyOrder_mirrors g
  have hheight : up.highest = down.highest := hup.highest_eq hdown hmirror
  have hall : up.services = g.services := ascending_ext up.wave.ascending g.declared.ascending hup.services
  have hleaves : up.members 1 = g.leaves := hup.members_one haccepted fun _ => Iff.rfl
  have hroots : down.members 1 = g.roots := hdown.members_one haccepted fun _ => Iff.rfl
  refine ⟨up, down, up.highest, fun limit => ⟨hmakesUp limit, hmakesDown limit⟩, fun parallel hparallel => ?_,
    ⟨hall, (hup.services_eq_of_mirrors hdown hmirror).symm.trans hall⟩, ⟨hup.waves_eq, hheight ▸ hdown.waves_eq⟩,
    fun name hname => ?_, ⟨hleaves, hroots⟩, fun hsome parallel callerCancelled => ?_, fun a b hab n m => ⟨?_, ?_⟩⟩
  · exact ⟨run_of_made hg hmakesUp hparallel, run_of_made hg hmakesDown hparallel⟩
  · obtain ⟨n, hn⟩ := hup.exists_wave hname
    obtain ⟨m, hm⟩ := hdown.exists_wave hname
    refine ⟨n, m, fun wave => mem_members_iff_of_wave hn, fun wave => mem_members_iff_of_wave hm, ?_⟩
    rw [hheight]
    exact hup.add_le hdown hmirror hn hm
  · rw [Command.run_check hg, Graph.overview_of_not_isEmpty hsome, hleaves, hroots]
  · rw [mem_members_iff, mem_members_iff]
    exact fun ha hb => hup.lt_of_transGen (fun _ b _ => haccepted.declared _ b) hab hb n ha
  · rw [mem_members_iff, mem_members_iff]
    intro ha hb
    have hback : TransGen (Direction.reverse.Requires g) b a := Relation.transGen_swap.2 hab
    exact hdown.lt_of_transGen (fun _ _ _ => Graph.mem_services_of_depends) hback ha m hb

theorem up_down_mirror_pair : ∃ up down : Plan,
    (∀ limit, ofGraph Deployment.pair.graph .up limit false = .made up ∧
      ofGraph Deployment.pair.graph .down limit false = .made down) ∧
    up.members 1 = ["db"] ∧ down.members 1 = ["api"] ∧ ∀ n, "db" ∈ down.members n → 1 < n := by
  obtain ⟨up, down, -, hmade, -, -, -, -, ⟨hleaves, hroots⟩, -, horder⟩ := up_down_mirror Config.graph_pair
  have hdown : down.members 1 = ["api"] := hroots.trans (by decide +kernel)
  refine ⟨up, down, hmade, hleaves.trans (by decide +kernel), hdown, fun n hn => ?_⟩
  have hdepends : Deployment.pair.graph.DependsOn "api" "db" :=
    TransGen.single (show "db" ∈ Deployment.pair.graph.dependencies "api" by decide +kernel)
  exact (horder "api" "db" hdepends 1 n).2 (hdown ▸ List.mem_singleton_self _) hn

end Plan

end Rollout
