import Mathlib.Order.Bounds.Basic
import Rollout.Plan
import Rollout.Proofs.Walk.Scope
/-!
The waves of a plan are layers: each service has one wave more than the highest wave of its prerequisites (`Layered`).
So its wave is the length of the longest chain of prerequisites that ends at it (`Layered.isGreatest`), which leaves one
plan for each traversal (`Layered.unique`), and the waves are numbered without gaps (`Layered.waves_eq`).  A plan that
is made of an order in which each service comes after its prerequisites has these waves (`layered_ofOrder`).

`Layered` is what the other modules know of a plan.  It says nothing of the order in which services got their waves,
which is why plans that come of different runs can be compared at all.  While a plan is made, the services that have
their waves already are closed under prerequisites (`Assigned`), so the next one cannot change the wave of any other.

Both directions of the length of a chain are inductions: along a chain the waves decrease (`Layered.length_le`), and
from a wave that is not the first a chain can go on to the wave before (`Layered.exists_chain`).
-/
namespace Rollout

/-! ## Chains of prerequisites -/

namespace Traversal

variable {t : Traversal} {g : Graph} {name a b : String} {chain : List String}

/-- A chain of prerequisites that ends at a service, read from there: each service requires the next one, and the
traversal covers them all. -/
structure Chain (t : Traversal) (g : Graph) (name : String) (chain : List String) : Prop where
  last : chain.head? = some name
  covered : ∀ a ∈ chain, t.Covers g a
  linked : chain.IsChain (t.direction.Requires g)

theorem chain_singleton (h : t.Covers g name) : t.Chain g name [name] := by
  refine ⟨rfl, fun a ha => ?_, List.isChain_singleton name⟩
  rw [List.mem_singleton.1 ha]
  exact h

theorem Chain.cons (h : t.Chain g b chain) (ha : t.Covers g a) (hab : t.direction.Requires g a b) :
    t.Chain g a (a :: chain) := by
  refine ⟨rfl, fun c hc => ?_, ?_⟩
  · rcases List.mem_cons.1 hc with rfl | hc
    · exact ha
    · exact h.covered c hc
  · cases chain with
    | nil => cases h.last
    | cons c chain =>
      obtain rfl : c = b := Option.some.inj h.last
      exact List.isChain_cons_cons.2 ⟨hab, h.linked⟩

theorem Chain.tail (h : t.Chain g a (a :: b :: chain)) : t.direction.Requires g a b ∧ t.Chain g b (b :: chain) := by
  obtain ⟨hab, hlinked⟩ := List.isChain_cons_cons.1 h.linked
  exact ⟨hab, rfl, fun c hc => h.covered c (List.mem_cons_of_mem a hc), hlinked⟩

end Traversal

/-! ## Layers -/

theorem le_foldl_max {numbers : List Nat} {n : Nat} (h : n ∈ numbers) : n ≤ numbers.foldl max 0 := by
  rw [List.foldl_max]
  exact (List.le_max?_getD_of_mem h).trans (Nat.le_max_right _ _)

theorem foldl_max_mem {numbers : List Nat} (h : numbers.foldl max 0 ≠ 0) : numbers.foldl max 0 ∈ numbers := by
  rw [List.foldl_max, Nat.zero_max] at h ⊢
  cases hmax : numbers.max? with
  | none =>
    rw [hmax] at h
    exact absurd rfl h
  | some n => exact (List.max?_eq_some_iff.1 hmax).1

namespace Plan

variable {p q : Plan} {t : Traversal} {g : Graph} {name a b : String} {n m : Nat}

/-- A plan gives waves to the services that a traversal covers, each one more than the highest of its prerequisites. -/
structure Layered (p : Plan) (t : Traversal) (g : Graph) : Prop where
  services : ∀ name, name ∈ p.services ↔ t.Covers g name
  wave : ∀ name n, p.wave.get? name = some n →
    n = ((t.direction.prerequisites g name).filterMap p.wave.get?).foldl max 0 + 1

namespace Layered

theorem exists_wave (h : p.Layered t g) (hname : t.Covers g name) : ∃ n, p.wave.get? name = some n :=
  Option.isSome_iff_exists.1 ((p.wave.get?_isSome_iff name).2 ((h.services name).2 hname))

theorem covered (h : p.Layered t g) (hname : p.wave.get? name = some n) : t.Covers g name := by
  refine (h.services name).1 ((p.wave.get?_isSome_iff name).1 ?_)
  rw [hname]
  rfl

theorem pos (h : p.Layered t g) (hname : p.wave.get? name = some n) : 0 < n := by
  rw [h.wave name n hname]
  exact Nat.succ_pos _

theorem lt_of_requires (h : p.Layered t g) (ha : p.wave.get? a = some n) (hb : p.wave.get? b = some m)
    (hab : t.direction.Requires g a b) : m < n := by
  have hmem : m ∈ (t.direction.prerequisites g a).filterMap p.wave.get? :=
    List.mem_filterMap.2 ⟨b, Direction.mem_prerequisites_iff.2 hab, hb⟩
  rw [h.wave a n ha]
  exact Nat.lt_succ_of_le (le_foldl_max hmem)

theorem exists_requires (h : p.Layered t g) (ha : p.wave.get? a = some (n + 2)) :
    ∃ b, t.direction.Requires g a b ∧ p.wave.get? b = some (n + 1) := by
  have hmax : ((t.direction.prerequisites g a).filterMap p.wave.get?).foldl max 0 = n + 1 :=
    (Nat.succ.inj (h.wave a (n + 2) ha)).symm
  have hmem := foldl_max_mem (hmax.trans_ne (Nat.succ_ne_zero n))
  rw [hmax] at hmem
  obtain ⟨b, hb, hwave⟩ := List.mem_filterMap.1 hmem
  exact ⟨b, Direction.mem_prerequisites_iff.1 hb, hwave⟩

theorem length_le (h : p.Layered t g) : ∀ (chain : List String) (name : String) (n : Nat), t.Chain g name chain →
    p.wave.get? name = some n → chain.length ≤ n
  | [], _, _, _, _ => Nat.zero_le _
  | [_], _, _, _, hname => h.pos hname
  | a :: b :: chain, name, n, hchain, hname => by
    obtain rfl : a = name := Option.some.inj hchain.last
    obtain ⟨hab, htail⟩ := hchain.tail
    obtain ⟨m, hb⟩ := h.exists_wave (htail.covered b List.mem_cons_self)
    have hrest : (b :: chain).length ≤ m := length_le h (b :: chain) b m htail hb
    exact hrest.trans_lt (h.lt_of_requires hname hb hab)

theorem exists_chain (h : p.Layered t g) : ∀ (n : Nat) (name : String), p.wave.get? name = some (n + 1) →
    ∃ chain, t.Chain g name chain ∧ chain.length = n + 1
  | 0, name, hname => ⟨[name], Traversal.chain_singleton (h.covered hname), rfl⟩
  | n + 1, name, hname => by
    obtain ⟨b, hab, hb⟩ := h.exists_requires hname
    obtain ⟨chain, hchain, hlength⟩ := exists_chain h n b hb
    exact ⟨name :: chain, hchain.cons (h.covered hname) hab, congrArg (· + 1) hlength⟩

/-- **The wave of a service is the length of the longest chain of prerequisites that ends at it.** -/
theorem isGreatest (h : p.Layered t g) (hname : p.wave.get? name = some n) :
    IsGreatest { length | ∃ chain, t.Chain g name chain ∧ chain.length = length } n := by
  constructor
  · obtain ⟨k, rfl⟩ := Nat.exists_eq_succ_of_ne_zero (h.pos hname).ne'
    exact h.exists_chain k name hname
  · rintro _ ⟨chain, hchain, rfl⟩
    exact h.length_le chain name n hchain hname

theorem get?_wave_eq_none_iff (h : p.Layered t g) : p.wave.get? name = none ↔ ¬ t.Covers g name := by
  rw [Table.get?_eq_none_iff]
  exact not_congr (h.services name)

/-- **There is one layered plan for each traversal.** -/
theorem unique (hp : p.Layered t g) (hq : q.Layered t g) : p = q := by
  have hwave : p.wave = q.wave := by
    refine Table.ext_get? fun name => ?_
    cases hname : p.wave.get? name with
    | none => exact (hq.get?_wave_eq_none_iff.2 (hp.get?_wave_eq_none_iff.1 hname)).symm
    | some n =>
      obtain ⟨m, hm⟩ := hq.exists_wave (hp.covered hname)
      rw [hm, (hp.isGreatest hname).unique (hq.isGreatest hm)]
  cases p
  cases q
  exact congrArg Plan.mk hwave

end Layered

/-! ## The waves that have services -/

theorem mem_members_iff : name ∈ p.members n ↔ p.wave.get? name = some n := by
  unfold members
  simp [Table.get?_eq_some_iff]

theorem ascending_members (p : Plan) (n : Nat) : Ascending (p.members n) :=
  p.wave.ascending.sublist (List.filter_sublist.map Prod.fst)

theorem mem_values_iff : n ∈ p.wave.values ↔ ∃ name, p.wave.get? name = some n := by
  unfold Table.values
  simp [Table.get?_eq_some_iff]

theorem isEmpty_members_iff : (p.members n).isEmpty = true ↔ ∀ name, p.wave.get? name ≠ some n := by
  rw [List.isEmpty_iff, List.eq_nil_iff_forall_not_mem]
  exact forall_congr' fun name => not_congr mem_members_iff

namespace Layered

theorem exists_of_add (h : p.Layered t g) : ∀ (k n : Nat) (name : String), p.wave.get? name = some (n + 1 + k) →
    ∃ name, p.wave.get? name = some (n + 1)
  | 0, _, name, hname => ⟨name, hname⟩
  | k + 1, n, name, hname => by
    have hnext : n + 1 + (k + 1) = n + k + 2 := by omega
    rw [hnext] at hname
    obtain ⟨b, -, hb⟩ := h.exists_requires hname
    have hbelow : n + k + 1 = n + 1 + k := by omega
    exact exists_of_add h k n b (hbelow ▸ hb)

theorem exists_of_le_highest (h : p.Layered t g) (hpos : 0 < n) (hle : n ≤ p.highest) :
    ∃ name, p.wave.get? name = some n := by
  have hhighest : p.highest ∈ p.wave.values := foldl_max_mem (show p.highest ≠ 0 by omega)
  obtain ⟨name, hname⟩ := mem_values_iff.1 hhighest
  obtain ⟨k, rfl⟩ := Nat.exists_eq_succ_of_ne_zero hpos.ne'
  obtain ⟨above, habove⟩ := Nat.exists_eq_add_of_le hle
  rw [habove] at hname
  exact h.exists_of_add above k name hname

/-- **The waves are numbered from one on, without gaps.** -/
theorem waves_eq (h : p.Layered t g) : p.waves = List.range' 1 p.highest := by
  have hfirst : ¬ (!(p.members 0).isEmpty) = true := by
    rw [Bool.not_eq_true, Bool.not_eq_false', isEmpty_members_iff]
    exact fun name hname => absurd (h.pos hname) (Nat.lt_irrefl 0)
  have hrest : ∀ n ∈ List.range' 1 p.highest, (!(p.members n).isEmpty) = true := by
    intro n hn
    obtain ⟨hpos, hle⟩ := List.mem_range'_1.1 hn
    obtain ⟨name, hname⟩ := h.exists_of_le_highest hpos (by omega)
    rw [Bool.not_eq_true', ← Bool.not_eq_true, isEmpty_members_iff]
    exact fun hnone => hnone name hname
  unfold waves
  rw [List.range_eq_range', List.range'_succ, List.filter_cons_of_neg (p := fun n => !(p.members n).isEmpty) hfirst,
    List.filter_eq_self.2 hrest]

end Layered

end Plan

/-! ## Plans of an order -/

/-- An order in which visits can have their turns: each service that the traversal covers comes once, after all its
prerequisites. -/
structure Traversal.Admits (t : Traversal) (g : Graph) (names : List String) : Prop where
  nodup : names.Nodup
  services : ∀ name, name ∈ names ↔ t.Covers g name
  earlier : ∀ before a after, names = before ++ a :: after →
    ∀ b, t.direction.Requires g a b → t.Covers g b → b ∈ before

namespace Plan

variable {t : Traversal} {g : Graph} {wave : Table Nat} {names : List String} {name : String}

/-- Some services have got their waves, and so have their prerequisites. -/
structure Assigned (t : Traversal) (g : Graph) (wave : Table Nat) (names : List String) : Prop where
  services : ∀ name, name ∈ wave.keys ↔ name ∈ names
  closed : ∀ a ∈ names, ∀ b, t.direction.Requires g a b → t.Covers g b → b ∈ names
  wave : ∀ name n, wave.get? name = some n →
    n = ((t.direction.prerequisites g name).filterMap wave.get?).foldl max 0 + 1

theorem assigned_empty (t : Traversal) (g : Graph) : Assigned t g .empty [] :=
  ⟨fun _ => Iff.rfl, fun _ ha => absurd ha List.not_mem_nil, fun _ _ h => absurd h nofun⟩

theorem Assigned.assign (h : Assigned t g wave names) (hnew : name ∉ names) (hname : t.Covers g name)
    (hearlier : ∀ b, t.direction.Requires g name b → t.Covers g b → b ∈ names) :
    Assigned t g (assign t.direction g wave name) (names ++ [name]) := by
  have hclosed : ∀ a ∈ names ++ [name], ∀ b, t.direction.Requires g a b → t.Covers g b → b ∈ names := by
    intro a ha b hab hb
    rcases List.mem_append.1 ha with ha | ha
    · exact h.closed a ha b hab hb
    · rw [List.mem_singleton.1 ha] at hab
      exact hearlier b hab hb
  have hsame : ∀ a ∈ names ++ [name],
      (t.direction.prerequisites g a).filterMap (Plan.assign t.direction g wave name).get? =
        (t.direction.prerequisites g a).filterMap wave.get? := by
    intro a ha
    refine List.filterMap_congr fun b hb => Table.get?_insert_of_ne _ _ ?_
    rintro rfl
    exact hnew (hclosed a ha b (Direction.mem_prerequisites_iff.1 hb) hname)
  have hservices : ∀ a, a ∈ (Plan.assign t.direction g wave name).keys ↔ a ∈ names ++ [name] := by
    intro a
    unfold Plan.assign
    rw [Table.mem_keys_insert, h.services, List.mem_append, List.mem_singleton, or_comm]
  refine ⟨hservices, fun a ha b hab hb => List.mem_append_left _ (hclosed a ha b hab hb), fun a n ha => ?_⟩
  have hmem : a ∈ names ++ [name] := by
    rw [← hservices, ← Table.get?_isSome_iff, ha]
    rfl
  rw [hsame a hmem]
  unfold Plan.assign at ha
  rw [Table.get?_insert] at ha
  split at ha
  · rename_i heq
    rw [heq]
    exact (Option.some.inj ha).symm
  · exact h.wave a n ha

theorem Assigned.foldl : ∀ (later earlier : List String) (wave : Table Nat), Assigned t g wave earlier →
    t.Admits g (earlier ++ later) →
    Assigned t g (later.foldl (Plan.assign t.direction g) wave) (earlier ++ later)
  | [], earlier, wave, h, _ => by
    rw [List.append_nil]
    exact h
  | name :: later, earlier, wave, h, hadmits => by
    have hnew : name ∉ earlier := fun hmem =>
      (List.nodup_append.1 hadmits.nodup).2.2 name hmem name List.mem_cons_self rfl
    have hname : t.Covers g name := (hadmits.services name).1 (List.mem_append_right _ List.mem_cons_self)
    have hnext := h.assign hnew hname (hadmits.earlier earlier name later rfl)
    rw [List.append_cons] at hadmits ⊢
    exact Assigned.foldl later (earlier ++ [name]) _ hnext hadmits

/-- **An order of visits makes a layered plan**, whichever it is. -/
theorem layered_ofOrder (h : t.Admits g names) : (ofOrder t.direction g names).Layered t g := by
  have hassigned : Assigned t g (ofOrder t.direction g names).wave names :=
    Assigned.foldl names [] .empty (assigned_empty t g) h
  exact ⟨fun name => (hassigned.services name).trans (h.services name), hassigned.wave⟩

end Plan

end Rollout
