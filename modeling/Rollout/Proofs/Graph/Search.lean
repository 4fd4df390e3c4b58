import Mathlib.Data.List.Chain
import Mathlib.Logic.Relation
import Mathlib.Data.List.Nodup
import Mathlib.Data.List.Perm.Subperm
import Rollout.Cycle
/-!
What the depth-first search finds.  While it stands on the newest name of its path, the marked names that are not on the
path are settled: all they lead to is marked and off the path as well, and none of them lies on a cycle (`Standing`).  A
search below one name either keeps this and marks the name, or ends in a closed chain of steps (`explore_ends`).  So
what the search of all names finds is a cycle (`loop_of_find?`), and if it finds nothing there is none
(`acyclic_of_find?_eq_none`).

The search is a fold that may break off, so what is said of it has two sides: what holds of the marks that are given
back, and what holds of the cycle that is found (`Ends`).  A fold keeps what each of its steps keeps (`ends_foldlM`),
which is the step from one neighbour to all of them.

The search goes down to a name with `Standing.push`, and comes back up from it with `Standing.pop`, when all that the
name leads to is settled; then the name is settled too, for a cycle through it would lead through one of its neighbours.
A path has no repeats and is no longer than the list of all names, so the bound on the depth is never used up.
-/
namespace Rollout

/-! ## Folds that can fail -/

def Ends {ε α : Type} (P : α → Prop) (Q : ε → Prop) : Except ε α → Prop
  | .ok a => P a
  | .error e => Q e

theorem Ends.imp {ε α : Type} {P P' : α → Prop} {Q : ε → Prop} (h : ∀ a, P a → P' a) {r : Except ε α}
    (hr : Ends P Q r) : Ends P' Q r := by
  cases r with
  | ok a => exact h a hr
  | error e => exact hr

/-- **A fold keeps what each of its steps keeps.**  `P done b` is said of the elements already folded in. -/
theorem ends_foldlM {ε α β : Type} {f : β → α → Except ε β} {P : List α → β → Prop} {Q : ε → Prop} :
    ∀ (rest done : List α) (b : β), P done b →
      (∀ done a b, a ∈ rest → P done b → Ends (P (done ++ [a])) Q (f b a)) →
      Ends (P (done ++ rest)) Q (rest.foldlM f b)
  | [], done, b, hb, _ => by rw [List.append_nil]; exact hb
  | a :: rest, done, b, hb, hstep => by
    rw [List.foldlM_cons]
    have ha := hstep done a b List.mem_cons_self hb
    cases hf : f b a with
    | error e =>
      rw [hf] at ha
      exact ha
    | ok b' =>
      rw [hf] at ha
      have hrest := ends_foldlM rest (done ++ [a]) b' ha fun done x b hx => hstep done x b (List.mem_cons_of_mem a hx)
      rw [List.append_assoc] at hrest
      exact hrest

namespace Cycle

open Relation (TransGen ReflTransGen)

variable {next : String → List String} {names path marked : List String} {node : String}

/-! ## Where the search stands -/

def Step (next : String → List String) (a b : String) : Prop := b ∈ next a

/-- What holds while the search stands on the newest name of `path` and has marked `marked`. -/
structure Standing (next : String → List String) (names path marked : List String) : Prop where
  trail : path.IsChain fun newer older => Step next older newer
  nodup : path.Nodup
  path_marked : ∀ a ∈ path, a ∈ marked
  known : ∀ a ∈ marked, a ∈ names
  settled : ∀ a ∈ marked, a ∉ path → ∀ b, Step next a b → b ∈ marked ∧ b ∉ path
  acyclic : ∀ a ∈ marked, a ∉ path → ¬ TransGen (Step next) a a

theorem standing_nil : Standing next names [] [] :=
  ⟨List.isChain_nil, List.nodup_nil, by simp, by simp, by simp, by simp⟩

theorem Standing.push (h : Standing next names path marked) (hname : node ∈ names) (hnew : node ∉ marked)
    (hstep : ∀ older ∈ path.head?, Step next older node) : Standing next names (node :: path) (node :: marked) where
  trail := List.isChain_cons.2 ⟨hstep, h.trail⟩
  nodup := List.nodup_cons.2 ⟨fun hp => hnew (h.path_marked node hp), h.nodup⟩
  path_marked := fun a ha => by
    rcases List.mem_cons.1 ha with rfl | ha
    · exact List.mem_cons_self
    · exact List.mem_cons_of_mem _ (h.path_marked a ha)
  known := fun a ha => by
    rcases List.mem_cons.1 ha with rfl | ha
    · exact hname
    · exact h.known a ha
  settled := fun a ha hoff b hb => by
    have ha' := (List.mem_cons.1 ha).resolve_left (List.ne_of_not_mem_cons hoff)
    obtain ⟨hbm, hbp⟩ := h.settled a ha' (List.not_mem_of_not_mem_cons hoff) b hb
    exact ⟨List.mem_cons_of_mem _ hbm, List.not_mem_cons_of_ne_of_not_mem (fun hbn => hnew (hbn ▸ hbm)) hbp⟩
  acyclic := fun a ha hoff => by
    have ha' := (List.mem_cons.1 ha).resolve_left (List.ne_of_not_mem_cons hoff)
    exact h.acyclic a ha' (List.not_mem_of_not_mem_cons hoff)

theorem Standing.length_le (h : Standing next names path marked) : path.length ≤ names.length :=
  (List.subperm_of_subset h.nodup fun a ha => h.known a (h.path_marked a ha)).length_le

theorem Standing.settled_of_reaches (h : Standing next names path marked) {a b : String}
    (hreach : ReflTransGen (Step next) a b) (ha : a ∈ marked) (hoff : a ∉ path) : b ∈ marked ∧ b ∉ path := by
  induction hreach with
  | refl => exact ⟨ha, hoff⟩
  | tail _ hstep ih => exact h.settled _ ih.1 ih.2 _ hstep

theorem Standing.pop (h : Standing next names (node :: path) marked)
    (hall : ∀ b ∈ next node, b ∈ marked ∧ b ∉ node :: path) : Standing next names path marked where
  trail := h.trail.tail
  nodup := (List.nodup_cons.1 h.nodup).2
  path_marked := fun a ha => h.path_marked a (List.mem_cons_of_mem _ ha)
  known := h.known
  settled := fun a ha hoff b hb => by
    have hb' : b ∈ marked ∧ b ∉ node :: path := by
      by_cases han : a = node
      · subst han
        exact hall b hb
      · exact h.settled a ha (List.not_mem_cons_of_ne_of_not_mem han hoff) b hb
    exact ⟨hb'.1, List.not_mem_of_not_mem_cons hb'.2⟩
  acyclic := fun a ha hoff hcycle => by
    by_cases han : a = node
    · subst han
      -- the first step of the cycle leads to a settled name, and from there to `a`, which is on the path
      obtain ⟨b, hb, hback⟩ := TransGen.head'_iff.1 hcycle
      obtain ⟨hbm, hbp⟩ := hall b hb
      exact (h.settled_of_reaches hback hbm hbp).2 List.mem_cons_self
    · exact h.acyclic a ha (List.not_mem_cons_of_ne_of_not_mem han hoff) hcycle

/-! ## What closes a cycle -/

/-- A closed chain of steps: it ends where it starts, and meets no other name twice. -/
def Loop (next : String → List String) (cycle : List String) : Prop :=
  ∃ back between, cycle = back :: between ++ [back] ∧ (back :: between).Nodup ∧ cycle.IsChain (Step next)

theorem Loop.transGen {cycle : List String} (h : Loop next cycle) : ∃ a, TransGen (Step next) a a := by
  obtain ⟨back, between, rfl, -, hchain⟩ := h
  refine ⟨back, ?_⟩
  cases between with
  | nil => exact TransGen.single (by simpa using hchain)
  | cons b between =>
    rw [List.cons_append, List.cons_append, List.isChain_cons_cons] at hchain
    refine TransGen.head' hchain.1 (List.relationReflTransGen_of_exists_isChain_cons (between ++ [back]) hchain.2 ?_)
    simp

/-- **A step from the newest name back to the path closes a cycle.** -/
theorem Standing.loop_close (h : Standing next names path marked) {back : String} (hback : back ∈ path)
    (hstep : ∀ newest ∈ path.head?, Step next newest back) : Loop next (close back path) := by
  obtain ⟨newer, older, rfl, hnewer⟩ := List.eq_append_cons_of_mem hback
  have hclose : close back (newer ++ back :: older) = back :: newer.reverse ++ [back] := by
    unfold close
    have hall : ∀ a ∈ newer, decide (a ≠ back) = true := fun a ha => decide_eq_true fun hab => hnewer (hab ▸ ha)
    rw [List.takeWhile_append_of_pos hall]
    simp
  rw [hclose]
  refine ⟨back, newer.reverse, rfl, ?_, ?_⟩
  · have hnd : (newer ++ [back]).Nodup := h.nodup.sublist (by simp)
    rw [← List.nodup_reverse] at hnd
    simpa using hnd
  · have hrev : (newer ++ [back]).reverse.IsChain (Step next) := by
      rw [List.isChain_reverse]
      exact h.trail.prefix ⟨older, by simp⟩
    rw [List.reverse_append, List.reverse_singleton, List.singleton_append] at hrev
    refine List.isChain_append.2 ⟨hrev, List.isChain_singleton back, fun x hx y hy => ?_⟩
    obtain rfl : back = y := by simpa using hy
    refine hstep x ?_
    cases newer with
    | nil => simpa using hx
    | cons n newer => simpa [List.getLast?_cons, List.getLast?_append] using hx

/-! ## The search -/

def meet (next : String → List String) (depth : Nat) (path marked : List String) (child : String) :
    Except (List String) (List String) :=
  if child ∈ marked then
    if child ∈ path then .error (close child path) else .ok marked
  else explore next depth path marked child

theorem explore_succ (depth : Nat) : explore next (depth + 1) path marked node =
    (next node).foldlM (meet next depth (node :: path)) (node :: marked) := rfl

/-- The search has come back to where it stood, with `node` marked on the way. -/
structure Back (next : String → List String) (names path marked : List String) (node : String) (after : List String) :
    Prop where
  standing : Standing next names path after
  kept : ∀ a ∈ marked, a ∈ after
  marked : node ∈ after

theorem meet_ends {depth : Nat} {child : String} (hs : Standing next names path marked)
    (hstep : ∀ newest ∈ path.head?, Step next newest child)
    (hbelow : child ∉ marked → Ends (Back next names path marked child) (Loop next)
      (explore next depth path marked child)) :
    Ends (fun after => Back next names path marked child after ∧ child ∉ path) (Loop next)
      (meet next depth path marked child) := by
  unfold meet
  by_cases hmarked : child ∈ marked
  · rw [if_pos hmarked]
    by_cases hpath : child ∈ path
    · rw [if_pos hpath]
      exact hs.loop_close hpath hstep
    · rw [if_neg hpath]
      exact ⟨⟨hs, fun a ha => ha, hmarked⟩, hpath⟩
  · rw [if_neg hmarked]
    refine (hbelow hmarked).imp fun after hback => ⟨hback, fun hpath => ?_⟩
    exact hmarked (hs.path_marked child hpath)

/-- **The search below one name** comes back with the name marked, or ends in a cycle.  The path has no repeats, so
`depth` is never used up. -/
theorem explore_ends (hclosed : ∀ a ∈ names, ∀ b ∈ next a, b ∈ names) :
    ∀ (depth : Nat) (path marked : List String) (node : String), Standing next names path marked →
      node ∈ names → node ∉ marked → (∀ older ∈ path.head?, Step next older node) →
      names.length ≤ path.length + depth →
      Ends (Back next names path marked node) (Loop next) (explore next depth path marked node)
  | 0, path, marked, node, hs, hname, hnew, hstep, hdepth => by
    have hle := (hs.push hname hnew hstep).length_le
    simp only [List.length_cons] at hle
    omega
  | depth + 1, path, marked, node, hs, hname, hnew, hstep, hdepth => by
    have hpush := hs.push hname hnew hstep
    rw [explore_succ]
    let P : List String → List String → Prop := fun done after =>
      Back next names (node :: path) (node :: marked) node after ∧ ∀ b ∈ done, b ∈ after ∧ b ∉ node :: path
    have hfold : Ends (P (next node)) (Loop next)
        ((next node).foldlM (meet next depth (node :: path)) (node :: marked)) := by
      refine ends_foldlM (P := P) (next node) [] (node :: marked)
        ⟨⟨hpush, fun a ha => ha, List.mem_cons_self⟩, by simp⟩ ?_
      rintro done child after hchild ⟨hback, hdone⟩
      have hedge : ∀ newest ∈ (node :: path).head?, Step next newest child := fun newest hnewest => by
        obtain rfl : node = newest := by simpa using hnewest
        exact hchild
      have hmeet := meet_ends hback.standing hedge fun hfresh =>
        explore_ends hclosed depth (node :: path) after child hback.standing (hclosed node hname child hchild) hfresh
          hedge (by simp only [List.length_cons]; omega)
      refine hmeet.imp fun after' hafter => ?_
      obtain ⟨⟨hstand, hkept, hin⟩, hoff⟩ := hafter
      refine ⟨⟨hstand, fun a ha => hkept a (hback.kept a ha), hkept node hback.marked⟩, fun b hb => ?_⟩
      rcases List.mem_append.1 hb with hb | hb
      · exact ⟨hkept b (hdone b hb).1, (hdone b hb).2⟩
      · rw [List.mem_singleton.1 hb]
        exact ⟨hin, hoff⟩
    refine hfold.imp fun after hafter => ?_
    obtain ⟨hback, hdone⟩ := hafter
    exact ⟨hback.standing.pop hdone, fun a ha => hback.kept a (List.mem_cons_of_mem _ ha), hback.marked⟩

theorem exploreAll_eq (depth : Nat) : exploreAll next depth names = names.foldlM (meet next depth []) [] := rfl

/-- **The search of all names** marks every name and meets no cycle, or ends in one. -/
theorem exploreAll_ends (hclosed : ∀ a ∈ names, ∀ b ∈ next a, b ∈ names) :
    Ends (fun marked => Standing next names [] marked ∧ ∀ a ∈ names, a ∈ marked) (Loop next)
      (exploreAll next names.length names) := by
  rw [exploreAll_eq]
  refine ends_foldlM (P := fun done marked => Standing next names [] marked ∧ ∀ a ∈ done, a ∈ marked) names [] []
    ⟨standing_nil, by simp⟩ ?_
  rintro done node marked hnode ⟨hstand, hdone⟩
  have hmeet := meet_ends hstand (by simp) fun hfresh =>
    explore_ends hclosed names.length [] marked node hstand hnode hfresh (by simp) (by simp)
  refine hmeet.imp fun after hafter => ⟨hafter.1.standing, fun a ha => ?_⟩
  rcases List.mem_append.1 ha with ha | ha
  · exact hafter.1.kept a (hdone a ha)
  · rw [List.mem_singleton.1 ha]
    exact hafter.1.marked

theorem loop_of_find? (hclosed : ∀ a ∈ names, ∀ b ∈ next a, b ∈ names) {cycle : List String}
    (h : find? names next = some cycle) : Loop next cycle := by
  have hends := exploreAll_ends hclosed
  unfold find? at h
  cases hex : exploreAll next names.length names with
  | ok marked =>
    rw [hex] at h
    cases h
  | error found =>
    rw [hex] at h hends
    cases h
    exact hends

/-- **A search that finds nothing leaves no cycle.** -/
theorem acyclic_of_find?_eq_none (hclosed : ∀ a ∈ names, ∀ b ∈ next a, b ∈ names)
    (h : find? names next = none) : ∀ a ∈ names, ¬ TransGen (Step next) a a := by
  have hends := exploreAll_ends hclosed
  unfold find? at h
  cases hex : exploreAll next names.length names with
  | ok marked =>
    rw [hex] at hends
    exact fun a ha => hends.1.acyclic a (hends.2 a ha) List.not_mem_nil
  | error found =>
    rw [hex] at h
    cases h

end Cycle

end Rollout
