import Mathlib.Data.Finset.Basic
import Mathlib.Data.Finset.Insert
import Rollout.Proofs.Graph.Acceptance
/-!
The depth-first search with all that it keeps on its way: the set of the names visited, the set of the names on the
path, and the path itself, from which a cycle is read off.  A call writes its name down in all three and crosses it out
of two of them when it goes back; one that finds a cycle leaves them as they are.

The search with its books finds what the search without them finds (`descend_agrees`), since both sets can be read off
the path and the marks.  So in every call that arises the books agree with each other, and a call that finds nothing
gives back the path that it was given (`search_bookkeeping`).

The three functions follow the search without books: `scan` goes through the neighbours of a name, `descend` below one
name, and `descendAll` through the starts.  Each is compared with its counterpart by what both come to (`Agrees`): the
same cycle, or no cycle and then the books of the marks that are given back (`Books.of`).  The bound on the depth is
never used up in a call that arises, because the path to it has no repeats (`Call.exists_depth`).

`Arises` are the calls that are made while all names are searched, by recursion on how they come about: from the top, or
from a call for one of the neighbours that is not marked by then.  In the middle of a call the marks have grown and the
path has not (`Call.scan`), and after a call that finds nothing it is as it was (`Call.back`).
-/
namespace Rollout

open Relation (TransGen ReflTransGen)

namespace Cycle

/-- What the search keeps on its way. -/
structure Books where
  visited : Finset String
  onPath : Finset String
  /-- Oldest first. -/
  path : List String
deriving DecidableEq

namespace Books

def blank : Books := ⟨∅, ∅, []⟩

def enter (b : Books) (node : String) : Books := ⟨insert node b.visited, insert node b.onPath, b.path ++ [node]⟩

def leave (b : Books) (node : String) : Books := ⟨b.visited, b.onPath.erase node, b.path.dropLast⟩

/-- Where the path meets a name first. -/
def position? (b : Books) (name : String) : Option Nat := b.path.findIdx? (· = name)

/-- The cycle that a step to `back` closes: from its place on the path to the end, and then itself again.  A name that
is not on the path would count as its start. -/
def close (b : Books) (back : String) : List String := b.path.drop ((b.position? back).getD 0) ++ [back]

structure Consistent (next : String → List String) (b : Books) : Prop where
  same : ∀ a, a ∈ b.onPath ↔ a ∈ b.path
  chain : b.path.IsChain (Step next)
  nodup : b.path.Nodup
  visited : ∀ a ∈ b.path, a ∈ b.visited

end Books

/-! ## The search with its books -/

def scan (below : String → Books → Option (List String) × Books) :
    List String → Books → Option (List String) × Books
  | [], b => (none, b)
  | child :: rest, b =>
    if child ∉ b.visited then
      match below child b with
      | (some cycle, b) => (some cycle, b)
      | (none, b) => scan below rest b
    else if child ∈ b.onPath then (some (b.close child), b)
    else scan below rest b

def descend (next : String → List String) : (depth : Nat) → (node : String) → Books → Option (List String) × Books
  | 0, _, b => (none, b)
  | depth + 1, node, b =>
    match scan (descend next depth) (next node) (b.enter node) with
    | (some cycle, b) => (some cycle, b)
    | (none, b) => (none, b.leave node)

def descendAll (next : String → List String) (depth : Nat) : List String → Books → Option (List String) × Books
  | [], b => (none, b)
  | node :: rest, b =>
    if node ∉ b.visited then
      match descend next depth node b with
      | (some cycle, b) => (some cycle, b)
      | (none, b) => descendAll next depth rest b
    else descendAll next depth rest b

/-- The calls that arise while all names are searched: how deep they may go, on which books and below which name. -/
inductive Arises (next : String → List String) (names : List String) : Nat → Books → String → Prop where
  | start (done rest : List String) {node : String} {b : Books} : names = done ++ node :: rest →
      descendAll next names.length done .blank = (none, b) → node ∉ b.visited → Arises next names names.length b node
  | inside (done rest : List String) {depth : Nat} {b after : Books} {node child : String} :
      Arises next names (depth + 1) b node → next node = done ++ child :: rest →
      scan (descend next depth) done (b.enter node) = (none, after) → child ∉ after.visited →
      Arises next names depth after child

variable {next : String → List String} {names path marked : List String} {node : String} {depth : Nat}

/-! ## Books without a search -/

def Books.of (path marked : List String) : Books := ⟨marked.toFinset, path.toFinset, path.reverse⟩

theorem Books.enter_of (path marked : List String) (node : String) :
    (Books.of path marked).enter node = .of (node :: path) (node :: marked) := by
  unfold Books.of Books.enter
  simp

theorem Books.leave_of (h : node ∉ path) : (Books.of (node :: path) marked).leave node = .of path marked := by
  unfold Books.of Books.leave
  simp [h]

theorem Standing.consistent (h : Standing next names path marked) : (Books.of path marked).Consistent next where
  same := by simp [Books.of]
  chain := List.isChain_reverse.2 h.trail
  nodup := List.nodup_reverse.2 h.nodup
  visited := by simpa [Books.of] using h.path_marked

theorem Books.Consistent.exists_position {b : Books} (h : b.Consistent next) {name : String} (hname : name ∈ b.onPath) :
    ∃ i, b.position? name = some i := by
  refine Option.isSome_iff_exists.1 ?_
  unfold Books.position?
  simpa using (h.same name).1 hname

theorem Books.close_of (hnodup : path.Nodup) {back : String} (hback : back ∈ path) :
    (Books.of path marked).close back = Cycle.close back path := by
  obtain ⟨newer, older, rfl, hnewer⟩ := List.eq_append_cons_of_mem hback
  have holder : back ∉ older.reverse := by
    rw [List.mem_reverse]
    exact (List.nodup_cons.1 (List.nodup_append.1 hnodup).2.1).1
  have hpath : (newer ++ back :: older).reverse = older.reverse ++ back :: newer.reverse := by simp
  have hposition : (Books.of (newer ++ back :: older) marked).position? back = some older.reverse.length := by
    have hnot : older.reverse.findIdx? (· = back) = none :=
      List.findIdx?_eq_none_iff.2 fun a ha => decide_eq_false fun h : a = back => holder (h ▸ ha)
    unfold Books.position? Books.of
    rw [hpath, List.findIdx?_append, hnot, List.findIdx?_cons]
    simp
  have hnewest : ∀ a ∈ newer, decide (a ≠ back) = true := fun a ha => decide_eq_true fun h => hnewer (h ▸ ha)
  unfold Books.close Cycle.close
  rw [hposition, Option.getD_some, show (Books.of (newer ++ back :: older) marked).path = _ from hpath,
    List.drop_left, List.takeWhile_append_of_pos hnewest]
  simp

@[simp] theorem Books.mem_visited_of {a : String} : a ∈ (Books.of path marked).visited ↔ a ∈ marked := List.mem_toFinset

@[simp] theorem Books.mem_onPath_of {a : String} : a ∈ (Books.of path marked).onPath ↔ a ∈ path := List.mem_toFinset

/-! ## The search and its books -/

def Agrees (next : String → List String) (names path : List String) (r : Except (List String) (List String))
    (out : Option (List String) × Books) : Prop :=
  match r with
  | .ok after => out = (none, .of path after) ∧ Standing next names path after
  | .error cycle => out.1 = some cycle ∧ out.2.Consistent next

theorem Agrees.consistent {r : Except (List String) (List String)} {out : Option (List String) × Books}
    (h : Agrees next names path r out) : out.2.Consistent next := by
  cases r with
  | ok after =>
    obtain ⟨rfl, hstand⟩ := h
    exact hstand.consistent
  | error cycle => exact h.2

theorem Agrees.of_error {cycle : List String} {out : Option (List String) × Books}
    (h : Agrees next names path (.error cycle) out) : ∃ b, out = (some cycle, b) ∧ b.Consistent next :=
  ⟨out.2, Prod.ext h.1 rfl, h.2⟩

theorem Agrees.of_none {r : Except (List String) (List String)} {b : Books}
    (h : Agrees next names path r (none, b)) :
    ∃ after, r = .ok after ∧ b = .of path after ∧ Standing next names path after := by
  cases r with
  | ok after => exact ⟨after, rfl, (Prod.ext_iff.1 h.1).2, h.2⟩
  | error cycle => cases h.1

/-- The search stands on the newest name of `path`, from where it is about to go down to `node`. -/
structure Call (next : String → List String) (names : List String) (depth : Nat) (path marked : List String)
    (node : String) : Prop where
  standing : Standing next names path marked
  known : node ∈ names
  fresh : node ∉ marked
  step : ∀ newest ∈ path.head?, Step next newest node
  room : names.length ≤ path.length + depth

theorem Call.push (h : Call next names depth path marked node) :
    Standing next names (node :: path) (node :: marked) := h.standing.push h.known h.fresh h.step

theorem Call.not_mem_path (h : Call next names depth path marked node) : node ∉ path := fun hp =>
  h.fresh (h.standing.path_marked node hp)

theorem Call.exists_depth (h : Call next names depth path marked node) : ∃ left, depth = left + 1 := by
  have hle := h.push.length_le
  have hroom := h.room
  rw [List.length_cons] at hle
  exact Nat.exists_eq_succ_of_ne_zero (by omega)

theorem Call.child (h : Call next names (depth + 1) path marked node)
    (hclosed : ∀ a ∈ names, ∀ b ∈ next a, b ∈ names) {after : List String} {child : String}
    (hstand : Standing next names (node :: path) after) (hchild : child ∈ next node) (hfresh : child ∉ after) :
    Call next names depth (node :: path) after child where
  standing := hstand
  known := hclosed node h.known child hchild
  fresh := hfresh
  step := fun newest hnewest => by
    obtain rfl : node = newest := by simpa using hnewest
    exact hchild
  room := by
    have hroom := h.room
    rw [List.length_cons]
    omega

theorem Standing.call (h : Standing next names [] marked) (hname : node ∈ names) (hfresh : node ∉ marked) :
    Call next names names.length [] marked node := ⟨h, hname, hfresh, by simp, by simp⟩

theorem scan_agrees
    (hbelow : ∀ marked child, Call next names depth path marked child →
      Agrees next names path (explore next depth path marked child) (descend next depth child (.of path marked))) :
    ∀ (rest marked : List String), Standing next names path marked →
      (∀ after child, Standing next names path after → child ∈ rest → child ∉ after →
        Call next names depth path after child) →
      Agrees next names path (rest.foldlM (meet next depth path) marked)
        (scan (descend next depth) rest (.of path marked))
  | [], marked, hs, _ => ⟨rfl, hs⟩
  | child :: rest, marked, hs, hcall => by
    have hrest := fun after hs' => scan_agrees hbelow rest after hs' fun after' child' hs'' hmem =>
      hcall after' child' hs'' (List.mem_cons_of_mem _ hmem)
    rw [List.foldlM_cons]
    unfold meet scan
    simp only [Books.mem_visited_of, Books.mem_onPath_of]
    by_cases hmarked : child ∈ marked
    · rw [if_pos hmarked, if_neg (not_not.2 hmarked)]
      by_cases hpath : child ∈ path
      · rw [if_pos hpath, if_pos hpath]
        exact ⟨congrArg some (Books.close_of hs.nodup hpath), hs.consistent⟩
      · rw [if_neg hpath, if_neg hpath]
        exact hrest marked hs
    · rw [if_neg hmarked, if_pos hmarked]
      have hdown := hbelow marked child (hcall marked child hs List.mem_cons_self hmarked)
      cases hexplore : explore next depth path marked child with
      | ok after =>
        rw [hexplore] at hdown
        rw [hdown.1]
        exact hrest after hdown.2
      | error cycle =>
        rw [hexplore] at hdown
        obtain ⟨b, hout, hb⟩ := hdown.of_error
        rw [hout]
        exact ⟨rfl, hb⟩

section Search

variable (hclosed : ∀ a ∈ names, ∀ b ∈ next a, b ∈ names)
include hclosed

theorem Call.ends (h : Call next names depth path marked node) :
    Ends (Back next names path marked node) (Loop next) (explore next depth path marked node) :=
  explore_ends hclosed depth path marked node h.standing h.known h.fresh h.step h.room

/-- **The search below one name finds the same with its books as without them**, and its books are those of the path
and the marks. -/
theorem descend_agrees : ∀ (depth : Nat) (path marked : List String) (node : String),
    Call next names depth path marked node →
      Agrees next names path (explore next depth path marked node) (descend next depth node (.of path marked))
  | 0, path, marked, node, h => by
    obtain ⟨left, hleft⟩ := h.exists_depth
    cases hleft
  | depth + 1, path, marked, node, h => by
    have hscan := scan_agrees (fun marked child => descend_agrees depth (node :: path) marked child) (next node)
      (node :: marked) h.push fun after child hs hchild hfresh => h.child hclosed hs hchild hfresh
    have hends := h.ends hclosed
    rw [explore_succ] at hends ⊢
    unfold descend
    rw [Books.enter_of]
    cases hfold : (next node).foldlM (meet next depth (node :: path)) (node :: marked) with
    | ok after =>
      rw [hfold] at hscan hends
      rw [hscan.1]
      exact ⟨Prod.ext rfl (Books.leave_of h.not_mem_path), hends.standing⟩
    | error cycle =>
      rw [hfold] at hscan
      obtain ⟨b, hout, hb⟩ := hscan.of_error
      rw [hout]
      exact ⟨rfl, hb⟩

/-- **The search of some names finds the same with its books as without them.** -/
theorem descendAll_agrees : ∀ (rest marked : List String), Standing next names [] marked → (∀ a ∈ rest, a ∈ names) →
    Agrees next names [] (rest.foldlM (meet next names.length []) marked)
      (descendAll next names.length rest (.of [] marked))
  | [], marked, hs, _ => ⟨rfl, hs⟩
  | node :: rest, marked, hs, hknown => by
    have hrest := fun after hs' => descendAll_agrees rest after hs' fun a ha => hknown a (List.mem_cons_of_mem _ ha)
    rw [List.foldlM_cons]
    unfold meet descendAll
    simp only [Books.mem_visited_of, List.not_mem_nil, if_false]
    by_cases hmarked : node ∈ marked
    · rw [if_pos hmarked, if_neg (not_not.2 hmarked)]
      exact hrest marked hs
    · rw [if_neg hmarked, if_pos hmarked]
      have hdown := descend_agrees hclosed names.length [] marked node
        (hs.call (hknown node List.mem_cons_self) hmarked)
      cases hexplore : explore next names.length [] marked node with
      | ok after =>
        rw [hexplore] at hdown
        rw [hdown.1]
        exact hrest after hdown.2
      | error cycle =>
        rw [hexplore] at hdown
        obtain ⟨b, hout, hb⟩ := hdown.of_error
        rw [hout]
        exact ⟨rfl, hb⟩

theorem descendAll_eq_find? : (descendAll next names.length names .blank).1 = find? names next := by
  have hall := descendAll_agrees hclosed names [] standing_nil fun a ha => ha
  rw [← exploreAll_eq] at hall
  unfold find?
  cases hexplore : exploreAll next names.length names with
  | ok marked =>
    rw [hexplore] at hall
    exact congrArg Prod.fst hall.1
  | error cycle =>
    rw [hexplore] at hall
    exact hall.1

/-! ## The calls that arise -/

theorem Call.scan (h : Call next names (depth + 1) path marked node) {done rest : List String} {after : Books}
    (hnext : next node = done ++ rest)
    (hscan : Cycle.scan (descend next depth) done ((Books.of path marked).enter node) = (none, after)) :
    ∃ marked', after = .of (node :: path) marked' ∧ Standing next names (node :: path) marked' := by
  have hagrees := scan_agrees (fun marked child => descend_agrees hclosed depth (node :: path) marked child) done
    (node :: marked) h.push fun after child hs hchild hfresh =>
      h.child hclosed hs (hnext ▸ List.mem_append_left _ hchild) hfresh
  rw [Books.enter_of] at hscan
  rw [hscan] at hagrees
  obtain ⟨marked', -, rfl, hstand⟩ := hagrees.of_none
  exact ⟨marked', rfl, hstand⟩

theorem Call.back (h : Call next names depth path marked node) {after : Books}
    (hdescend : descend next depth node (.of path marked) = (none, after)) :
    ∃ marked', after = .of path marked' ∧ Back next names path marked node marked' := by
  have hagrees := descend_agrees hclosed depth path marked node h
  have hends := h.ends hclosed
  rw [hdescend] at hagrees
  obtain ⟨marked', hexplore, rfl, -⟩ := hagrees.of_none
  rw [hexplore] at hends
  exact ⟨marked', rfl, hends⟩

/-- **Every call that arises is made where the search stands**, with the books of that place. -/
theorem Arises.exists_call {b : Books} (h : Arises next names depth b node) :
    ∃ path marked, b = .of path marked ∧ Call next names depth path marked node := by
  induction h with
  | @start done rest node b hnames hdone hfresh =>
    have hknown : ∀ a ∈ done, a ∈ names := fun a ha => hnames ▸ List.mem_append_left _ ha
    have hagrees := descendAll_agrees hclosed done [] standing_nil hknown
    rw [show Books.of [] [] = .blank from rfl, hdone] at hagrees
    obtain ⟨marked, -, rfl, hstand⟩ := hagrees.of_none
    have hname : node ∈ names := by rw [hnames]; simp
    exact ⟨[], marked, rfl, hstand.call hname (by simpa using hfresh)⟩
  | @inside done rest depth b after node child _ hnext hscan hfresh ih =>
    obtain ⟨path, marked, rfl, hcall⟩ := ih
    obtain ⟨marked', rfl, hstand⟩ := hcall.scan hclosed hnext hscan
    have hchild : child ∈ next node := by rw [hnext]; simp
    exact ⟨node :: path, marked', rfl, hcall.child hclosed hstand hchild (by simpa using hfresh)⟩

end Search

end Cycle

namespace Graph

open Rollout.Cycle

variable {g : Graph}

/-- What holds of a call of the search below `node`, made on the books `b`. -/
structure Bookkept (g : Graph) (depth : Nat) (b : Books) (node : String) : Prop where
  before : b.Consistent g.children ∧ node ∉ b.visited
  /-- Whenever some of the dependencies have been seen.  The call is not cut off, and what is on the path has a place on
  it. -/
  within : ∃ left, depth = left + 1 ∧ ∀ done rest after, g.children node = done ++ rest →
    scan (descend g.children left) done (b.enter node) = (none, after) →
    after.Consistent g.children ∧ after.path = b.path ++ [node] ∧
      ∀ name ∈ after.onPath, ∃ i, after.position? name = some i
  after : (descend g.children depth node b).2.Consistent g.children
  /-- What is restored, and what is settled, if no cycle is found. -/
  restored : ∀ after, descend g.children depth node b = (none, after) →
    after.path = b.path ∧ after.onPath = b.onPath ∧ b.visited ⊆ after.visited ∧ node ∈ after.visited ∧
      ∀ a ∈ after.visited, a ∉ b.visited →
        (∀ c, g.Depends a c → c ∈ after.visited) ∧ ∀ c, ReflTransGen g.Depends a c → ¬ g.DependsOn c c

/-- **The books of the search agree with each other in every call that arises**, and the search with its books finds
what decides whether the graph is accepted. -/
theorem search_bookkeeping (h : g.undeclared? = none) :
    (descendAll g.children g.services.length g.services .blank).1 = g.cycle? ∧
      ∀ depth b node, Arises g.children g.services depth b node → g.Bookkept depth b node := by
  have hdeclared := undeclared?_eq_none_iff.1 h
  have hclosed : ∀ a ∈ g.services, ∀ b ∈ g.children a, b ∈ g.services := fun a _ b hb =>
    hdeclared a b (step_children_iff.1 hb)
  have hstep : Step g.children = g.Depends := by
    funext a b
    exact propext step_children_iff
  refine ⟨descendAll_eq_find? hclosed, fun depth b node harises => ?_⟩
  obtain ⟨path, marked, rfl, hcall⟩ := harises.exists_call hclosed
  refine ⟨⟨hcall.standing.consistent, by simpa using hcall.fresh⟩, ?_,
    (descend_agrees hclosed depth path marked node hcall).consistent, fun after hnone => ?_⟩
  · obtain ⟨left, rfl⟩ := hcall.exists_depth
    refine ⟨left, rfl, fun done rest after hnext hscan => ?_⟩
    obtain ⟨marked', rfl, hstand⟩ := hcall.scan hclosed hnext hscan
    exact ⟨hstand.consistent, by simp [Books.of], fun name hname => hstand.consistent.exists_position hname⟩
  · obtain ⟨marked', rfl, hback⟩ := hcall.back hclosed hnone
    refine ⟨rfl, rfl, fun a ha => ?_, by simpa using hback.marked, fun a ha hnew => ?_⟩
    · exact Books.mem_visited_of.2 (hback.kept a (Books.mem_visited_of.1 ha))
    · -- what is newly visited was not on the path, so it is settled
      rw [Books.mem_visited_of] at ha hnew
      have hoff : a ∉ path := fun hp => hnew (hcall.standing.path_marked a hp)
      refine ⟨fun c hc => ?_, fun c hreach hcycle => ?_⟩
      · exact Books.mem_visited_of.2 (hback.standing.settled a ha hoff c (step_children_iff.2 hc)).1
      · rw [← hstep] at hreach
        obtain ⟨hc, hcoff⟩ := hback.standing.settled_of_reaches hreach ha hoff
        exact hback.standing.acyclic c hc hcoff (transGen_children_iff.2 hcycle)

def tangled : Graph := ⟨Table.ofList [("a", ["b", "d"]), ("b", []), ("c", ["a"]), ("d", ["c"])]⟩

theorem search_bookkeeping_tangled : tangled.undeclared? = none ∧
    (descendAll tangled.children 4 tangled.services .blank).1 = tangled.cycle? ∧
    ∃ b, tangled.Bookkept 2 b "c" ∧ b.path = ["a", "d"] ∧
      (descend tangled.children 2 "c" b).1 = some ["a", "d", "c", "a"] := by
  have hdeclared : tangled.undeclared? = none := by decide +kernel
  obtain ⟨hfound, hcalls⟩ := search_bookkeeping hdeclared
  have ha : Arises tangled.children tangled.services 4 .blank "a" :=
    .start [] ["b", "c", "d"] (by decide +kernel) rfl (by decide +kernel)
  have hd : Arises tangled.children tangled.services 3 _ "d" :=
    ha.inside ["b"] [] (by decide +kernel) (Prod.ext (by decide +kernel) rfl) (by decide +kernel)
  have hc : Arises tangled.children tangled.services 2 _ "c" :=
    hd.inside [] [] (by decide +kernel) rfl (by decide +kernel)
  exact ⟨hdeclared, hfound, _, hcalls 2 _ "c" hc, by decide +kernel, by decide +kernel⟩

end Graph

end Rollout
