/-!
Names in ascending order.  A set of names is kept as the list of its members in strictly ascending order of their code
points, so two lists with the same members are the same list (`ascending_ext`), and a set prints in one way only.
`Names.ofList` is the only way such a list is built from an arbitrary one; its statements are `mem_ofList` and
`ascending_ofList`.

Everything that is sorted in this library is sorted this way: the services of a graph, its neighbours, the scope of a
walk and the keys of a table.  So an order is never carried along as a fact of its own; it is `Ascending`, and two
ascending lists are compared by their members.
-/
namespace Rollout

/-- Every name is below all later ones, so the list is sorted and holds no name twice. -/
abbrev Ascending (names : List String) : Prop := names.Pairwise (· < ·)

namespace Names

def insert (name : String) : List String → List String
  | [] => [name]
  | head :: tail =>
    if name < head then name :: head :: tail
    else if name = head then head :: tail
    else head :: insert name tail

def ofList (names : List String) : List String := names.foldr insert []

/-! ## The order on names -/

theorem lt_of_not_lt_of_ne {a b : String} (h : ¬ a < b) (hne : a ≠ b) : b < a := by
  rcases String.le_total a b with hab | hba
  · exact absurd (String.le_antisymm hab (String.not_lt.1 h)) hne
  · exact Decidable.byContradiction fun hlt => hne (String.le_antisymm (String.not_lt.1 hlt) hba)

theorem ne_of_lt {a b : String} (h : a < b) : a ≠ b := by
  rintro rfl
  exact String.lt_irrefl a h

/-! ## Members -/

@[simp] theorem mem_insert {x name : String} {names : List String} :
    x ∈ insert name names ↔ x = name ∨ x ∈ names := by
  induction names with
  | nil => simp [insert]
  | cons head tail ih =>
    unfold insert
    split
    · simp
    · split
      · next h => simp [h]
      · simp only [List.mem_cons, ih]
        constructor
        · rintro (h | h | h) <;> simp [h]
        · rintro (h | h | h) <;> simp [h]

@[simp] theorem mem_ofList {x : String} {names : List String} : x ∈ ofList names ↔ x ∈ names := by
  induction names with
  | nil => simp [ofList]
  | cons head tail ih => simpa [ofList] using or_congr_right ih

/-! ## The order of the members -/

theorem ascending_insert {name : String} {names : List String} (h : Ascending names) :
    Ascending (insert name names) := by
  induction names with
  | nil => simp [insert]
  | cons head tail ih =>
    obtain ⟨hhead, htail⟩ := List.pairwise_cons.1 h
    unfold insert
    split
    · next hlt =>
      refine List.pairwise_cons.2 ⟨fun x hx => ?_, h⟩
      rcases List.mem_cons.1 hx with rfl | hx
      · exact hlt
      · exact String.lt_trans hlt (hhead x hx)
    · split
      · exact h
      · next hlt hne =>
        refine List.pairwise_cons.2 ⟨fun x hx => ?_, ih htail⟩
        rcases mem_insert.1 hx with rfl | hx
        · exact lt_of_not_lt_of_ne hlt hne
        · exact hhead x hx

theorem ascending_ofList (names : List String) : Ascending (ofList names) := by
  induction names with
  | nil => simp [ofList]
  | cons head tail ih => exact ascending_insert ih

end Names

/-- **Members decide an ascending list.** -/
theorem ascending_ext : ∀ {l₁ l₂ : List String}, Ascending l₁ → Ascending l₂ → (∀ x, x ∈ l₁ ↔ x ∈ l₂) → l₁ = l₂
  | [], [], _, _, _ => rfl
  | [], b :: _, _, _, h => absurd ((h b).2 (by simp)) (by simp)
  | a :: _, [], _, _, h => absurd ((h a).1 (by simp)) (by simp)
  | a :: l₁, b :: l₂, h₁, h₂, h => by
    obtain ⟨ha, htail₁⟩ := List.pairwise_cons.1 h₁
    obtain ⟨hb, htail₂⟩ := List.pairwise_cons.1 h₂
    have hab : a = b := by
      rcases List.mem_cons.1 ((h a).1 (by simp)) with hab | hab
      · exact hab
      · rcases List.mem_cons.1 ((h b).2 (by simp)) with hba | hba
        · exact hba.symm
        · exact absurd (String.lt_trans (hb a hab) (ha b hba)) (String.lt_irrefl b)
    subst hab
    refine congrArg (a :: ·) (ascending_ext htail₁ htail₂ fun x => ?_)
    constructor
    · intro hx
      rcases List.mem_cons.1 ((h x).1 (List.mem_cons_of_mem a hx)) with rfl | hx'
      · exact absurd (ha x hx) (String.lt_irrefl x)
      · exact hx'
    · intro hx
      rcases List.mem_cons.1 ((h x).2 (List.mem_cons_of_mem a hx)) with rfl | hx'
      · exact absurd (hb x hx) (String.lt_irrefl x)
      · exact hx'

namespace Names

theorem ofList_of_ascending {names : List String} (h : Ascending names) : ofList names = names :=
  ascending_ext (ascending_ofList names) h fun _ => mem_ofList

theorem ofList_of_perm {names sorted : List String} (h : names.Perm sorted) (hsorted : Ascending sorted) :
    ofList names = sorted := ascending_ext (ascending_ofList names) hsorted fun _ => mem_ofList.trans h.mem_iff

end Names

end Rollout
