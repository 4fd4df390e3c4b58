import Mathlib.Logic.ExistsUnique
import Mathlib.Logic.Relation
import Rollout.Path
/-!
The directories around a path.  The parent of a path is what is left without its last piece that leads somewhere
(`Path.parent?`), and `Path.Within` goes from parent to parent: a path lies within itself and within every directory
around it.  There is one of these at each depth from that of the path down to the root (`exists_unique_depth`), and
`Path.chain` lists them, nearest first (`mem_chain_iff`).

The depth of a path counts the pieces that lead somewhere, and the parent is one less deep.  So what holds of the top,
and of each path whose parent it holds of, holds of all paths (`induction_on_parent`); that is the induction of every
proof about the directories around a path.
-/
namespace Rollout

namespace Path

open Relation (ReflTransGen)

variable {p q d : Path}

/-- The directory around a path.  A path that leads nowhere has none. -/
def parent? (p : Path) : Option Path :=
  match p.pieces.dropWhile isIdle with
  | [] => none
  | _ :: rest => some ⟨p.absolute, rest.dropWhile isIdle⟩

def Within (p d : Path) : Prop := ReflTransGen (fun a b => a.parent? = some b) p d

def depth (p : Path) : Nat := p.pieces.countP fun piece => !isIdle piece

/-! ## Pieces that lead nowhere -/

theorem countP_dropWhile (pieces : List String) :
    (pieces.dropWhile isIdle).countP (fun piece => !isIdle piece) = pieces.countP fun piece => !isIdle piece := by
  induction pieces with
  | nil => rfl
  | cons piece rest ih =>
    rw [List.dropWhile_cons]
    split
    · next hidle => rw [ih, List.countP_cons_of_neg (by simp [hidle])]
    · rfl

theorem outer_dropWhile (pieces : List String) : outer (pieces.dropWhile isIdle) = outer pieces := by
  induction pieces with
  | nil => rfl
  | cons piece rest ih =>
    rw [List.dropWhile_cons]
    split
    · next hidle => rw [ih, outer, if_pos hidle]
    · rfl

/-! ## Parents -/

theorem parent?_cases (p : Path) : (p.pieces.dropWhile isIdle = [] ∧ p.parent? = none) ∨
    ∃ piece rest, p.pieces.dropWhile isIdle = piece :: rest ∧ isIdle piece = false ∧
      p.parent? = some ⟨p.absolute, rest.dropWhile isIdle⟩ := by
  unfold parent?
  cases hpieces : p.pieces.dropWhile isIdle with
  | nil => exact Or.inl ⟨rfl, rfl⟩
  | cons piece rest =>
    have hhead := List.head?_dropWhile_not isIdle p.pieces
    rw [hpieces] at hhead
    exact Or.inr ⟨piece, rest, rfl, hhead, rfl⟩

theorem of_parent? (h : p.parent? = some q) :
    q.absolute = p.absolute ∧ p.depth = q.depth + 1 ∧ p.chain = p :: q.chain := by
  rcases parent?_cases p with ⟨-, hnone⟩ | ⟨piece, rest, hpieces, hpiece, hparent⟩
  · rw [hnone] at h
    cases h
  · obtain rfl := Option.some.inj (hparent.symm.trans h)
    refine ⟨rfl, ?_, ?_⟩
    · unfold depth
      rw [← countP_dropWhile p.pieces, hpieces, countP_dropWhile, List.countP_cons_of_pos (by simp [hpiece])]
    · unfold chain
      rw [← outer_dropWhile p.pieces, hpieces, outer, if_neg (by simp [hpiece]), ← outer_dropWhile rest]
      rfl

theorem of_parent?_eq_none (h : p.parent? = none) : p.depth = 0 ∧ p.chain = [p] := by
  rcases parent?_cases p with ⟨hpieces, -⟩ | ⟨piece, rest, -, -, hparent⟩
  · unfold depth chain
    rw [← countP_dropWhile p.pieces, ← outer_dropWhile p.pieces, hpieces]
    exact ⟨rfl, rfl⟩
  · rw [hparent] at h
    cases h

/-- **What holds of the top and of each path whose parent it holds of holds of all paths.** -/
theorem induction_on_parent {motive : Path → Prop} (top : ∀ p, p.parent? = none → motive p)
    (step : ∀ p q, p.parent? = some q → motive q → motive p) (p : Path) : motive p := by
  induction hp : p.depth generalizing p with
  | zero =>
    cases hparent : p.parent? with
    | none => exact top p hparent
    | some q =>
      rw [(of_parent? hparent).2.1] at hp
      cases hp
  | succ n ih =>
    cases hparent : p.parent? with
    | none => exact top p hparent
    | some q =>
      have hdepth := (of_parent? hparent).2.1
      exact step p q hparent (ih q (by omega))

/-! ## The directories around a path -/

theorem within_of_top (h : p.parent? = none) : p.Within d ↔ d = p := by
  constructor
  · intro hd
    rcases ReflTransGen.cases_head hd with rfl | ⟨q, hparent, -⟩
    · rfl
    · rw [h] at hparent
      cases hparent
  · rintro rfl
    exact .refl

theorem within_of_parent (h : p.parent? = some q) : p.Within d ↔ d = p ∨ q.Within d := by
  constructor
  · intro hd
    rcases ReflTransGen.cases_head hd with rfl | ⟨q', hparent, hq⟩
    · exact Or.inl rfl
    · obtain rfl : q = q' := Option.some.inj (h.symm.trans hparent)
      exact Or.inr hq
  · rintro (rfl | hq)
    · exact .refl
    · exact .head h hq

theorem Within.depth_le (h : p.Within d) : d.depth ≤ p.depth := by
  unfold Within at h
  induction h with
  | refl => exact Nat.le_refl _
  | tail _ hparent ih =>
    have hdepth := (of_parent? hparent).2.1
    omega

theorem Within.absolute (h : p.Within d) : d.absolute = p.absolute := by
  unfold Within at h
  induction h with
  | refl => rfl
  | tail _ hparent ih => exact (of_parent? hparent).1.trans ih

/-- **There is one directory at each depth up to that of the path.** -/
theorem exists_unique_depth (p : Path) {n : Nat} (hn : n ≤ p.depth) : ∃! d, p.Within d ∧ d.depth = n := by
  induction p using induction_on_parent with
  | top p htop =>
    have hdepth := (of_parent?_eq_none htop).1
    exact ⟨p, ⟨.refl, by omega⟩, fun d hd => (within_of_top htop).1 hd.1⟩
  | step p q hparent ih =>
    have hdepth := (of_parent? hparent).2.1
    rcases Nat.lt_or_eq_of_le hn with hlt | rfl
    · obtain ⟨d, ⟨hd, hdn⟩, hunique⟩ := ih (by omega)
      refine ⟨d, ⟨(within_of_parent hparent).2 (Or.inr hd), hdn⟩, fun d' hd' => ?_⟩
      rcases (within_of_parent hparent).1 hd'.1 with rfl | hq
      · omega
      · exact hunique d' ⟨hq, hd'.2⟩
    · refine ⟨p, ⟨.refl, rfl⟩, fun d hd => ?_⟩
      rcases (within_of_parent hparent).1 hd.1 with rfl | hq
      · rfl
      · have hle := hq.depth_le
        omega

/-- **The chain lists the path and the directories around it.** -/
theorem mem_chain_iff : d ∈ p.chain ↔ p.Within d := by
  induction p using induction_on_parent with
  | top p htop => rw [(of_parent?_eq_none htop).2, List.mem_singleton, within_of_top htop]
  | step p q hparent ih => rw [(of_parent? hparent).2.2, List.mem_cons, within_of_parent hparent, ih]

end Path

end Rollout
