import Mathlib.Data.List.Find
import Rollout.Config.Lookup
import Rollout.Proofs.Path
/-!
Which configuration is found.  A lookup tries the two names in a directory and, if neither is there, goes on in the
directory around it (`locate_of_held`, `locate_of_parent`, `locate_of_top`).  So it finds the nearest directory that
holds a configuration, and which names are there anywhere else makes no difference (`locate_nearest`).

What a directory holds is `Held`: the configuration with the preferred name, or else the one with the other name.  A
directory that holds neither is `Bare`.  The directories around a path are counted by how far up they are, so there is
one at each depth, from that of the path down to the root, and at most one of them is the nearest with a configuration
(`Nearest.unique`).  A lookup comes to that one, or it fails because all of them are bare up to the root
(`locate_cases`).
-/
namespace Rollout

namespace Config

variable {present present' : Path → Bool} {directory q found : Path}

/-- The configuration that a directory holds: the one with the preferred name, or else the one with the other name. -/
def Held (present : Path → Bool) (d found : Path) : Prop :=
  present found = true ∧ (found = d.child "service-federation.yaml" ∨
    found = d.child "service-federation.yml" ∧ present (d.child "service-federation.yaml") = false)

def Bare (present : Path → Bool) (d : Path) : Prop :=
  present (d.child "service-federation.yaml") = false ∧ present (d.child "service-federation.yml") = false

/-! ## One directory -/

theorem Held.not_bare (h : Held present directory found) : ¬ Bare present directory := by
  rintro ⟨hyaml, hyml⟩
  obtain ⟨hfound, rfl | ⟨rfl, -⟩⟩ := h
  · rw [hyaml] at hfound
    cases hfound
  · rw [hyml] at hfound
    cases hfound

theorem Held.unique {other : Path} (h : Held present directory found) (hother : Held present directory other) :
    found = other := by
  obtain ⟨hfound, rfl | ⟨rfl, hnone⟩⟩ := h
  · obtain ⟨-, rfl | ⟨-, hnone⟩⟩ := hother
    · rfl
    · rw [hnone] at hfound
      cases hfound
  · obtain ⟨hother, rfl | ⟨rfl, -⟩⟩ := hother
    · rw [hnone] at hother
      cases hother
    · rfl

theorem find?_cases (present : Path → Bool) (d : Path) :
    (∃ found, (fileNames.map d.child).find? present = some found ∧ Held present d found) ∨
      (fileNames.map d.child).find? present = none ∧ Bare present d := by
  unfold fileNames
  cases hyaml : present (d.child "service-federation.yaml") with
  | true => exact Or.inl ⟨_, by simp [hyaml], hyaml, Or.inl rfl⟩
  | false =>
    cases hyml : present (d.child "service-federation.yml") with
    | true => exact Or.inl ⟨_, by simp [hyaml, hyml], hyml, Or.inr ⟨rfl, hyaml⟩⟩
    | false => exact Or.inr ⟨by simp [hyaml, hyml], hyaml, hyml⟩

/-! ## From one directory to the next -/

theorem candidates_cons {rest : List Path} (h : directory.chain = directory :: rest) :
    candidates directory = fileNames.map directory.child ++ rest.flatMap fun d => fileNames.map d.child := by
  unfold candidates
  rw [h, List.flatMap_cons]

theorem locate_of_held (h : Held present directory found) : locate present directory = .ok found := by
  rcases find?_cases present directory with ⟨other, hfind, hother⟩ | ⟨-, hbare⟩
  · unfold locate
    rw [candidates_cons rfl, List.find?_append, hfind, h.unique hother]
    rfl
  · exact absurd hbare h.not_bare

theorem locate_of_parent (hbare : Bare present directory) (h : directory.parent? = some q) :
    locate present directory = locate present q := by
  rcases find?_cases present directory with ⟨other, -, hother⟩ | ⟨hfind, -⟩
  · exact absurd hbare hother.not_bare
  · unfold locate
    rw [candidates_cons (Path.of_parent? h).2.2, List.find?_append, hfind]
    rfl

theorem locate_of_top (hbare : Bare present directory) (h : directory.parent? = none) :
    locate present directory = .error notFound := by
  rcases find?_cases present directory with ⟨other, -, hother⟩ | ⟨hfind, -⟩
  · exact absurd hbare hother.not_bare
  · unfold locate
    rw [candidates_cons (Path.of_parent?_eq_none h).2, List.find?_append, hfind]
    rfl

/-! ## The nearest directory -/

/-- `d` is the nearest of the directories around a path that holds a configuration. -/
structure Nearest (present : Path → Bool) (directory d : Path) : Prop where
  within : directory.Within d
  deepest : ∀ nearer, directory.Within nearer → d.depth < nearer.depth → Bare present nearer

theorem Nearest.unique {d d' found' : Path} (h : Nearest present directory d) (hfound : Held present d found)
    (h' : Nearest present directory d') (hfound' : Held present d' found') : d = d' := by
  rcases Nat.lt_trichotomy d.depth d'.depth with hlt | heq | hlt
  · exact absurd (h.deepest d' h'.within hlt) hfound'.not_bare
  · obtain ⟨e, -, hunique⟩ := directory.exists_unique_depth h'.within.depth_le
    exact (hunique d ⟨h.within, heq⟩).trans (hunique d' ⟨h'.within, rfl⟩).symm
  · exact absurd (h'.deepest d h.within hlt) hfound.not_bare

/-- **What a lookup comes to**, by what the directories hold. -/
theorem locate_cases (present : Path → Bool) (directory : Path) :
    (∃ d found, Nearest present directory d ∧ Held present d found ∧ locate present directory = .ok found) ∨
      (∀ d, directory.Within d → Bare present d) ∧ locate present directory = .error notFound := by
  induction directory using Path.induction_on_parent with
  | top p htop =>
    rcases find?_cases present p with ⟨found, -, hheld⟩ | ⟨-, hbare⟩
    · refine Or.inl ⟨p, found, ⟨.refl, fun nearer hnearer hlt => ?_⟩, hheld, locate_of_held hheld⟩
      exact absurd hnearer.depth_le (Nat.not_le.2 hlt)
    · refine Or.inr ⟨fun d hd => ?_, locate_of_top hbare htop⟩
      rw [(Path.within_of_top htop).1 hd]
      exact hbare
  | step p q hparent ih =>
    rcases find?_cases present p with ⟨found, -, hheld⟩ | ⟨-, hbare⟩
    · refine Or.inl ⟨p, found, ⟨.refl, fun nearer hnearer hlt => ?_⟩, hheld, locate_of_held hheld⟩
      exact absurd hnearer.depth_le (Nat.not_le.2 hlt)
    · -- nothing is here, so all is as it is for the parent
      rw [locate_of_parent hbare hparent]
      rcases ih with ⟨d, found, hnearest, hheld, hlocate⟩ | ⟨hall, hlocate⟩
      · refine Or.inl ⟨d, found, ⟨(Path.within_of_parent hparent).2 (Or.inr hnearest.within), ?_⟩, hheld, hlocate⟩
        intro nearer hnearer hlt
        rcases (Path.within_of_parent hparent).1 hnearer with rfl | hnearer
        · exact hbare
        · exact hnearest.deepest nearer hnearer hlt
      · refine Or.inr ⟨fun d hd => ?_, hlocate⟩
        rcases (Path.within_of_parent hparent).1 hd with rfl | hd
        · exact hbare
        · exact hall d hd

theorem mem_candidates_iff {path : Path} :
    path ∈ candidates directory ↔ ∃ d, directory.Within d ∧ ∃ name ∈ fileNames, path = d.child name := by
  unfold candidates
  simp only [List.mem_flatMap, List.mem_map, Path.mem_chain_iff, eq_comm]

theorem locate_congr (h : ∀ d, directory.Within d → ∀ name ∈ fileNames, present' (d.child name) = present (d.child name)) :
    locate present' directory = locate present directory := by
  have hfind : (candidates directory).find? present' = (candidates directory).find? present := by
    refine List.find?_congr fun path hpath => ?_
    obtain ⟨d, hd, name, hname, rfl⟩ := mem_candidates_iff.1 hpath
    exact h d hd name hname
  unfold locate
  rw [hfind]

/-- **A lookup finds the nearest configuration.**  Of the directories around an absolute path, one at each depth from
its own down to the root, the deepest that holds a configuration counts, and in it the preferred name.  There is none to
be found if and only if none of them holds one, up to the root and with it.  What is there anywhere else makes no
difference. -/
theorem locate_nearest (present : Path → Bool) {directory : Path} (habsolute : directory.absolute = true) :
    (∀ n ≤ directory.depth, ∃! d, directory.Within d ∧ d.depth = n) ∧
    (∀ d, directory.Within d → d.absolute = true) ∧
    (∀ found, locate present directory = .ok found ↔
      ∃ d, directory.Within d ∧ (∀ nearer, directory.Within nearer → d.depth < nearer.depth → Bare present nearer) ∧
        Held present d found) ∧
    (∀ failure, locate present directory = .error failure ↔
      failure = .config "Could not find service-federation.yaml in current directory or any parent" ∧
        ∀ d, directory.Within d → Bare present d) ∧
    ∀ present', (∀ d, directory.Within d → ∀ name ∈ fileNames, present' (d.child name) = present (d.child name)) →
      locate present' directory = locate present directory := by
  refine ⟨fun n hn => directory.exists_unique_depth hn, fun d hd => hd.absolute.trans habsolute, fun found => ?_,
    fun failure => ?_, fun present' => locate_congr⟩
  · constructor
    · intro h
      rcases locate_cases present directory with ⟨d, other, hnearest, hheld, hlocate⟩ | ⟨-, hlocate⟩
      · obtain rfl : found = other := Except.ok.inj (h.symm.trans hlocate)
        exact ⟨d, hnearest.within, hnearest.deepest, hheld⟩
      · rw [hlocate] at h
        cases h
    · rintro ⟨d, hwithin, hdeepest, hheld⟩
      rcases locate_cases present directory with ⟨d', other, hnearest, hother, hlocate⟩ | ⟨hall, -⟩
      · obtain rfl := Nearest.unique ⟨hwithin, hdeepest⟩ hheld hnearest hother
        rw [hlocate, hheld.unique hother]
      · exact absurd (hall d hwithin) hheld.not_bare
  · have hnotFound : notFound =
        .config "Could not find service-federation.yaml in current directory or any parent" := by decide
    rw [← hnotFound]
    rcases locate_cases present directory with ⟨d, found, hnearest, hheld, hlocate⟩ | ⟨hall, hlocate⟩
    · rw [hlocate]
      exact iff_of_false nofun fun h => hheld.not_bare (h.2 d hnearest.within)
    · rw [hlocate, and_iff_left hall, Except.error.injEq, eq_comm]

theorem locate_nearest_between :
    let there := ["/srv/service-federation.yaml", "/srv/app/service-federation.yml", "/srv/app/web/x/service-federation.yaml"]
    (Path.ofText "/srv/app//./web/").absolute = true ∧
      locate (fun path => path.text ∈ there) (Path.ofText "/srv/app//./web/") =
        .ok (Path.ofText "/srv/app/service-federation.yml") := by
  intro there
  have habsolute : (Path.ofText "/srv/app//./web/").absolute = true := by decide +kernel
  obtain ⟨-, -, hfound, -⟩ := locate_nearest (fun path => path.text ∈ there) habsolute
  have hparent : (Path.ofText "/srv/app//./web/").parent? = some ⟨true, ["app", "srv"]⟩ := by decide +kernel
  refine ⟨habsolute, (hfound _).2 ⟨⟨true, ["app", "srv"]⟩, .single hparent, fun nearer hnearer hlt => ?_, ?_⟩⟩
  · rcases (Path.within_of_parent hparent).1 hnearer with rfl | hnearer
    · exact ⟨by decide +kernel, by decide +kernel⟩
    · exact absurd hnearer.depth_le (Nat.not_le.2 hlt)
  · exact ⟨by decide +kernel, Or.inr ⟨by decide +kernel, by decide +kernel⟩⟩

end Config

end Rollout
