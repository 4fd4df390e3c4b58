import Rollout.Proofs.Plan.Making
/-!
A restart goes in the waves of a tear-down.  What waits for a service in reverse is a dependent of it, so the services
affected by a restart wait for each other only, and the layers of the whole graph restricted to them are their layers
(`Layered.restrict`).  So the plan of a restart is that of the tear-down, restricted to what is affected
(`restart_restricts`).

The argument needs nothing of how either plan is made.  The restricted plan is layered for the traversal of the restart,
and there is one layered plan for each traversal.  That the affected services are closed under dependents is what the
closure of the services named says; without it a service could lose a prerequisite to the restriction, and with that
some of its wave.
-/
namespace Rollout

namespace Traversal

variable {g : Graph} {named : List String} {name : String}

theorem covers_downstreamOf (hne : named ≠ []) :
    (downstreamOf named).Covers g name ↔ ∃ root ∈ named, name = root ∨ g.DependsOn name root := by
  cases named with
  | nil => exact absurd rfl hne
  | cons root others => exact Iff.rfl

theorem scope_downstreamOf (hne : named ≠ []) : (downstreamOf named).scope g = g.closure named :=
  scope_withRoots hne

end Traversal

namespace Plan

variable {p : Plan} {t t' : Traversal} {g : Graph} {names : List String} {name : String}

/-- Some services of a plan, in the waves that they have. -/
def restrict (p : Plan) (names : List String) : Plan := ⟨p.wave.filter fun name _ => name ∈ names⟩

theorem get?_restrict (p : Plan) (names : List String) (name : String) :
    (p.restrict names).wave.get? name = if name ∈ names then p.wave.get? name else none := by
  unfold restrict
  rw [Table.get?_filter]
  cases p.wave.get? name with
  | none => simp
  | some n => simp [Option.filter]

/-- **Layers stay layers** when they are restricted to services that wait for each other only. -/
theorem Layered.restrict (h : p.Layered t g) (hdirection : t'.direction = t.direction)
    (hnames : ∀ name, name ∈ names ↔ t'.Covers g name) (hcovered : ∀ name, t'.Covers g name → t.Covers g name)
    (hclosed : ∀ a b, t'.Covers g a → t'.direction.Requires g a b → t'.Covers g b) :
    (p.restrict names).Layered t' g := by
  refine ⟨fun name => ?_, fun name n hname => ?_⟩
  · show name ∈ (p.restrict names).wave.keys ↔ t'.Covers g name
    rw [← Table.get?_isSome_iff, get?_restrict, ← hnames name]
    split
    · rename_i hmem
      obtain ⟨n, hn⟩ := h.exists_wave (hcovered name ((hnames name).1 hmem))
      simp [hn, hmem]
    · rename_i hout
      simp [hout]
  · rw [get?_restrict] at hname
    split at hname
    · rename_i hmem
      have hsame : (t'.direction.prerequisites g name).filterMap (p.restrict names).wave.get? =
          (t'.direction.prerequisites g name).filterMap p.wave.get? := by
        refine List.filterMap_congr fun b hb => ?_
        have hb : t'.Covers g b := hclosed name b ((hnames name).1 hmem) (Direction.mem_prerequisites_iff.1 hb)
        rw [get?_restrict, if_pos ((hnames b).2 hb)]
      rw [hsame, hdirection]
      exact h.wave name n hname
    · cases hname

/-- **The plan of a restart is the plan of the tear-down, restricted to what is affected.**  It holds the services
named and all that depends on them, each in the wave that it has when everything is torn down.  The order and the
repeats of the names make no difference, nor do the limits of the two plans. -/
theorem restart_restricts {c : Config} (hg : c.graph = .ok g) {named : List String} (hne : named ≠ [])
    (hnamed : ∀ name ∈ named, name ∈ g.services) :
    ∃ affected down, g.closure named = .ok affected ∧
      (∀ name, name ∈ affected ↔ ∃ root ∈ named, name = root ∨ g.DependsOn name root) ∧
      (∀ limit, ofGraph g .down limit false = .made down) ∧
      (∀ again limit, (∀ name, name ∈ again ↔ name ∈ named) →
        ofGraph g (.restart again) limit false = .made (down.restrict affected)) ∧
      (down.restrict affected).services = affected ∧
      ∀ name ∈ affected, ∃ wave, name ∈ (down.restrict affected).members wave ∧ name ∈ down.members wave := by
  have hroots : (Traversal.downstreamOf named).Known g := by
    have hknown : Operation.Known (.restart named) g := by
      rintro roots ⟨⟩
      exact hnamed
    exact hknown.traversal
  obtain ⟨affected, hscope, hascending, hmem⟩ := Traversal.scope_of_known hroots
  rw [Traversal.scope_downstreamOf hne] at hscope
  obtain ⟨down, hdown, hall⟩ := exists_layered_forall hg (o := .down) nofun
  have hrestricted : ∀ again, (∀ name, name ∈ again ↔ name ∈ named) →
      (down.restrict affected).Layered (Traversal.downstreamOf again) g := by
    intro again hagain
    have hsome : again ≠ [] := by
      obtain ⟨name, hname⟩ := List.exists_mem_of_ne_nil named hne
      exact List.ne_nil_of_mem ((hagain name).2 hname)
    have hcovers : ∀ name,
        (Traversal.downstreamOf again).Covers g name ↔ (Traversal.downstreamOf named).Covers g name := by
      intro name
      rw [Traversal.covers_downstreamOf hsome, Traversal.covers_downstreamOf hne]
      simp only [hagain]
    refine hdown.restrict rfl (fun name => (hmem name).trans (hcovers name).symm) (fun name hname => ?_) ?_
    · exact Traversal.mem_services_of_covers hroots ((hcovers name).1 hname)
    · exact fun a b ha hab => ha.dependent hab
  have hplan := hrestricted named fun _ => Iff.rfl
  refine ⟨affected, down, hscope, fun name => (hmem name).trans (Traversal.covers_downstreamOf hne), hall, ?_, ?_, ?_⟩
  · intro again limit hagain
    have hknown : Operation.Known (.restart again) g := by
      rintro roots ⟨⟩ name hname
      exact hnamed name ((hagain name).1 hname)
    obtain ⟨p, hp, hlayered⟩ := exists_layered hg hknown limit
    rw [hp, hlayered.unique (hrestricted again hagain)]
  · exact ascending_ext (Table.ascending_keys _) hascending fun name => (hplan.services name).trans (hmem name).symm
  · intro name hname
    obtain ⟨wave, hwave⟩ := hplan.exists_wave ((hmem name).1 hname)
    refine ⟨wave, mem_members_iff.2 hwave, mem_members_iff.2 ?_⟩
    rwa [get?_restrict, if_pos hname] at hwave

theorem restart_restricts_pair : ∃ affected down, Deployment.pair.graph.closure ["db"] = .ok affected ∧
    ofGraph Deployment.pair.graph .down (Limit.ofNat? 1) false = .made down ∧
    ofGraph Deployment.pair.graph (.restart ["db", "db"]) none false = .made (down.restrict affected) := by
  have hnamed : ∀ name ∈ ["db"], name ∈ Deployment.pair.graph.services := by decide +kernel
  obtain ⟨affected, down, hclosure, -, hdown, hrestart, -, -⟩ :=
    restart_restricts Config.graph_pair (List.cons_ne_nil "db" []) hnamed
  exact ⟨affected, down, hclosure, hdown _, hrestart ["db", "db"] none fun name => by simp⟩

end Plan

end Rollout
