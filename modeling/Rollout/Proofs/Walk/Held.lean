import Rollout.Proofs.Walk.Conduct
import Rollout.Proofs.Walk.Slots
/-!
What holds a visit up.  Once the run queue is empty, a visit in flight is inside an action of its own that waits for
what is not there (`HeldInside`), or it is in line for a slot while other visits have them all (`HeldInLine`).  Those
others are inside their own actions, so some visit always is, as long as one is in flight (`Reached.exists_underWay`).

Each stage is at some place, in the run queue or in one of the lines, and whoever could have a turn stands in the run
queue (`Reached.hasTurn_eq_false`).  So at a rest the stages that are left are those of visits that wait, and what they
wait for is not there: otherwise they would have been woken.  A slot that was handed to a visit is taken up in a turn of
that visit, so at a rest the slots that are held are those of the visits under way (`Reached.held_eq_length`).
-/
namespace Rollout

theorem Stage.underWay_eq (stage : Stage) : stage.underWay = true ↔ stage.progress = .underWay := by
  cases stage <;> simp [Stage.underWay, Stage.progress]

namespace State

variable {w : Walk} {s : State} {name : String}

/-! ## Views of the visits -/

theorem mem_inFlight_iff : name ∈ s.inFlight ↔ ∃ stage, s.stages.get? name = some stage ∧ stage.inFlight = true := by
  unfold inFlight
  simp [Table.get?_eq_some_iff]

theorem mem_underWay_iff : name ∈ s.underWay ↔ ∃ stage, s.stages.get? name = some stage ∧ stage.underWay = true := by
  unfold underWay
  simp [Table.get?_eq_some_iff]

theorem mem_underWay_iff_progress : name ∈ s.underWay ↔ s.outline.progress name = some .underWay := by
  show _ ↔ (s.stages.get? name).map Stage.progress = some .underWay
  simp only [mem_underWay_iff, Stage.underWay_eq, Option.map_eq_some_iff]

theorem mem_inFlight_of_mem_underWay (h : name ∈ s.underWay) : name ∈ s.inFlight := by
  obtain ⟨stage, hstage, hunder⟩ := mem_underWay_iff.1 h
  have hprogress : stage.progress = .underWay := stage.underWay_eq.1 hunder
  exact mem_inFlight_iff.2 ⟨stage, hstage, (Stage.inFlight_eq stage).2 (Or.inr hprogress)⟩

theorem ascending_filter (s : State) (p : String × Stage → Bool) :
    Ascending ((s.stages.entries.filter p).map Prod.fst) := by
  have hsub : ((s.stages.entries.filter p).map Prod.fst).Sublist s.stages.keys := List.filter_sublist.map Prod.fst
  exact s.stages.ascending_keys.sublist hsub

theorem nodup_underWay (s : State) : s.underWay.Nodup :=
  (ascending_filter s fun e => e.2.underWay).imp fun {_ _} h => Names.ne_of_lt h

/-- The visits that have a slot, whether they have taken it up or not. -/
def slotHolders (s : State) : List String := (s.stages.entries.filter fun e => e.2.holdsSlot).map Prod.fst

theorem mem_slotHolders_iff :
    name ∈ s.slotHolders ↔ ∃ stage, s.stages.get? name = some stage ∧ stage.holdsSlot = true := by
  unfold slotHolders
  simp [Table.get?_eq_some_iff]

theorem sublist_underWay (s : State) : s.underWay.Sublist s.slotHolders := by
  refine (List.monotone_filter_right s.stages.entries ?_).map Prod.fst
  rintro ⟨_, stage⟩ hunder
  cases stage <;> first | rfl | cases hunder

/-! ## What holds a visit up -/

/-- The visit is inside an action that waits, and what it waits for is not there. -/
inductive HeldInside (w : Walk) (s : State) (name : String) : Prop where
  | release {rest : List Action} : s.stages.get? name = some (.awaitingRelease rest) →
      .wait :: rest <:+ w.visitor name → name ∉ s.releases → HeldInside w s name
  | cancellation {rest : List Action} : s.stages.get? name = some (.awaitingCancel rest) →
      .waitCancel :: rest <:+ w.visitor name → s.tokenCancelled = false → HeldInside w s name

/-- The visit is in line for a slot, and all slots are held by other visits. -/
structure HeldInLine (w : Walk) (s : State) (name : String) : Prop where
  stage : s.stages.get? name = some .awaitingSlot
  token : s.tokenCancelled = false
  slots : ∃ limit, w.limit = some limit ∧ s.underWay.length = limit.slots
  nodup : s.underWay.Nodup
  others : ∀ n ∈ s.underWay, n ≠ name ∧ n ∈ s.inFlight ∧ HeldInside w s n

theorem HeldInside.mem_underWay (h : HeldInside w s name) : name ∈ s.underWay := by
  cases h with
  | release hstage _ _ => exact mem_underWay_iff.2 ⟨_, hstage, rfl⟩
  | cancellation hstage _ _ => exact mem_underWay_iff.2 ⟨_, hstage, rfl⟩

theorem HeldInside.mem_visitor (h : HeldInside w s name) : .wait ∈ w.visitor name ∨ .waitCancel ∈ w.visitor name := by
  cases h with
  | release _ hsuffix _ => exact Or.inl (hsuffix.subset List.mem_cons_self)
  | cancellation _ hsuffix _ => exact Or.inr (hsuffix.subset List.mem_cons_self)

/-! ## At a rest -/

variable {statuses : Table Status} {callerCancelled : Bool} {acts : List Outside} {stage : Stage}

/-- **At a rest no visit could have a turn**: whoever could stands in the run queue. -/
theorem Reached.hasTurn_eq_false (hw : w.Sound) (hst : ∀ n ∈ w.scope, n ∈ statuses.keys)
    (h : Reached w statuses callerCancelled acts s) (hqueue : s.queue = [])
    (hstage : s.stages.get? name = some stage) : stage.hasTurn s.tokenCancelled = false := by
  have hfits := (h.placed hw hst).fits name stage hstage
  have hout : name ∉ s.roster.queue := by
    show name ∉ s.queue
    rw [hqueue]
    exact List.not_mem_nil
  cases stage with
  | dispatched => exact absurd hfits hout
  | granted => exact absurd hfits.2 hout
  | running rest => exact absurd hfits hout
  | awaitingSlot =>
    obtain ⟨-, -, hwaits⟩ := hfits
    refine Bool.eq_false_iff.2 fun hc => ?_
    have hc : s.roster.cancelled = true := hc
    rw [if_pos hc] at hwaits
    exact hout hwaits
  | _ => rfl

/-- **At a rest a visit under way is inside an action that waits.** -/
theorem Reached.heldInside_of_underWay (hw : w.Sound) (hst : ∀ n ∈ w.scope, n ∈ statuses.keys)
    (h : Reached w statuses callerCancelled acts s) (hqueue : s.queue = []) (hname : name ∈ s.underWay) :
    HeldInside w s name := by
  obtain ⟨stage, hstage, hunder⟩ := mem_underWay_iff.1 hname
  have hturn := h.hasTurn_eq_false hw hst hqueue hstage
  have hfits := (h.placed hw hst).fits name stage hstage
  have hfollows := (h.faithful hw hst).follows name stage hstage
  cases stage with
  | running rest => cases hturn
  | awaitingRelease rest =>
    have hperformed : Performed (w.visitor name) (.wait :: rest) (notesOf name s.history) := hfollows
    exact .release hstage hperformed.suffix hfits
  | awaitingCancel rest =>
    have hperformed : Performed (w.visitor name) (.waitCancel :: rest) (notesOf name s.history) := hfollows
    exact .cancellation hstage hperformed.suffix hfits.1
  | _ => cases hunder

theorem Reached.length_slotHolders (hw : w.Sound) (hst : ∀ n ∈ w.scope, n ∈ statuses.keys)
    (h : Reached w statuses callerCancelled acts s) : s.slotHolders.length = s.roster.held w := by
  have hmem : ∀ n, n ∈ w.scope.filter (fun n => (s.roster.stage n).any Stage.holdsSlot) ↔ n ∈ s.slotHolders := by
    intro n
    rw [List.mem_filter, mem_slotHolders_iff, Option.any_eq_true]
    constructor
    · exact And.right
    · rintro ⟨stage, hstage, hholds⟩
      exact ⟨(h.placed hw hst).covered n stage hstage, stage, hstage, hholds⟩
  have hfilter : w.scope.filter (fun n => (s.roster.stage n).any Stage.holdsSlot) = s.slotHolders :=
    ascending_ext (hw.ascending.sublist List.filter_sublist) (ascending_filter s fun e => e.2.holdsSlot) hmem
  unfold Roster.held
  rw [List.countP_eq_length_filter, hfilter]

theorem Reached.held_eq_length (hw : w.Sound) (hst : ∀ n ∈ w.scope, n ∈ statuses.keys)
    (h : Reached w statuses callerCancelled acts s) (hqueue : s.queue = []) : s.roster.held w = s.underWay.length := by
  have hholds : ∀ e ∈ s.stages.entries, e.2.holdsSlot = e.2.underWay := by
    rintro ⟨n, stage⟩ he
    have hturn := h.hasTurn_eq_false hw hst hqueue (s.stages.get?_eq_some_iff.2 he)
    cases stage with
    | granted => cases hturn
    | _ => rfl
  rw [← h.length_slotHolders hw hst]
  unfold slotHolders underWay
  rw [List.filter_congr hholds]

/-- **At a rest a visit in line for a slot waits for others that have them all.** -/
theorem Reached.heldInLine_of_awaitingSlot (hw : w.Sound) (hst : ∀ n ∈ w.scope, n ∈ statuses.keys)
    (h : Reached w statuses callerCancelled acts s) (hqueue : s.queue = [])
    (hstage : s.stages.get? name = some .awaitingSlot) : HeldInLine w s name := by
  obtain ⟨hlimit, hline, -⟩ := (h.placed hw hst).fits name _ hstage
  obtain ⟨limit, hlimit⟩ := Option.isSome_iff_exists.1 hlimit
  have hshared := h.shared hw hst hlimit
  have hfree : s.roster.free = 0 := hshared.spent (List.ne_nil_of_mem hline)
  have hfull : s.underWay.length = limit.slots := by
    have htotal := hshared.total
    rw [hfree, Nat.zero_add, h.held_eq_length hw hst hqueue] at htotal
    exact htotal
  refine ⟨hstage, h.hasTurn_eq_false hw hst hqueue hstage, ⟨limit, hlimit, hfull⟩, nodup_underWay s, fun n hn => ?_⟩
  refine ⟨?_, mem_inFlight_of_mem_underWay hn, h.heldInside_of_underWay hw hst hqueue hn⟩
  rintro rfl
  have hprogress := (mem_underWay_iff_progress.1 hn).symm.trans (progress_of_get? hstage)
  cases hprogress

/-- **At a rest every visit in flight is held up, and for a reason that holds.** -/
theorem Reached.held_up (hw : w.Sound) (hst : ∀ n ∈ w.scope, n ∈ statuses.keys)
    (h : Reached w statuses callerCancelled acts s) (hqueue : s.queue = []) (hname : name ∈ s.inFlight) :
    HeldInside w s name ∨ HeldInLine w s name := by
  obtain ⟨stage, hstage, hflight⟩ := mem_inFlight_iff.1 hname
  have hturn := h.hasTurn_eq_false hw hst hqueue hstage
  rcases (Stage.inFlight_eq stage).1 hflight with hwaiting | hunder
  · cases stage with
    | dispatched => cases hturn
    | granted => cases hturn
    | awaitingSlot => exact Or.inr (h.heldInLine_of_awaitingSlot hw hst hqueue hstage)
    | _ => cases hwaiting
  · have hmem : name ∈ s.underWay := mem_underWay_iff.2 ⟨stage, hstage, stage.underWay_eq.2 hunder⟩
    exact Or.inl (h.heldInside_of_underWay hw hst hqueue hmem)

/-- **While a visit is in flight at a rest, one is under way**: whoever is in line waits for such a visit. -/
theorem Reached.exists_underWay (hw : w.Sound) (hst : ∀ n ∈ w.scope, n ∈ statuses.keys)
    (h : Reached w statuses callerCancelled acts s) (hqueue : s.queue = []) (hdone : s.done = false) :
    ∃ n ∈ s.underWay, HeldInside w s n := by
  have hsome : s.inFlight ≠ [] := by
    intro hnil
    unfold done at hdone
    rw [hnil, List.isEmpty_nil, Bool.or_true] at hdone
    cases hdone
  obtain ⟨name, hname⟩ := List.exists_mem_of_ne_nil _ hsome
  have hunder : s.underWay ≠ [] := by
    rcases h.held_up hw hst hqueue hname with hinside | hline
    · exact List.ne_nil_of_mem hinside.mem_underWay
    · obtain ⟨limit, -, hfull⟩ := hline.slots
      have hpos : 0 < s.underWay.length := hfull ▸ limit.pos
      exact List.ne_nil_of_length_pos hpos
  obtain ⟨n, hn⟩ := List.exists_mem_of_ne_nil _ hunder
  exact ⟨n, hn, h.heldInside_of_underWay hw hst hqueue hn⟩

end State

end Rollout
