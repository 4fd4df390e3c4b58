import Rollout.Proofs.Walk.Trace
/-!
How the counts of a walk go with its visits.  A visit is dispatched only when all prerequisites of its service have
ended well, and while no failure is recorded each count says how many have not, and what is idle still waits for one
(`Balanced`).  The end of a visit is where the counts change: the visit ends well and is counted off for those that wait
for it in the same turn, and those it was the last one for are dispatched (`Balanced.conclude_ended`).

Between the two the counts do not go with the visits: the visit has ended well, and nobody has been told.  That state of
affairs has a name of its own, `Owed`, and two lemmas, one into it and one out of it (`Balanced.ended`, `Owed.round`).
If a failure is recorded by then nothing is counted off any more, and what the counts say is not asked any more either;
what stays is that a visit is dispatched after its prerequisites only.

All other steps leave the counts as they are and move a visit on that is neither idle nor ended well, which does not
concern the balance (`Balanced.put`).  The first round dispatches what has no prerequisites at all.
-/
namespace Rollout

theorem countP_without {name : String} {p q : String → Bool} (hname : p name = true) (hwithout : q name = false)
    (hothers : ∀ n, n ≠ name → q n = p n) :
    ∀ l : List String, l.Nodup → l.countP q + (if name ∈ l then 1 else 0) = l.countP p
  | [], _ => rfl
  | n :: l, h => by
    obtain ⟨hn, hl⟩ := List.nodup_cons.1 h
    have ih := countP_without hname hwithout hothers l hl
    rw [List.countP_cons, List.countP_cons]
    by_cases heq : n = name
    · subst heq
      rw [if_neg hn] at ih
      simp [hname, hwithout, ih]
    · simp only [List.mem_cons, Ne.symm heq, false_or, hothers n heq]
      omega

namespace Outline

/-- How many prerequisites of a service have not ended well. -/
def remaining (w : Walk) (o : Outline) (name : String) : Nat :=
  (w.prerequisites name).countP fun n => o.progress n ≠ some (.ended none)

structure Balanced (w : Walk) (o : Outline) : Prop where
  begun : ∀ n p, o.progress n = some p → p ≠ .idle → ∀ b ∈ w.prerequisites n, o.progress b = some (.ended none)
  counted : o.failure = none → ∀ n ∈ w.scope, o.unresolved n = some (o.remaining w n)
  waits : o.failure = none → ∀ n, o.progress n = some .idle → o.remaining w n ≠ 0

variable {w : Walk} {o o' : Outline} {name : String}

theorem remaining_eq_zero_iff :
    o.remaining w name = 0 ↔ ∀ b ∈ w.prerequisites name, o.progress b = some (.ended none) := by
  simp [remaining, List.countP_eq_zero]

theorem remaining_congr (h : ∀ n, o'.progress n = some (.ended none) ↔ o.progress n = some (.ended none)) :
    o'.remaining w name = o.remaining w name := by
  refine List.countP_congr fun n _ => ?_
  simp [h n]

/-! ## What changes no count -/

theorem Balanced.of_same (h : o.Balanced w) (hprogress : o'.progress = o.progress)
    (hunresolved : o'.unresolved = o.unresolved) (hfailure : o'.failure = none → o.failure = none) : o'.Balanced w := by
  have hremaining : ∀ n, o'.remaining w n = o.remaining w n := fun n => remaining_congr fun m => by rw [hprogress]
  refine ⟨fun n p hn hp b hb => ?_, fun hf n hn => ?_, fun hf n hn => ?_⟩
  · rw [hprogress] at hn ⊢
    exact h.begun n p hn hp b hb
  · rw [hunresolved, hremaining]
    exact h.counted (hfailure hf) n hn
  · rw [hprogress] at hn
    rw [hremaining]
    exact h.waits (hfailure hf) n hn

theorem Balanced.note (h : o.Balanced w) (e : Event) : (o.note e).Balanced w := h.of_same rfl rfl id

theorem Balanced.cancel (h : o.Balanced w) : o.cancel.Balanced w := h.of_same rfl rfl id

theorem notice_failure_eq_none (h : o.notice.failure = none) : o.failure = none := by
  unfold notice at h
  dsimp only at h
  split at h
  · simp at h
  · exact h

theorem Balanced.notice (h : o.Balanced w) : o.notice.Balanced w := h.of_same rfl rfl notice_failure_eq_none

theorem Balanced.record (h : o.Balanced w) (f : Failure) : Balanced w ({ o with tripped := true }.record f) := by
  refine h.of_same rfl rfl fun hf => ?_
  unfold Outline.record at hf
  dsimp only at hf
  split at hf
  · simp at hf
  · split at hf
    · simp at hf
    · simp at hf

theorem Balanced.put (h : o.Balanced w) {old new : Progress} (hold : o.progress name = some old) (hidle : old ≠ .idle)
    (hwell : old ≠ .ended none) (hidle' : new ≠ .idle) (hwell' : new ≠ .ended none) : (o.put name new).Balanced w := by
  have hsame : ∀ n, (o.put name new).progress n = some (.ended none) ↔ o.progress n = some (.ended none) := fun n => by
    by_cases hn : n = name
    · subst hn
      rw [progress_put_self hold, hold]
      simp [hwell, hwell']
    · rw [progress_put_other hn]
  refine ⟨fun n p hn hp b hb => ?_, fun hf n hn => ?_, fun hf n hn => ?_⟩
  · rw [hsame]
    by_cases heq : n = name
    · subst heq
      exact h.begun n old hold hidle b hb
    · rw [progress_put_other heq] at hn
      exact h.begun n p hn hp b hb
  · rw [remaining_congr hsame]
    exact h.counted hf n hn
  · rw [remaining_congr hsame]
    by_cases heq : n = name
    · subst heq
      rw [progress_put_self hold, Option.some.injEq] at hn
      exact absurd hn hidle'
    · rw [progress_put_other heq] at hn
      exact h.waits hf n hn

theorem Balanced.idle_of_awaits (h : o.Balanced w) (htidy : o.Tidy w) (hp : o.progress name = some .underWay)
    {n : String} (hn : n ∈ w.scope) (hb : name ∈ w.prerequisites n) : o.progress n = some .idle := by
  obtain ⟨p, hpn⟩ := Option.ne_none_iff_exists'.1 ((htidy.covered n).1 hn)
  by_cases hidle : p = .idle
  · rw [hpn, hidle]
  · have hended := h.begun n p hpn hidle name hb
    rw [hp] at hended
    cases hended

/-! ## A visit that ends well -/

theorem remaining_put_ended {old : Progress} (hold : o.progress name = some old) (hwell : old ≠ .ended none)
    (n : String) :
    (o.put name (.ended none)).remaining w n + (if name ∈ w.prerequisites n then 1 else 0) = o.remaining w n := by
  refine countP_without ?_ ?_ (fun m hm => ?_) _ (w.nodup_prerequisites n)
  · simp [hold, hwell]
  · simp [progress_put_self hold]
  · rw [progress_put_other hm]

/-- The visit of `name` has ended well, but is not counted off yet for those that wait for it. -/
structure Owed (w : Walk) (o : Outline) (name : String) : Prop where
  begun : ∀ n p, o.progress n = some p → p ≠ .idle → ∀ b ∈ w.prerequisites n, o.progress b = some (.ended none)
  counted : o.failure = none → ∀ n ∈ w.scope,
    o.unresolved n = some (o.remaining w n + if name ∈ w.prerequisites n then 1 else 0)
  waits : o.failure = none → ∀ n, o.progress n = some .idle →
    o.remaining w n + (if name ∈ w.prerequisites n then 1 else 0) ≠ 0

theorem Balanced.ended (h : o.Balanced w) {old : Progress} (hold : o.progress name = some old) (hidle : old ≠ .idle)
    (hwell : old ≠ .ended none) : ((o.put name (.ended none)).note (.ended name none)).Owed w name := by
  have hless := remaining_put_ended (w := w) hold hwell
  refine ⟨fun n p hn hp b hb => ?_, fun hf n hn => ?_, fun hf n hn => ?_⟩
  · have hended : o.progress b = some (.ended none) := by
      by_cases heq : n = name
      · subst heq
        exact h.begun n old hold hidle b hb
      · exact h.begun n p ((progress_put_other heq).symm.trans hn) hp b hb
    by_cases heq : b = name
    · subst heq
      exact progress_put_self hold
    · exact (progress_put_other heq).trans hended
  · exact (h.counted hf n hn).trans (congrArg some (hless n).symm)
  · have hwaits : o.remaining w n ≠ 0 := by
      refine h.waits hf n ?_
      by_cases heq : n = name
      · subst heq
        have hend : some (Progress.ended none) = some .idle := (progress_put_self hold).symm.trans hn
        cases hend
      · exact (progress_put_other heq).symm.trans hn
    rw [← hless n] at hwaits
    exact hwaits

theorem progress_dispatch_ended {names : List String} {n : String} :
    (o.dispatch names).progress n = some (.ended none) ↔ o.progress n = some (.ended none) := by
  rw [progress_dispatch]
  split
  · rename_i h
    simp [h.2]
  · exact Iff.rfl

theorem Owed.mem_lastFor_iff (h : o.Owed w name) (hname : name ∈ w.scope) (hf : o.failure = none) (n : String) :
    n ∈ o.lastFor w name ↔ n ∈ w.scope ∧ name ∈ w.prerequisites n ∧ o.remaining w n = 0 := by
  unfold lastFor
  rw [List.mem_filter, Walk.mem_successors_iff hname, and_assoc]
  refine and_congr_right fun hn => and_congr_right fun hb => ?_
  simp [h.counted hf n hn, hb]

theorem Owed.round (h : o.Owed w name) (htidy : o.Tidy w) (hname : name ∈ w.scope) (hf : o.failure = none) :
    ((o.counted w name).dispatch (o.lastFor w name)).Balanced w := by
  have hremaining : ∀ n, ((o.counted w name).dispatch (o.lastFor w name)).remaining w n = o.remaining w n :=
    fun n => remaining_congr fun _ => progress_dispatch_ended
  have hlast := h.mem_lastFor_iff hname hf
  refine ⟨fun n p hn hp b hb => ?_, fun _ n hn => ?_, fun _ n hn => ?_⟩
  · rw [progress_dispatch_ended]
    by_cases hl : n ∈ o.lastFor w name
    · exact remaining_eq_zero_iff.1 ((hlast n).1 hl).2.2 b hb
    · refine h.begun n p ?_ hp b hb
      rw [progress_dispatch] at hn
      rwa [if_neg fun hboth => hl hboth.1] at hn
  · rw [hremaining]
    show (if n ∈ w.successors name then (o.unresolved n).map (· - 1) else o.unresolved n) = _
    rw [h.counted hf n hn]
    by_cases hb : name ∈ w.prerequisites n
    · rw [if_pos ((Walk.mem_successors_iff hname).2 ⟨hn, hb⟩), if_pos hb]
      simp
    · rw [if_neg fun hs => hb ((Walk.mem_successors_iff hname).1 hs).2, if_neg hb]
      simp
  · rw [hremaining]
    intro hzero
    rw [progress_dispatch] at hn
    split at hn
    · cases hn
    · rename_i hnot
      have howed := h.waits hf n hn
      have hb : name ∈ w.prerequisites n := by
        by_contra hb
        simp [hzero, hb] at howed
      exact hnot ⟨(hlast n).2 ⟨htidy.mem_scope hn, hb, hzero⟩, hn⟩

/-- **The end of a visit keeps the balance.** -/
theorem Balanced.finish (h : o.Balanced w) (htidy : o.Tidy w) (hp : o.progress name = some .underWay)
    (error : Option Failure) : (o.finish w name error).Balanced w := by
  have hname : name ∈ w.scope := htidy.mem_scope hp
  have htidy' := (htidy.put name (.ended error)).note (.ended name error)
  unfold Outline.finish
  refine conclude_cases (P := fun o' => o'.Balanced w) htidy'.ready (htidy'.marked name hname) ?_ ?_ ?_ ?_
  · rintro cause rfl
    exact ((h.put hp (by simp) (by simp) (by simp) (by simp)).note _).record _
  · rintro rfl hf
    have howed := h.ended hp (by simp) (by simp)
    exact ⟨howed.begun, fun hnone => absurd hnone hf, fun hnone => absurd hnone hf⟩
  · rintro rfl _ _
    have howed := h.ended hp (by simp) (by simp)
    exact ⟨howed.begun, nofun, nofun⟩
  · rintro rfl hf _
    exact (h.ended hp (by simp) (by simp)).round htidy' hname hf

theorem Balanced.turnAway (h : o.Balanced w) (htidy : o.Tidy w) (hp : o.progress name = some .waiting) :
    (o.turnAway w name).Balanced w := by
  have hready : ((o.put name (.ended (some .cancelled))).note (.turnedAway name)).ready = [] := htidy.ready
  unfold Outline.turnAway
  rw [conclude_some hready]
  exact ((h.put hp (by simp) (by simp) (by simp) (by simp)).note _).record _

theorem Balanced.step (h : o.Balanced w) (htidy : o.Tidy w) (hstep : o.Step w o') : o'.Balanced w := by
  cases hstep with
  | still => exact h
  | begin hp _ => exact (h.put hp (by simp) (by simp) (by simp) (by simp)).note _
  | cancel _ => exact h.cancel
  | token _ => exact h.note _
  | status other _ => exact h.note _
  | log text _ => exact h.note _
  | write other status _ => exact h.of_same rfl rfl id
  | finish error hp => exact h.finish htidy hp error
  | turnAway hp _ => exact h.turnAway htidy hp

end Outline

open Outline

section Initial

variable {w : Walk} (statuses : Table Status) (callerCancelled : Bool)

theorem idle_initial {n : String} {p : Progress}
    (hn : (Outline.initial w statuses callerCancelled).progress n = some p) : n ∈ w.scope ∧ p = .idle := by
  unfold Outline.initial at hn
  dsimp only at hn
  split at hn
  · rename_i hmem
    exact ⟨hmem, (Option.some.inj hn).symm⟩
  · cases hn

theorem remaining_initial (n : String) :
    (Outline.initial w statuses callerCancelled).remaining w n = (w.prerequisites n).length := by
  refine List.countP_eq_length.2 fun b _ => ?_
  rw [decide_eq_true_eq]
  intro hb
  cases (idle_initial statuses callerCancelled hb).2

theorem balanced_initial : (Outline.initial w statuses callerCancelled).openRound.Balanced w := by
  unfold openRound
  split
  · have hround : ∀ n, (dispatch { (Outline.initial w statuses callerCancelled).notice with ready := [] }
        (Outline.initial w statuses callerCancelled).ready).remaining w n = (w.prerequisites n).length := by
      intro n
      rw [← remaining_initial statuses callerCancelled n]
      exact remaining_congr fun _ => progress_dispatch_ended
    refine ⟨fun n p hn hp b hb => ?_, fun _ n hn => ?_, fun _ n hn => ?_⟩
    · rw [progress_dispatch] at hn
      split at hn
      · rename_i hready
        have hempty : (w.prerequisites n).isEmpty = true := (List.mem_filter.1 hready.1).2
        rw [List.isEmpty_iff.1 hempty] at hb
        cases hb
      · exact absurd (idle_initial statuses callerCancelled hn).2 hp
    · rw [hround]
      exact if_pos hn
    · rw [hround]
      intro hzero
      rw [progress_dispatch] at hn
      split at hn
      · cases hn
      · rename_i hnot
        exact hnot ⟨List.mem_filter.2 ⟨(idle_initial statuses callerCancelled hn).1, by simpa using hzero⟩, hn⟩
  · rename_i hfailure
    have hsome : (Outline.initial w statuses callerCancelled).notice.failure ≠ none := by simpa using hfailure
    refine ⟨fun n p hn hp => absurd (idle_initial statuses callerCancelled hn).2 hp, ?_, ?_⟩
    · exact fun hnone => absurd hnone hsome
    · exact fun hnone => absurd hnone hsome

end Initial

/-- **In every state of a walk the counts go with the visits.** -/
theorem State.Reached.balanced {w : Walk} {statuses : Table Status} {callerCancelled : Bool} {acts : List Outside}
    {s : State} (hw : w.Sound) (hst : ∀ n ∈ w.scope, n ∈ statuses.keys)
    (h : State.Reached w statuses callerCancelled acts s) : s.outline.Balanced w := by
  have hfirst := balanced_initial (w := w) statuses callerCancelled
  refine State.Reached.induction (P := fun _ o => o.Balanced w) hw hfirst ?_ ?_ ?_ h
  · exact fun _ _ _ hrun hbalanced hstep => hbalanced.step (hrun.tidy hw hst) hstep
  · exact fun _ _ _ hbalanced => hbalanced.notice
  · intro _ _ act _ hbalanced _
    cases act with
    | release _ => exact hbalanced
    | cancel => exact hbalanced.cancel
    | setStatus _ _ => exact hbalanced.of_same rfl rfl id

end Rollout
