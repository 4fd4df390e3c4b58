import Rollout.Proofs.Walk.Held
import Rollout.Proofs.Walk.Ledger
/-!
A run of a limited walk, watched at the desk from the first round on (`Watched`).  The ledger agrees with the desk after
each turn, so it tells how the slots were handed out in every state of a walk (`Watched.accounts`).

A run is watched by writing down after each turn what has changed at the desk, so a watched run is a run with a ledger
beside it, and every run can be watched (`Watched.of_reached`).  At the start nobody has asked for a slot, the desk has
them all and the ledger is empty.  What the ledger tells is read off the agreement with the desk (`Ledger.Accounts`): no
slot is lost or given back twice, none lies there while somebody is in line, and as long as nothing is cancelled slots
are given in the order in which they were asked for.
-/
namespace Rollout

open State (Reached)

/-- A run of a walk from the first round on, and what an onlooker has written down of it. -/
inductive Watched (w : Walk) (statuses : Table Status) (callerCancelled : Bool) :
    List Outside → Ledger → State → Prop where
  | first : Watched w statuses callerCancelled [] .blank (State.initial w statuses callerCancelled).openRound
  | turn {acts : List Outside} {l : Ledger} {s : State} : Watched w statuses callerCancelled acts l s →
      Watched w statuses callerCancelled acts (l.watch w s.desk (s.step w).desk) (s.step w)
  | notice {acts : List Outside} {l : Ledger} {s : State} : Watched w statuses callerCancelled acts l s →
      Watched w statuses callerCancelled acts (l.watch w s.desk s.noteCancellation.desk) s.noteCancellation
  | outside {acts : List Outside} {l : Ledger} {s : State} (act : Outside) :
      Watched w statuses callerCancelled acts l s → s.done = false →
      Watched w statuses callerCancelled (acts ++ [act]) (l.watch w s.desk (s.play act).desk) (s.play act)

/-- What the ledger tells of a walk with so many slots. -/
structure Ledger.Accounts (slots : Nat) (l : Ledger) (s : State) : Prop where
  /-- All slots are held by visits in flight or free. -/
  total : s.free + s.slotHolders.length = slots
  inFlight : ∀ n ∈ s.slotHolders, n ∈ s.inFlight
  /-- No more visitors are between their beginning and their end than there are slots. -/
  underWay : s.underWay.length ≤ slots
  underWay_iff : ∀ n, n ∈ s.underWay ↔ .began n ∈ s.history ∧ ∀ error, .ended n error ∉ s.history
  /-- No slot is free while a visit waits for one. -/
  spent : ∀ n, s.stages.get? n = some .awaitingSlot → s.free = 0
  /-- The slots given back and those at the start are the slots handed out and those free. -/
  balance : s.free + l.granted.length = slots + l.returned.length
  asked : ∀ n, l.asked.count n ≤ 1
  granted : ∀ n, l.granted.count n ≤ 1
  began : ∀ n, .began n ∈ s.history → l.granted.count n = 1
  /-- A visit keeps its slot until it ends. -/
  kept : ∀ n, (∀ error, s.stages.get? n ≠ some (.ended error)) → l.returned.count n = 0
  /-- A visit that has ended, whether well, in error or cancelled, has given its slot back once, if it had one. -/
  returned : ∀ n error, s.stages.get? n = some (.ended error) → l.returned.count n = l.granted.count n
  /-- Slots are granted in the order in which visits ask for them, and the others who have asked wait in that order. -/
  order : s.tokenCancelled = false → l.asked = l.granted ++ s.slotQueue

/-! ## Tallies -/

namespace Tally

variable {standing : Option Standing} {asked granted returned : Nat}

theorem asked_le (h : Tally standing asked granted returned) : asked ≤ 1 := by
  cases h <;> decide

theorem granted_le (h : Tally standing asked granted returned) : granted ≤ 1 := by
  cases h <;> decide

theorem granted_of_holding (h : Tally (some .holding) asked granted returned) : granted = 1 := by
  cases h
  rfl

theorem returned_of_gone (h : Tally (some .gone) asked granted returned) : returned = granted := by
  cases h with
  | turnedAway => rfl
  | left => rfl
  | gaveBack => rfl

theorem returned_eq_zero (h : Tally standing asked granted returned) (hstays : standing ≠ some .gone) :
    returned = 0 := by
  cases h with
  | gaveBack => exact absurd rfl hstays
  | _ => rfl

end Tally

/-! ## Views of the desk -/

namespace State

variable {w : Walk} {statuses : Table Status} {callerCancelled : Bool} {acts : List Outside} {s : State} {n : String}

theorem standing_of_underWay (hp : s.outline.progress n = some .underWay) : s.desk.standing n = some .holding := by
  obtain ⟨stage, hstage, hunder⟩ := Option.map_eq_some_iff.1 hp
  rw [standing_desk hstage]
  cases stage <;> first | rfl | cases hunder

theorem standing_of_ended {error : Option Failure} (hp : s.outline.progress n = some (.ended error)) :
    s.desk.standing n = some .gone := by
  obtain ⟨stage, hstage, hended⟩ := Option.map_eq_some_iff.1 hp
  rw [standing_desk hstage]
  cases stage <;> first | rfl | cases hended

end State

/-! ## Along a run -/

namespace Watched

variable {w : Walk} {statuses : Table Status} {callerCancelled : Bool} {acts : List Outside} {l : Ledger} {s : State}

theorem reached (h : Watched w statuses callerCancelled acts l s) : Reached w statuses callerCancelled acts s := by
  induction h with
  | first => exact .refl
  | turn _ ih => exact ih.turn
  | notice _ ih => exact ih.notice
  | outside act _ hdone ih => exact ih.outside act hdone

theorem of_reached (h : Reached w statuses callerCancelled acts s) :
    ∃ l, Watched w statuses callerCancelled acts l s := by
  induction h with
  | refl => exact ⟨_, .first⟩
  | turn _ ih =>
    obtain ⟨l, hl⟩ := ih
    exact ⟨_, hl.turn⟩
  | notice _ ih =>
    obtain ⟨l, hl⟩ := ih
    exact ⟨_, hl.notice⟩
  | outside act _ hdone ih =>
    obtain ⟨l, hl⟩ := ih
    exact ⟨_, hl.outside act hdone⟩

variable {limit : Limit}

theorem standing_initial {n : String} {standing : Standing}
    (h : (State.initial w statuses callerCancelled).openRound.desk.standing n = some standing) :
    standing = .before := by
  rw [State.desk_openRound] at h
  obtain ⟨stage, hstage, rfl⟩ := Option.map_eq_some_iff.1 h
  rw [(State.stage_initial hstage).2]
  rfl

theorem agrees_blank (hlimit : w.limit = some limit) (cancelled : Bool) :
    Ledger.blank.Agrees limit.slots cancelled (State.initial w statuses callerCancelled).openRound.desk := by
  refine ⟨fun n => ?_, ?_, fun _ => ?_⟩
  · show Tally _ 0 0 0
    cases hn : (State.initial w statuses callerCancelled).openRound.desk.standing n with
    | none => exact .uncovered
    | some standing =>
      rw [standing_initial hn]
      exact .before
  · rw [State.desk_openRound]
    show (w.limit.map Limit.slots).getD 0 + 0 = limit.slots + 0
    rw [hlimit]
    rfl
  · rw [State.desk_openRound]
    rfl

/-- **In every state of a limited walk the ledger agrees with the desk.** -/
theorem agrees (hw : w.Sound) (hst : ∀ n ∈ w.scope, n ∈ statuses.keys) (hlimit : w.limit = some limit)
    (h : Watched w statuses callerCancelled acts l s) : l.Agrees limit.slots s.tokenCancelled s.desk := by
  -- a token that is not cancelled was not cancelled before
  have hlive : ∀ {acts more : List Outside} {s t : State}, Reached w statuses callerCancelled acts s →
      State.Runs w s more t → t.tokenCancelled = false → s.tokenCancelled = false := by
    intro acts more s t hreached hrun hc
    refine Bool.eq_false_iff.2 fun htoken => ?_
    rw [hreached.tokenCancelled_of_runs hw hst hrun htoken] at hc
    cases hc
  induction h with
  | first => exact agrees_blank hlimit _
  | @turn acts l s hrun ih =>
    have hreached := hrun.reached
    have hturn : s.desk.Turn s.tokenCancelled (s.step w).desk := State.turn_desk (by rw [hlimit]; rfl) s
    exact (ih.turn hw (hreached.orderly hw hst hlimit) hturn).imp (hlive hreached (.turn .refl))
  | @notice acts l s hrun ih =>
    rw [State.desk_noteCancellation, Ledger.watch_of_standing rfl]
    exact ih.imp (hlive hrun.reached (.notice .refl))
  | @outside acts l s act hrun hdone ih =>
    rw [State.desk_play, Ledger.watch_of_standing rfl]
    exact ih.imp (hlive hrun.reached (.outside act .refl hdone))

theorem count_granted_of_began (hw : w.Sound) (hst : ∀ n ∈ w.scope, n ∈ statuses.keys)
    (hlimit : w.limit = some limit) (h : Watched w statuses callerCancelled acts l s) (n : String)
    (hbegan : .began n ∈ s.history) : l.granted.count n = 1 := by
  induction h with
  | first =>
    have hfirst : Reached w statuses callerCancelled [] (State.initial w statuses callerCancelled).openRound := .refl
    rcases (hfirst.traced hw hst).progress_of_began hbegan with hp | ⟨error, hp, -⟩
    · cases standing_initial (State.standing_of_underWay hp)
    · cases standing_initial (State.standing_of_ended hp)
  | @turn acts l s hrun ih =>
    have hreached := hrun.reached
    have htally := (hrun.turn.agrees hw hst hlimit).tally n
    by_cases hbefore : .began n ∈ s.history
    · have hle := htally.granted_le
      have hone := ih hbefore
      rw [show (l.watch w s.desk (s.step w).desk).granted = l.granted ++ _ from rfl, List.count_append] at hle ⊢
      omega
    · have hstep := State.step_outline w s (hreached.ready hw)
      rw [State.standing_of_underWay (hstep.underWay_of_began (hreached.tidy hw hst) hbegan hbefore)] at htally
      exact htally.granted_of_holding
  | @notice acts l s hrun ih =>
    rw [State.desk_noteCancellation, Ledger.watch_of_standing rfl]
    rw [show s.noteCancellation.history = s.noteCancellation.roster.history from rfl,
      State.roster_noteCancellation] at hbegan
    exact ih hbegan
  | @outside acts l s act hrun hdone ih =>
    rw [State.desk_play, Ledger.watch_of_standing rfl]
    rw [show (s.play act).history = (s.play act).outline.history from rfl, State.outline_play] at hbegan
    refine ih ?_
    cases act with
    | release _ => exact hbegan
    | cancel => exact Outline.mem_of_mem_cancel (o := s.outline) (by simp) hbegan
    | setStatus _ _ => exact hbegan

/-- **The accounts of a limited walk are in order in every state of it.** -/
theorem accounts (hw : w.Sound) (hst : ∀ n ∈ w.scope, n ∈ statuses.keys) (hlimit : w.limit = some limit)
    (h : Watched w statuses callerCancelled acts l s) : l.Accounts limit.slots s := by
  have hreached := h.reached
  have htraced := hreached.traced hw hst
  have hshared := hreached.shared hw hst hlimit
  have hagrees := h.agrees hw hst hlimit
  have htotal : s.free + s.slotHolders.length = limit.slots := by
    rw [hreached.length_slotHolders hw hst]
    exact hshared.total
  refine ⟨htotal, fun n hn => ?_, ?_, fun n => ⟨fun hn => ?_, ?_⟩, fun n hn => ?_, hagrees.balance,
    fun n => (hagrees.tally n).asked_le, fun n => (hagrees.tally n).granted_le,
    h.count_granted_of_began hw hst hlimit, fun n hn => ?_, fun n error hn => ?_, hagrees.order⟩
  · obtain ⟨stage, hstage, hholds⟩ := State.mem_slotHolders_iff.1 hn
    refine State.mem_inFlight_iff.2 ⟨stage, hstage, ?_⟩
    cases stage with
    | idle => cases hholds
    | ended error => cases hholds
    | _ => rfl
  · rw [← htotal]
    exact (State.sublist_underWay s).length_le.trans (Nat.le_add_left _ _)
  · have hp := State.mem_underWay_iff_progress.1 hn
    exact ⟨htraced.began_of_underWay hp, (htraced.inFlight_split (Or.inr hp)).2.1⟩
  · rintro ⟨hbegan, hnot⟩
    rcases htraced.progress_of_began hbegan with hp | ⟨error, -, hended⟩
    · exact State.mem_underWay_iff_progress.2 hp
    · exact absurd hended (hnot error)
  · exact hshared.spent (List.ne_nil_of_mem ((hreached.placed hw hst).fits n _ hn).2.1)
  · refine (hagrees.tally n).returned_eq_zero fun hgone => ?_
    obtain ⟨stage, hstage, hstanding⟩ := Option.map_eq_some_iff.1 hgone
    cases stage with
    | ended error => exact hn error hstage
    | _ => cases hstanding
  · have htally := hagrees.tally n
    rw [State.standing_desk hn] at htally
    exact htally.returned_of_gone

end Watched

end Rollout
