import Rollout.Proofs.Walk.Held
import Rollout.Proofs.Walk.Marks
import Rollout.Proofs.Walk.Stops
/-!
What begins after a stop.  The token of the visits is cancelled as soon as the history has a stop, and not before
(`Reached.tokenCancelled_iff`).  A limited walk looks at the token before a visitor begins, so there nothing begins
after a stop (`Reached.heeded`), and what was dispatched by then is turned away.  A walk without a limit does not look.
There the visits that stand in the run queue for the first time when the stop comes begin all the same, and no others do
(`Reached.late_iff`).

A stop is the end of a visit in error or the cancellation by the caller.  It cancels the token in the same turn, so the
history and the token can be compared in every state between turns (`Braked`).  The steps of the outline fall into three
kinds for this: those that add nothing that is a stop, those that add one and cancel the token, and the beginning of a
visit, which a limited walk comes to only while the token is not cancelled.

Nothing is dispatched after a stop, so what begins late was dispatched before it.  Without a limit a visit that was
dispatched has begun or stands in the run queue for the first time (`Reached.began_or_dispatched`), which makes an
equation of it; with a limit it is turned away by the next rest, and the turn that does so leaves all statuses alone.
-/
namespace Rollout

/-- Nothing begins after a stop. -/
def Heeded (history : List Event) : Prop :=
  ∀ n, .began n ∈ history → ∀ e : Event, e.Stops → Precedes (.began n) e history

theorem Disturbed.exists_stop {history : List Event} (h : Disturbed history) : ∃ e ∈ history, e.Stops := by
  rcases h with hmem | ⟨n, cause, hmem⟩
  · exact ⟨_, hmem, .cancelled⟩
  · exact ⟨_, hmem, .failed n cause⟩

theorem Disturbed.append {history : List Event} (h : Disturbed history) (new : List Event) :
    Disturbed (new ++ history) := by
  rcases h with hmem | ⟨n, cause, hmem⟩
  · exact Or.inl (List.mem_append_right new hmem)
  · exact Or.inr ⟨n, cause, List.mem_append_right new hmem⟩

theorem Disturbed.mem_of_precedes {history : List Event} {first : Event} (h : Disturbed history) (new : List Event)
    (hfirst : ∀ e : Event, e.Stops → Precedes first e (new ++ history)) : first ∈ history := by
  obtain ⟨e, he, hstop⟩ := h.exists_stop
  obtain ⟨later, earlier, rfl⟩ := List.append_of_mem he
  have hbefore : first ∈ earlier := hfirst e hstop (new ++ later) earlier (by rw [List.append_assoc])
  exact List.mem_append_right later (List.mem_cons_of_mem e hbefore)

theorem Outline.Traced.progress_of_turnedAway {o : Outline} {name : String} (h : o.Traced)
    (haway : .turnedAway name ∈ o.history) : o.progress name = some (.ended (some .cancelled)) := by
  have hrecord := h name
  rw [← mem_visitOf name (.turnedAway name) rfl] at haway
  generalize visitOf name o.history = events at hrecord haway
  generalize o.progress name = p at hrecord ⊢
  cases hrecord with
  | turnedAway => rfl
  | _ => simp at haway

namespace Outline

variable {w : Walk} {o o' : Outline} {name : String}

/-! ## What every step keeps -/

/-- A stop cancels the token, and a limited walk begins nothing after it. -/
structure Braked (w : Walk) (o : Outline) : Prop where
  token : ∀ e ∈ o.history, e.Stops → o.tokenCancelled = true
  heeded : w.limit.isSome → Heeded o.history

theorem Braked.grow (h : o.Braked w) (new : List Event) (hbegan : ∀ n, .began n ∉ new)
    (hhistory : o'.history = new ++ o.history)
    (htoken : o.tokenCancelled = true ∨ (∃ e ∈ new, e.Stops) → o'.tokenCancelled = true) : o'.Braked w := by
  refine ⟨fun e he hstop => ?_, fun hlimit n hn e hstop => ?_⟩
  · rw [hhistory] at he
    rcases List.mem_append.1 he with he | he
    · exact htoken (Or.inr ⟨e, he, hstop⟩)
    · exact htoken (Or.inl (h.token e he hstop))
  · rw [hhistory] at hn ⊢
    have hbefore : .began n ∈ o.history := (List.mem_append.1 hn).resolve_left (hbegan n)
    exact (h.heeded hlimit n hbefore e hstop).append new fun _ => hbefore

theorem Braked.quiet (h : o.Braked w) (new : List Event) (hbegan : ∀ n, .began n ∉ new)
    (hstops : ∀ e ∈ new, ¬ e.Stops) (hhistory : o'.history = new ++ o.history)
    (htoken : o'.tokenCancelled = o.tokenCancelled) : o'.Braked w := by
  refine h.grow new hbegan hhistory ?_
  rintro (hc | ⟨e, he, hstop⟩)
  · rw [htoken]
    exact hc
  · exact absurd hstop (hstops e he)

theorem Braked.begin (h : o.Braked w) (hlive : w.limit.isSome → o.tokenCancelled = false) :
    (o.begin name).Braked w := by
  have hmem : ∀ e ∈ Event.began name :: o.history, e.Stops → e ∈ o.history := by
    intro e he hstop
    rcases List.mem_cons.1 he with rfl | he
    · cases hstop
    · exact he
  refine ⟨fun e he hstop => h.token e (hmem e he hstop) hstop, fun hlimit n _ e hstop => ?_⟩
  refine precedes_of_not_mem fun he => ?_
  have hc : o.tokenCancelled = true := h.token e (hmem e he hstop) hstop
  rw [hlive hlimit] at hc
  cases hc

theorem Braked.cancel (h : o.Braked w) : o.cancel.Braked w := by
  cases hc : o.callerCancelled with
  | true => exact h.grow [] nofun (if_pos hc) fun _ => rfl
  | false => exact h.grow [.cancelled] (by simp) (if_neg (by simp [hc])) fun _ => rfl

theorem Braked.dispatch (h : o.Braked w) (names : List String) : (o.dispatch names).Braked w := by
  have hnew : ∀ e ∈ ((names.filter fun n => o.progress n = some .idle).map Event.dispatched).reverse,
      ∃ n, e = .dispatched n := by
    intro e he
    simp only [List.mem_reverse, List.mem_map] at he
    obtain ⟨n, -, rfl⟩ := he
    exact ⟨n, rfl⟩
  refine h.quiet _ (fun n hn => ?_) (fun e he hstop => ?_) rfl rfl
  · obtain ⟨m, heq⟩ := hnew _ hn
    cases heq
  · obtain ⟨m, rfl⟩ := hnew e he
    cases hstop

theorem Braked.finish (h : o.Braked w) (htidy : o.Tidy w) (hname : name ∈ w.scope) (error : Option Failure) :
    (o.finish w name error).Braked w := by
  have htidy' := (htidy.put name (.ended error)).note (.ended name error)
  have hbegan : ∀ n, Event.began n ∉ [Event.ended name error] := by simp
  have hquiet : error = none → ∀ e ∈ [Event.ended name error], ¬ e.Stops := by
    rintro rfl e he hstop
    obtain rfl := List.mem_singleton.1 he
    cases hstop
  unfold Outline.finish
  refine conclude_cases htidy'.ready (htidy'.marked name hname) ?_ ?_ ?_ ?_
  · exact fun cause _ => h.grow [.ended name error] hbegan rfl fun _ => Bool.or_true _
  · exact fun hnone _ => h.quiet _ hbegan (hquiet hnone) rfl rfl
  · exact fun hnone _ _ => h.quiet _ hbegan (hquiet hnone) rfl rfl
  · intro hnone _ _
    have hcounted : (((o.put name (.ended error)).note (.ended name error)).counted w name).Braked w :=
      h.quiet _ hbegan (hquiet hnone) rfl rfl
    exact hcounted.dispatch _

theorem Braked.turnAway (h : o.Braked w) (htidy : o.Tidy w) : (o.turnAway w name).Braked w := by
  have hready : ((o.put name (.ended (some .cancelled))).note (.turnedAway name)).ready = [] := htidy.ready
  unfold Outline.turnAway
  rw [conclude_some hready]
  exact h.grow [.turnedAway name] (by simp) rfl fun _ => Bool.or_true _

theorem Braked.step (h : o.Braked w) (htidy : o.Tidy w) (hstep : o.Step w o') : o'.Braked w := by
  have hnote : ∀ e : Event, (∀ n, e ≠ .began n) → ¬ e.Stops → (o.note e).Braked w := by
    intro e hbegan hstop
    refine h.quiet [e] (fun n hn => hbegan n (List.mem_singleton.1 hn).symm) (fun e' he' => ?_) rfl rfl
    rw [List.mem_singleton.1 he']
    exact hstop
  cases hstep with
  | still => exact h
  | begin _ hlive => exact h.begin hlive
  | cancel _ => exact h.cancel
  | token _ => exact hnote _ nofun nofun
  | status other _ => exact hnote _ nofun nofun
  | log text _ => exact hnote _ nofun nofun
  | write other status _ => exact h.quiet [] nofun nofun rfl rfl
  | finish error hp => exact h.finish htidy (htidy.mem_scope hp) error
  | turnAway _ _ => exact h.turnAway htidy

theorem braked_initial {statuses : Table Status} {callerCancelled : Bool} :
    (Outline.initial w statuses callerCancelled).openRound.Braked w := by
  have hfirst : Braked w { (Outline.initial w statuses callerCancelled).notice with ready := [] } := by
    cases callerCancelled with
    | false => exact ⟨nofun, nofun⟩
    | true => exact ⟨fun _ _ _ => rfl, by simp [Heeded, Outline.notice, Outline.initial]⟩
  unfold openRound
  split
  · exact hfirst.dispatch _
  · exact hfirst

theorem mem_of_mem_cancel {e : Event} (he : e ≠ .cancelled) (h : e ∈ o.cancel.history) : e ∈ o.history := by
  change e ∈ if o.callerCancelled then o.history else .cancelled :: o.history at h
  split at h
  · exact h
  · exact (List.mem_cons.1 h).resolve_left he

theorem mem_of_mem_conclude (htidy : o.Tidy w) (hname : name ∈ w.scope) {error : Option Failure} {e : Event}
    (he : ∀ n, e ≠ .dispatched n) : e ∈ (o.conclude w name error).history → e ∈ o.history := by
  refine conclude_cases (P := fun o' => e ∈ o'.history → e ∈ o.history) htidy.ready (htidy.marked name hname)
    (fun _ _ => id) (fun _ _ => id) (fun _ _ _ => id) fun _ _ _ hmem => ?_
  rcases List.mem_append.1 hmem with hmem | hmem
  · simp only [List.mem_reverse, List.mem_map] at hmem
    obtain ⟨n, -, rfl⟩ := hmem
    exact absurd rfl (he n)
  · exact hmem

theorem Step.statuses_of_turnedAway (hstep : o.Step w o') (htidy : o.Tidy w) (haway : .turnedAway name ∈ o'.history)
    (hnew : .turnedAway name ∉ o.history) : o'.statuses = o.statuses := by
  cases hstep with
  | still => rfl
  | begin _ _ => rfl
  | cancel _ => rfl
  | token _ => rfl
  | status other _ => rfl
  | log text _ => rfl
  | write other status _ => exact absurd haway hnew
  | @finish ended error hp =>
    have htidy' := (htidy.put ended (.ended error)).note (.ended ended error)
    have hended := mem_of_mem_conclude htidy' (htidy.mem_scope hp) (by simp) haway
    exact absurd ((List.mem_cons.1 hended).resolve_left (by simp)) hnew
  | @turnAway other _ _ =>
    have hready : ((o.put other (.ended (some .cancelled))).note (.turnedAway other)).ready = [] := htidy.ready
    unfold Outline.turnAway
    rw [conclude_some hready]
    rfl

theorem Step.underWay_of_began (hstep : o.Step w o') (htidy : o.Tidy w) (hbegan : .began name ∈ o'.history)
    (hnew : .began name ∉ o.history) : o'.progress name = some .underWay := by
  have hnot : ∀ e : Event, e ≠ .began name → .began name ∈ e :: o.history → o'.progress name = some .underWay :=
    fun e he hmem => absurd ((List.mem_cons.1 hmem).resolve_left (Ne.symm he)) hnew
  cases hstep with
  | still => exact absurd hbegan hnew
  | @begin other hp _ =>
    rcases List.mem_cons.1 hbegan with heq | hmem
    · cases heq
      exact progress_put_self hp
    · exact absurd hmem hnew
  | cancel _ => exact absurd (mem_of_mem_cancel (by simp) hbegan) hnew
  | token _ => exact hnot _ (by simp) hbegan
  | status other _ => exact hnot _ (by simp) hbegan
  | log text _ => exact hnot _ (by simp) hbegan
  | write other status _ => exact absurd hbegan hnew
  | @finish other error hp =>
    have htidy' := (htidy.put other (.ended error)).note (.ended other error)
    exact hnot _ (by simp) (mem_of_mem_conclude htidy' (htidy.mem_scope hp) (by simp) hbegan)
  | @turnAway other hp _ =>
    have htidy' := (htidy.put other (.ended (some .cancelled))).note (.turnedAway other)
    exact hnot _ (by simp) (mem_of_mem_conclude htidy' (htidy.mem_scope hp) (by simp) hbegan)

end Outline

open Outline

/-! ## Walks without a limit -/

namespace Roster

variable {w : Walk} {r r' : Roster} {name : String}

theorem history_pass (r : Roster) : r.pass.history = r.history := by
  unfold pass
  split
  · rfl
  · split
    · rfl
    · rfl

theorem history_close (error : Option Failure) : (r.close w name error).history = .ended name error :: r.history := by
  unfold close
  dsimp only
  split
  · exact history_pass _
  · rfl

theorem Move.not_turnedAway (hmove : r.Move w r') (hplaced : r.Placed w) (hnone : w.limit = none)
    (h : ∀ n, .turnedAway n ∉ r.history) : ∀ n, .turnedAway n ∉ r'.history := by
  have hunlimited : ¬ w.limit.isSome := by simp [hnone]
  intro n
  cases hmove with
  | dispatch _ => exact List.not_mem_cons_of_ne_of_not_mem nofun (h n)
  | begin _ _ => exact List.not_mem_cons_of_ne_of_not_mem nofun (h n)
  | take _ _ _ _ => exact List.not_mem_cons_of_ne_of_not_mem nofun (h n)
  | takeUp _ _ => exact List.not_mem_cons_of_ne_of_not_mem nofun (h n)
  | turnAway _ _ hlimit _ => exact absurd hlimit hunlimited
  | leaveLine _ hold _ => exact absurd (hplaced.fits _ _ hold).1 hunlimited
  | decline _ hold _ => exact absurd (hplaced.fits _ _ hold).1 hunlimited
  | note _ he =>
    refine List.not_mem_cons_of_ne_of_not_mem ?_ (h n)
    rintro rfl
    cases he
  | @close name others rest error _ _ _ =>
    rw [history_close]
    exact List.not_mem_cons_of_ne_of_not_mem nofun (h n)
  | cancel => exact List.not_mem_cons_of_ne_of_not_mem nofun (h n)
  | _ => exact h n

theorem Play.not_turnedAway {act : Outside} (hplay : r.Play act r') (h : ∀ n, .turnedAway n ∉ r.history) :
    ∀ n, .turnedAway n ∉ r'.history := by
  intro n
  cases hplay with
  | cancel => exact List.not_mem_cons_of_ne_of_not_mem nofun (h n)
  | _ => exact h n

end Roster

namespace State

variable {w : Walk} {statuses : Table Status} {callerCancelled : Bool} {acts more : List Outside} {s t : State}
  {n : String}

/-! ## What a stop does -/

theorem Reached.braked (hw : w.Sound) (hst : ∀ n ∈ w.scope, n ∈ statuses.keys)
    (h : Reached w statuses callerCancelled acts s) : s.outline.Braked w := by
  refine Reached.induction (P := fun _ o => o.Braked w) hw braked_initial ?_ ?_ ?_ h
  · exact fun _ _ _ hrun hbraked hstep => hbraked.step (hrun.tidy hw hst) hstep
  · exact fun _ _ _ hbraked => hbraked.quiet [] nofun nofun rfl rfl
  · intro _ _ act _ hbraked _
    cases act with
    | release _ => exact hbraked
    | cancel => exact hbraked.cancel
    | setStatus _ _ => exact hbraked.quiet [] nofun nofun rfl rfl

/-- **The token of the visits is cancelled when the caller has cancelled or a visitor has failed**, and only then. -/
theorem Reached.tokenCancelled_iff (hw : w.Sound) (hst : ∀ n ∈ w.scope, n ∈ statuses.keys)
    (h : Reached w statuses callerCancelled acts s) : s.tokenCancelled = true ↔ Disturbed s.history := by
  constructor
  · intro htoken
    rcases Bool.or_eq_true_iff.1 htoken with hc | ht
    · exact Or.inl ((h.judged hw hst).cancelled.1 hc)
    · exact (h.prompt hw hst).tripped ht
  · intro hdisturbed
    obtain ⟨e, he, hstop⟩ := hdisturbed.exists_stop
    exact (h.braked hw hst).token e he hstop

theorem Reached.dispatched_of_disturbed (hw : w.Sound) (hst : ∀ n ∈ w.scope, n ∈ statuses.keys)
    (h : Reached w statuses callerCancelled acts s) (hdisturbed : Disturbed s.history) (hrun : Runs w s more t)
    (hdispatched : .dispatched n ∈ t.history) : .dispatched n ∈ s.history := by
  have hreached : Reached w statuses callerCancelled _ t := h.trans hrun
  obtain ⟨new, hnew⟩ := h.grows hw hst hrun
  refine hdisturbed.mem_of_precedes new ?_
  rw [hnew]
  exact (hreached.prompt hw hst).dispatched n hdispatched

theorem Reached.disturbed_of_runs (hw : w.Sound) (hst : ∀ n ∈ w.scope, n ∈ statuses.keys)
    (h : Reached w statuses callerCancelled acts s) (hrun : Runs w s more t) (hdisturbed : Disturbed s.history) :
    Disturbed t.history := by
  obtain ⟨new, hnew⟩ := h.grows hw hst hrun
  rw [← hnew]
  exact hdisturbed.append new

theorem Reached.tokenCancelled_of_runs (hw : w.Sound) (hst : ∀ n ∈ w.scope, n ∈ statuses.keys)
    (h : Reached w statuses callerCancelled acts s) (hrun : Runs w s more t) (htoken : s.tokenCancelled = true) :
    t.tokenCancelled = true := by
  have hreached : Reached w statuses callerCancelled _ t := h.trans hrun
  rw [h.tokenCancelled_iff hw hst] at htoken
  rw [hreached.tokenCancelled_iff hw hst]
  exact h.disturbed_of_runs hw hst hrun htoken

/-! ## Limited walks -/

/-- **In a limited walk nothing begins after a stop.** -/
theorem Reached.heeded (hw : w.Sound) (hst : ∀ n ∈ w.scope, n ∈ statuses.keys) (hlimit : w.limit.isSome)
    (h : Reached w statuses callerCancelled acts s) : Heeded s.history := (h.braked hw hst).heeded hlimit

theorem Reached.began_of_disturbed (hw : w.Sound) (hst : ∀ n ∈ w.scope, n ∈ statuses.keys) (hlimit : w.limit.isSome)
    (h : Reached w statuses callerCancelled acts s) (hdisturbed : Disturbed s.history) (hrun : Runs w s more t)
    (hbegan : .began n ∈ t.history) : .began n ∈ s.history := by
  have hreached : Reached w statuses callerCancelled _ t := h.trans hrun
  obtain ⟨new, hnew⟩ := h.grows hw hst hrun
  refine hdisturbed.mem_of_precedes new ?_
  rw [hnew]
  exact hreached.heeded hw hst hlimit n hbegan

/-- **At a rest after a stop, what was dispatched and has not begun is turned away.** -/
theorem Reached.turnedAway_of_disturbed (hw : w.Sound) (hst : ∀ n ∈ w.scope, n ∈ statuses.keys)
    (h : Reached w statuses callerCancelled acts s) (hdisturbed : Disturbed s.history) (hqueue : s.queue = [])
    (hdispatched : .dispatched n ∈ s.history) (hbegan : .began n ∉ s.history) :
    s.stages.get? n = some (.ended (some .cancelled)) ∧ .turnedAway n ∈ s.history := by
  have htraced := h.traced hw hst
  have htoken : s.tokenCancelled = true := (h.tokenCancelled_iff hw hst).2 hdisturbed
  rcases htraced.progress_of_dispatched hdispatched with hp | hp | ⟨error, hp⟩
  · -- whoever could be in line would have a turn to be turned away
    obtain ⟨stage, hstage, hwaiting⟩ := Option.map_eq_some_iff.1 hp
    have hturn := h.hasTurn_eq_false hw hst hqueue hstage
    rw [htoken] at hturn
    cases stage with
    | dispatched => cases hturn
    | awaitingSlot => cases hturn
    | granted => cases hturn
    | _ => cases hwaiting
  · exact absurd (htraced.began_of_underWay hp) hbegan
  · rcases htraced.mem_of_ended hp with hended | ⟨haway, rfl⟩
    · exact absurd ((htraced.began_precedes_ended n error).mem hended) hbegan
    · obtain ⟨stage, hstage, hends⟩ := Option.map_eq_some_iff.1 hp
      cases stage with
      | ended error =>
        cases hends
        exact ⟨hstage, haway⟩
      | _ => cases hends

theorem Reached.statuses_of_turnedAway (hw : w.Sound) (hst : ∀ n ∈ w.scope, n ∈ statuses.keys)
    (h : Reached w statuses callerCancelled acts s) (haway : .turnedAway n ∈ (s.step w).history)
    (hnew : .turnedAway n ∉ s.history) : (s.step w).statuses = s.statuses :=
  (step_outline w s (h.ready hw)).statuses_of_turnedAway (h.tidy hw hst) haway hnew

theorem Reached.get?_statuses_of_turnedAway (hw : w.Sound) (hst : ∀ n ∈ w.scope, n ∈ statuses.keys)
    (hpassive : w.visitor.Passive) (h : Reached w statuses callerCancelled acts s) (hacts : PassiveActs acts)
    (haway : .turnedAway n ∈ s.history) : s.statuses.get? n = statuses.get? n := by
  have hp := (h.traced hw hst).progress_of_turnedAway haway
  rw [h.get?_statuses hw hst hpassive hacts n, hp, if_neg (by simp)]

/-! ## Walks without a limit -/

theorem Reached.not_turnedAway (hw : w.Sound) (hst : ∀ n ∈ w.scope, n ∈ statuses.keys) (hnone : w.limit = none)
    (h : Reached w statuses callerCancelled acts s) (n : String) : .turnedAway n ∉ s.history := by
  have hboth : s.roster.Placed w ∧ ∀ n, .turnedAway n ∉ s.roster.history := by
    refine Reached.roster_induction (P := fun _ r => r.Placed w ∧ ∀ n, .turnedAway n ∉ r.history) hw hst ?_ ?_ ?_ h
    · refine ⟨placed_initial statuses callerCancelled, fun n => ?_⟩
      show .turnedAway n ∉ if callerCancelled then [Event.cancelled] else []
      cases callerCancelled <;> simp
    · rintro _ _ _ ⟨hplaced, haway⟩ hmove
      exact ⟨hplaced.move hmove, hmove.not_turnedAway hplaced hnone haway⟩
    · rintro _ _ _ _ ⟨hplaced, haway⟩ hplay
      exact ⟨hplaced.play hplay, hplay.not_turnedAway haway⟩
  exact hboth.2 n

theorem Reached.began_or_dispatched (hw : w.Sound) (hst : ∀ n ∈ w.scope, n ∈ statuses.keys) (hnone : w.limit = none)
    (h : Reached w statuses callerCancelled acts s) (hdispatched : .dispatched n ∈ s.history) :
    .began n ∈ s.history ∨ s.stages.get? n = some .dispatched := by
  have hunlimited : ¬ w.limit.isSome := by simp [hnone]
  have htraced := h.traced hw hst
  rcases htraced.progress_of_dispatched hdispatched with hp | hp | ⟨error, hp⟩
  · obtain ⟨stage, hstage, hwaiting⟩ := Option.map_eq_some_iff.1 hp
    have hfits := (h.placed hw hst).fits n stage hstage
    cases stage with
    | dispatched => exact Or.inr hstage
    | awaitingSlot => exact absurd hfits.1 hunlimited
    | granted => exact absurd hfits.1 hunlimited
    | _ => cases hwaiting
  · exact Or.inl (htraced.began_of_underWay hp)
  · rcases htraced.mem_of_ended hp with hended | ⟨haway, -⟩
    · exact Or.inl ((htraced.began_precedes_ended n error).mem hended)
    · exact absurd haway (h.not_turnedAway hw hst hnone n)

theorem Reached.began_of_dispatched (hw : w.Sound) (hst : ∀ n ∈ w.scope, n ∈ statuses.keys) (hnone : w.limit = none)
    (h : Reached w statuses callerCancelled acts s) (hqueue : s.queue = []) (hdispatched : .dispatched n ∈ s.history) :
    .began n ∈ s.history := by
  rcases h.began_or_dispatched hw hst hnone hdispatched with hbegan | hstage
  · exact hbegan
  · cases h.hasTurn_eq_false hw hst hqueue hstage

/-- **Without a limit, what begins after a stop is what stood in the run queue for the first time when it came**, up to
those that still stand there. -/
theorem Reached.late_iff (hw : w.Sound) (hst : ∀ n ∈ w.scope, n ∈ statuses.keys) (hnone : w.limit = none)
    (h : Reached w statuses callerCancelled acts s) {later earlier : List Event} {e : Event} (hstop : e.Stops)
    (hsplit : s.history = later ++ e :: earlier) (n : String) :
    .began n ∈ later ∨ s.stages.get? n = some .dispatched ↔ .dispatched n ∈ earlier ∧ .began n ∉ earlier := by
  have htraced := h.traced hw hst
  have hfirst : .dispatched n ∈ s.history → .dispatched n ∈ earlier := fun hmem =>
    (h.prompt hw hst).dispatched n hmem e hstop later earlier hsplit
  constructor
  · rintro (hlater | hstage)
    · have hbegan : .began n ∈ s.history := by
        rw [hsplit]
        exact List.mem_append_left _ hlater
      refine ⟨hfirst ((htraced.dispatched_precedes_began n).mem hbegan), fun hearlier => ?_⟩
      -- it would begin twice
      have hcount : s.outline.history.count (.began n) ≤ 1 := htraced.count_le_one rfl
      rw [show s.outline.history = later ++ e :: earlier from hsplit, List.count_append] at hcount
      have h₁ : 0 < later.count (.began n) := List.count_pos_iff.2 hlater
      have h₂ : 0 < (e :: earlier).count (.began n) := List.count_pos_iff.2 (List.mem_cons_of_mem e hearlier)
      omega
    · have hp : s.outline.progress n = some .waiting := progress_of_get? hstage
      refine ⟨hfirst (htraced.dispatched_of_progress hp nofun), fun hearlier => ?_⟩
      have hbegan : .began n ∈ s.history := by
        rw [hsplit]
        exact List.mem_append_right _ (List.mem_cons_of_mem e hearlier)
      rcases htraced.progress_of_began hbegan with hp' | ⟨error, hp', -⟩
      · cases hp.symm.trans hp'
      · cases hp.symm.trans hp'
  · rintro ⟨hdispatched, hnot⟩
    have hmem : .dispatched n ∈ s.history := by
      rw [hsplit]
      exact List.mem_append_right _ (List.mem_cons_of_mem e hdispatched)
    refine (h.began_or_dispatched hw hst hnone hmem).imp_left fun hbegan => ?_
    rw [hsplit] at hbegan
    rcases List.mem_append.1 hbegan with hlater | hrest
    · exact hlater
    · rcases List.mem_cons.1 hrest with rfl | hearlier
      · cases hstop
      · exact absurd hearlier hnot

end State

end Rollout
