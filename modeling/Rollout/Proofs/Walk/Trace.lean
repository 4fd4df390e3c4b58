import Rollout.Proofs.Walk.Tidy
/-!
What the history of a walk holds about one visit.  The history is read newest first; the part of it that is about one
service goes through the stages of one visit and no further (`Record`), in every state of a walk (`Reached.traced`).  So
no visit begins twice, and an end has a beginning before it.  Nothing in the history is ever taken back
(`Reached.grows`).

There are six records: of a service that is not covered, of one that is idle, waits or is under way, and of one whose
visit has ended or was turned away.  Each is a list of three events at most, so what a history says of a visit is found
by going through the six: which events there are, how often, and in which order.  Each event of a visit happens once at
most (`count_le_one`), in a service that is not covered none does (`count_eq_zero`), and what stands before the
beginning or the end of a visit is known (`record_split`).

Events that are no stage of a visit, such as a note or the cancellation by the caller, are not in the record of any
service and leave all of them as they are.  `Precedes` is the order in which the events of a history come; it is said of
all occurrences, and is transitive.
-/
namespace Rollout

/-! ## One event before another -/

/-- Whenever `second` happens, `first` has happened before. -/
def Precedes (first second : Event) (history : List Event) : Prop :=
  ∀ later earlier, history = later ++ second :: earlier → first ∈ earlier

section Precedes

variable {a b c e : Event} {history : List Event}

theorem precedes_of_not_mem (h : b ∉ history) : Precedes a b history := by
  rintro later earlier rfl
  exact absurd (List.mem_append_right later List.mem_cons_self) h

theorem Precedes.cons (h : Precedes a b history) (hnew : e = b → a ∈ history) : Precedes a b (e :: history) := by
  intro later earlier heq
  cases later with
  | nil =>
    obtain ⟨rfl, rfl⟩ := List.cons.inj heq
    exact hnew rfl
  | cons e' later =>
    obtain ⟨rfl, rfl⟩ := List.cons.inj heq
    exact h later earlier rfl

theorem Precedes.append (h : Precedes a b history) :
    ∀ new : List Event, (b ∈ new → a ∈ history) → Precedes a b (new ++ history)
  | [], _ => h
  | e :: new, hnew => by
    refine (Precedes.append h new fun hb => hnew (List.mem_cons_of_mem e hb)).cons fun heq => ?_
    exact List.mem_append_right new (hnew (heq ▸ List.mem_cons_self))

theorem Precedes.trans (hab : Precedes a b history) (hbc : Precedes b c history) : Precedes a c history := by
  rintro later earlier rfl
  obtain ⟨between, earliest, rfl⟩ := List.append_of_mem (hbc later earlier rfl)
  have ha : a ∈ earliest := hab (later ++ c :: between) earliest (by simp)
  exact List.mem_append_right between (List.mem_cons_of_mem b ha)

theorem Precedes.mem (h : Precedes a b history) (hb : b ∈ history) : a ∈ history := by
  obtain ⟨later, earlier, rfl⟩ := List.append_of_mem hb
  have ha : a ∈ earlier := h later earlier rfl
  exact List.mem_append_right later (List.mem_cons_of_mem b ha)

end Precedes

/-! ## The events of one visit -/

/-- The service whose visit comes to a new stage with an event. -/
def Event.visit? : Event → Option String
  | .dispatched name => some name
  | .began name => some name
  | .ended name _ => some name
  | .turnedAway name => some name
  | _ => none

def visitOf (name : String) (history : List Event) : List Event := history.filter fun e => e.visit? = some name

section VisitOf

variable {name : String} {e : Event} {history : List Event}

theorem mem_visitOf (name : String) (e : Event) (h : e.visit? = some name) :
    e ∈ visitOf name history ↔ e ∈ history := by
  simp [visitOf, h]

theorem count_visitOf (name : String) (e : Event) (h : e.visit? = some name) :
    (visitOf name history).count e = history.count e :=
  List.count_filter (by simpa using h)

theorem visitOf_append (later : List Event) :
    visitOf name (later ++ history) = visitOf name later ++ visitOf name history :=
  List.filter_append _ _

theorem visitOf_cons_self (h : e.visit? = some name) : visitOf name (e :: history) = e :: visitOf name history :=
  List.filter_cons_of_pos (by simpa using h)

theorem visitOf_cons_other (h : e.visit? ≠ some name) : visitOf name (e :: history) = visitOf name history :=
  List.filter_cons_of_neg (by simpa using h)

theorem visitOf_dispatched {names : List String} (h : names.Nodup) :
    visitOf name ((names.map .dispatched).reverse ++ history) =
      if name ∈ names then .dispatched name :: visitOf name history else visitOf name history := by
  have hmap : visitOf name (names.map .dispatched) = (names.filter (· = name)).map .dispatched := by
    unfold visitOf
    rw [List.filter_map]
    congr 1
    exact List.filter_congr fun n _ => by simp [Event.visit?]
  have hreverse : visitOf name (names.map .dispatched).reverse = (visitOf name (names.map .dispatched)).reverse :=
    List.filter_reverse
  rw [visitOf_append, hreverse, hmap, List.filter_eq, h.count]
  split
  · rfl
  · rfl

end VisitOf

/-- What the history holds about a visit that has come so far, newest first. -/
inductive Record (name : String) : Option Progress → List Event → Prop where
  | uncovered : Record name none []
  | idle : Record name (some .idle) []
  | waiting : Record name (some .waiting) [.dispatched name]
  | underWay : Record name (some .underWay) [.began name, .dispatched name]
  | ended (error : Option Failure) :
      Record name (some (.ended error)) [.ended name error, .began name, .dispatched name]
  | turnedAway : Record name (some (.ended (some .cancelled))) [.turnedAway name, .dispatched name]

namespace Outline

variable {w : Walk} {o o' : Outline} {name : String}

def Traced (o : Outline) : Prop := ∀ n, Record n (o.progress n) (visitOf n o.history)

/-! ## What every step keeps -/

theorem Traced.note (h : o.Traced) {e : Event} (he : e.visit? = none) : (o.note e).Traced := fun n => by
  show Record n (o.progress n) (visitOf n (e :: o.history))
  rw [visitOf_cons_other (by rw [he]; simp)]
  exact h n

theorem Traced.cancel (h : o.Traced) : o.cancel.Traced := fun n => by
  show Record n (o.progress n) (visitOf n (if o.callerCancelled then o.history else .cancelled :: o.history))
  split
  · exact h n
  · rw [visitOf_cons_other (by simp [Event.visit?])]
    exact h n

theorem Traced.put (h : o.Traced) {p : Progress} {e : Event} (he : e.visit? = some name)
    (hnew : ∀ l, Record name (o.progress name) l → Record name (some p) (e :: l)) (hcov : o.progress name ≠ none) :
    ((o.put name p).note e).Traced := fun n => by
  unfold Outline.put Outline.note
  dsimp only
  by_cases hn : n = name
  · subst hn
    rw [if_pos rfl, visitOf_cons_self he]
    cases hp : o.progress n with
    | none => exact absurd hp hcov
    | some q => exact hnew _ (h n)
  · rw [if_neg hn, visitOf_cons_other (by rw [he]; simpa using Ne.symm hn)]
    exact h n

theorem Traced.begin (h : o.Traced) (hp : o.progress name = some .waiting) : (o.begin name).Traced := by
  refine h.put rfl (fun l hl => ?_) (by simp [hp])
  rw [hp] at hl
  cases hl
  exact .underWay

theorem Traced.ended (h : o.Traced) (hp : o.progress name = some .underWay) (error : Option Failure) :
    ((o.put name (.ended error)).note (.ended name error)).Traced := by
  refine h.put rfl (fun l hl => ?_) (by simp [hp])
  rw [hp] at hl
  cases hl
  exact .ended error

theorem Traced.turnedAway (h : o.Traced) (hp : o.progress name = some .waiting) :
    ((o.put name (.ended (some .cancelled))).note (.turnedAway name)).Traced := by
  refine h.put rfl (fun l hl => ?_) (by simp [hp])
  rw [hp] at hl
  cases hl
  exact .turnedAway

theorem Traced.dispatch (h : o.Traced) {names : List String} (hnames : names.Nodup) : (o.dispatch names).Traced := by
  intro n
  unfold Outline.dispatch
  dsimp only
  rw [visitOf_dispatched (hnames.sublist List.filter_sublist)]
  simp only [List.mem_filter, decide_eq_true_eq]
  split
  · rename_i hidle
    have hrecord := h n
    rw [hidle.2] at hrecord
    generalize visitOf n o.history = events at hrecord ⊢
    cases hrecord
    exact .waiting
  · exact h n

theorem Traced.conclude (h : o.Traced) (htidy : o.Tidy w) (hname : name ∈ w.scope) (error : Option Failure) :
    (o.conclude w name error).Traced := by
  have hcounted : (o.counted w name).Traced := h
  refine conclude_cases htidy.ready (htidy.marked name hname) (fun _ _ => h) (fun _ _ => h) (fun _ _ _ => hcounted) ?_
  exact fun _ _ _ => hcounted.dispatch ((w.nodup_successors name).sublist List.filter_sublist)

theorem Traced.step (h : o.Traced) (htidy : o.Tidy w) (hstep : o.Step w o') : o'.Traced := by
  cases hstep with
  | still => exact h
  | begin hp _ => exact h.begin hp
  | cancel _ => exact h.cancel
  | token _ => exact h.note rfl
  | status other _ => exact h.note rfl
  | log text _ => exact h.note rfl
  | write other status _ => exact h
  | finish error hp => exact (h.ended hp error).conclude ((htidy.put _ _).note _) (htidy.mem_scope hp) error
  | turnAway hp _ => exact (h.turnedAway hp).conclude ((htidy.put _ _).note _) (htidy.mem_scope hp) _

theorem traced_initial {statuses : Table Status} {callerCancelled : Bool} (hw : w.Sound) :
    (Outline.initial w statuses callerCancelled).openRound.Traced := by
  have hfirst : Traced { (Outline.initial w statuses callerCancelled).notice with ready := [] } := fun n => by
    show Record n (if n ∈ w.scope then some .idle else none) (visitOf n (if callerCancelled then [.cancelled] else []))
    have hnothing : visitOf n (if callerCancelled then [.cancelled] else []) = [] := by
      cases callerCancelled <;> rfl
    rw [hnothing]
    split
    · exact .idle
    · exact .uncovered
  unfold openRound
  split
  · exact hfirst.dispatch (hw.nodup.sublist List.filter_sublist)
  · exact hfirst

end Outline

open Outline

/-- **In every state of a walk each visit has come as far as the history says.** -/
theorem State.Reached.traced {w : Walk} {statuses : Table Status} {callerCancelled : Bool} {acts : List Outside}
    {s : State} (hw : w.Sound) (hst : ∀ n ∈ w.scope, n ∈ statuses.keys)
    (h : State.Reached w statuses callerCancelled acts s) : s.outline.Traced := by
  refine State.Reached.induction (P := fun _ o => o.Traced) hw (traced_initial hw) ?_ ?_ ?_ h
  · exact fun _ _ _ hrun htraced hstep => htraced.step (hrun.tidy hw hst) hstep
  · exact fun _ _ _ htraced => htraced
  · intro _ _ act _ htraced _
    cases act with
    | release _ => exact htraced
    | cancel => exact htraced.cancel
    | setStatus _ _ => exact htraced

/-! ## What a traced history says -/

theorem Record.before_began {name : String} {p : Option Progress} {after before : List Event}
    (h : Record name p (after ++ .began name :: before)) : before = [.dispatched name] := by
  generalize hall : after ++ .began name :: before = all at h
  cases h <;> simp_all [List.append_eq_cons_iff, List.cons_eq_append_iff]

theorem Record.before_ended {name : String} {error : Option Failure} {p : Option Progress} {after before : List Event}
    (h : Record name p (after ++ .ended name error :: before)) : before = [.began name, .dispatched name] := by
  generalize hall : after ++ .ended name error :: before = all at h
  cases h <;> simp_all [List.append_eq_cons_iff, List.cons_eq_append_iff]

theorem Record.nodup {name : String} {p : Option Progress} {events : List Event} (h : Record name p events) :
    events.Nodup := by
  cases h <;> simp

namespace Outline.Traced

variable {o : Outline} {name : String} {e : Event}

theorem count_le_one (h : o.Traced) (he : e.visit? = some name) : o.history.count e ≤ 1 := by
  rw [← count_visitOf name e he]
  exact List.nodup_iff_count_le_one.1 (h name).nodup e

theorem count_eq_one (h : o.Traced) (he : e.visit? = some name) (hmem : e ∈ o.history) : o.history.count e = 1 :=
  Nat.le_antisymm (h.count_le_one he) (List.count_pos_iff.2 hmem)

theorem count_eq_zero (h : o.Traced) (he : e.visit? = some name) (hp : o.progress name = none) :
    o.history.count e = 0 := by
  have hrecord := h name
  rw [hp] at hrecord
  rw [← count_visitOf name e he]
  generalize visitOf name o.history = events at hrecord ⊢
  cases hrecord
  exact List.count_nil

theorem progress_of_began (h : o.Traced) (hb : .began name ∈ o.history) :
    o.progress name = some .underWay ∨
      ∃ error, o.progress name = some (.ended error) ∧ .ended name error ∈ o.history := by
  have hrecord := h name
  have hmem : ∀ error, .ended name error ∈ visitOf name o.history → .ended name error ∈ o.history :=
    fun error => (mem_visitOf name (.ended name error) rfl).1
  rw [← mem_visitOf name (.began name) rfl] at hb
  generalize visitOf name o.history = events at hrecord hb hmem
  generalize o.progress name = p at hrecord ⊢
  cases hrecord with
  | underWay => exact Or.inl rfl
  | ended error => exact Or.inr ⟨error, rfl, hmem error List.mem_cons_self⟩
  | _ => simp at hb

theorem inFlight_split (h : o.Traced) (hp : o.progress name = some .waiting ∨ o.progress name = some .underWay) :
    .dispatched name ∈ o.history ∧ (∀ error, .ended name error ∉ o.history) ∧ .turnedAway name ∉ o.history := by
  have hinside : .dispatched name ∈ visitOf name o.history ∧ (∀ error, .ended name error ∉ visitOf name o.history) ∧
      .turnedAway name ∉ visitOf name o.history := by
    have hrecord := h name
    generalize visitOf name o.history = events at hrecord ⊢
    generalize o.progress name = p at hrecord hp
    cases hrecord <;> simp_all
  obtain ⟨hdispatched, hended, haway⟩ := hinside
  exact ⟨(mem_visitOf name _ rfl).1 hdispatched, fun error he => hended error ((mem_visitOf name _ rfl).2 he),
    fun he => haway ((mem_visitOf name _ rfl).2 he)⟩

theorem ended_iff (h : o.Traced) {error : Option Failure} (hne : error ≠ some .cancelled) :
    .ended name error ∈ o.history ↔ o.progress name = some (.ended error) := by
  have hrecord := h name
  rw [← mem_visitOf name (.ended name error) rfl]
  generalize visitOf name o.history = events at hrecord ⊢
  generalize o.progress name = p at hrecord ⊢
  cases hrecord with
  | ended error' => simp [eq_comm]
  | turnedAway => simpa using Ne.symm hne
  | _ => simp

theorem mem_of_ended (h : o.Traced) {error : Option Failure} (hp : o.progress name = some (.ended error)) :
    .ended name error ∈ o.history ∨ .turnedAway name ∈ o.history ∧ error = some .cancelled := by
  have hrecord := h name
  rw [hp] at hrecord
  rw [← mem_visitOf name (.ended name error) rfl, ← mem_visitOf name (.turnedAway name) rfl]
  generalize visitOf name o.history = events at hrecord ⊢
  cases hrecord <;> simp

theorem dispatched_of_progress (h : o.Traced) {p : Progress} (hp : o.progress name = some p) (hidle : p ≠ .idle) :
    .dispatched name ∈ o.history := by
  have hrecord := h name
  rw [hp] at hrecord
  rw [← mem_visitOf name (.dispatched name) rfl]
  generalize visitOf name o.history = events at hrecord ⊢
  cases hrecord with
  | idle => exact absurd rfl hidle
  | _ => simp

theorem began_of_underWay (h : o.Traced) (hp : o.progress name = some .underWay) : .began name ∈ o.history := by
  have hrecord := h name
  rw [hp] at hrecord
  rw [← mem_visitOf name (.began name) rfl]
  generalize visitOf name o.history = events at hrecord ⊢
  cases hrecord
  exact List.mem_cons_self

theorem ended_unique (h : o.Traced) (hended : .ended name none ∈ o.history) :
    (∀ cause, .ended name (some cause) ∉ o.history) ∧ .turnedAway name ∉ o.history := by
  have hrecord := h name
  have hp : o.progress name = some (.ended none) := (h.ended_iff (by simp)).1 hended
  rw [hp] at hrecord
  constructor
  · intro cause
    rw [← mem_visitOf name (.ended name (some cause)) rfl]
    generalize visitOf name o.history = events at hrecord ⊢
    cases hrecord
    simp
  · rw [← mem_visitOf name (.turnedAway name) rfl]
    generalize visitOf name o.history = events at hrecord ⊢
    cases hrecord
    simp

theorem progress_of_dispatched (h : o.Traced) (hd : .dispatched name ∈ o.history) :
    o.progress name = some .waiting ∨ o.progress name = some .underWay ∨
      ∃ error, o.progress name = some (.ended error) := by
  have hrecord := h name
  rw [← mem_visitOf name (.dispatched name) rfl] at hd
  generalize visitOf name o.history = events at hrecord hd
  generalize o.progress name = p at hrecord ⊢
  cases hrecord <;> simp_all

theorem record_split (h : o.Traced) (name : String) {later earlier : List Event} {e : Event} (he : e.visit? = some name)
    (hsplit : o.history = later ++ e :: earlier) :
    Record name (o.progress name) (visitOf name later ++ e :: visitOf name earlier) := by
  have hrecord := h name
  rwa [hsplit, visitOf_append, visitOf_cons_self he] at hrecord

theorem dispatched_precedes_began (h : o.Traced) (name : String) :
    Precedes (.dispatched name) (.began name) o.history := by
  intro later earlier hsplit
  have hbefore := (h.record_split name rfl hsplit).before_began
  rw [← mem_visitOf name (.dispatched name) rfl, hbefore]
  exact List.mem_cons_self

theorem began_precedes_ended (h : o.Traced) (name : String) (error : Option Failure) :
    Precedes (.began name) (.ended name error) o.history := by
  intro later earlier hsplit
  have hbefore := (h.record_split name rfl hsplit).before_ended
  rw [← mem_visitOf name (.began name) rfl, hbefore]
  exact List.mem_cons_self

end Outline.Traced

/-! ## Nothing is taken back -/

namespace Outline

variable {w : Walk} {o o' : Outline} {name : String}

theorem suffix_conclude (htidy : o.Tidy w) (hname : name ∈ w.scope) (error : Option Failure) :
    o.history <:+ (o.conclude w name error).history := by
  refine conclude_cases (P := fun o' => o.history <:+ o'.history) htidy.ready (htidy.marked name hname) ?_ ?_ ?_ ?_
  · exact fun _ _ => List.suffix_refl _
  · exact fun _ _ => List.suffix_refl _
  · exact fun _ _ _ => List.suffix_refl _
  · exact fun _ _ _ => List.suffix_append _ _

theorem suffix_cancel (o : Outline) : o.history <:+ o.cancel.history := by
  show o.history <:+ if o.callerCancelled then o.history else .cancelled :: o.history
  split
  · exact List.suffix_refl _
  · exact List.suffix_cons _ _

theorem Step.suffix (hstep : o.Step w o') (htidy : o.Tidy w) : o.history <:+ o'.history := by
  cases hstep with
  | still => exact List.suffix_refl _
  | cancel _ => exact o.suffix_cancel
  | write other status _ => exact List.suffix_refl _
  | begin _ _ => exact List.suffix_cons _ _
  | token _ => exact List.suffix_cons _ _
  | status other _ => exact List.suffix_cons _ _
  | log text _ => exact List.suffix_cons _ _
  | finish error hp =>
    exact (List.suffix_cons _ _).trans (suffix_conclude ((htidy.put _ _).note _) (htidy.mem_scope hp) error)
  | turnAway hp _ =>
    exact (List.suffix_cons _ _).trans (suffix_conclude ((htidy.put _ _).note _) (htidy.mem_scope hp) _)

end Outline

/-- **A walk only adds to its history.** -/
theorem State.Reached.grows {w : Walk} {statuses : Table Status} {callerCancelled : Bool} {acts more : List Outside}
    {s t : State} (hw : w.Sound) (hst : ∀ n ∈ w.scope, n ∈ statuses.keys)
    (h : State.Reached w statuses callerCancelled acts s) (hrun : State.Runs w s more t) : s.history <:+ t.history := by
  induction hrun with
  | refl => exact List.suffix_refl _
  | @turn _ t hrun ih =>
    have hreached : State.Reached w statuses callerCancelled _ t := h.trans hrun
    exact ih.trans ((State.step_outline w t (hreached.ready hw)).suffix (hreached.tidy hw hst))
  | @notice _ t _ ih =>
    rw [show t.noteCancellation.history = t.noteCancellation.outline.history from rfl, State.outline_noteCancellation]
    exact ih
  | @outside _ t act _ _ ih =>
    rw [show (t.play act).history = (t.play act).outline.history from rfl, State.outline_play]
    cases act with
    | release _ => exact ih
    | cancel => exact ih.trans (suffix_cancel t.outline)
    | setStatus _ _ => exact ih

end Rollout
