import Rollout.Proofs.Graph.Closure
import Rollout.Proofs.Traverse.Dialogue
import Rollout.Proofs.Traverse.Outcome
/-!
Turns that fail for a service that does not exist.  A turn names the services that it needs, and fails for the first one
that is not a service (`notFound?_reply`), before anything else is looked at; the deployment stays as it was
(`next_of_notFound?`).  A traversal whose token is cancelled beforehand needs its roots as well, and then ends at once
(`traverse_of_cancelled`).

Nothing else makes a turn say that a service was not found.  In particular the verdict on a traversal does not: it is a
failed visit or a cancellation, even if the visit failed because it set the status of an unknown service.  So an answer
tells by itself whether its turn was refused (`Answer.notFound?`), and a turn that was refused might as well not be
taken: later answers are those of the same deployment.
-/
namespace Rollout

/-- The names that a turn needs to be services, in the order in which it asks for them. -/
def Turn.needs : Turn → List String
  | .ask (.childrenOf name) => [name]
  | .ask (.parentsOf name) => [name]
  | .ask (.closure roots) => roots
  | .ask (.childrenWithStatus name _) => [name]
  | .ask (.parentsWithStatus name _) => [name]
  | .ask _ => []
  | .request (.setStatus name _) => [name]
  | .request (.traverse t _ _ _ _) => t.roots.getD []

def Result.notFound? : Result → Option String
  | .failed (.serviceNotFound name) => some name
  | _ => none

/-- The name that an answer says is no service. -/
def Answer.notFound? : Answer → Option String
  | .refused (.serviceNotFound name) => some name
  | .report told => told.result.notFound?
  | _ => none

/-! ## The first unknown name -/

namespace Graph

variable {g : Graph} {names : List String} {name : String}

def unknown? (g : Graph) (names : List String) : Option String := names.find? fun name => !g.contains name

theorem closure_eq_match (g : Graph) (names : List String) : g.closure names =
    match g.unknown? names with
    | some name => .error (.serviceNotFound name)
    | none => .ok (g.downstream names) := rfl

theorem unknown?_eq_some_iff : g.unknown? names = some name ↔
    ∃ known others, names = known ++ name :: others ∧ (∀ other ∈ known, other ∈ g.services) ∧ name ∉ g.services := by
  have hclosure : g.unknown? names = some name ↔ g.closure names = .error (.serviceNotFound name) := by
    rw [closure_eq_match]
    cases g.unknown? names with
    | none => simp
    | some first => simp
  rw [hclosure, closure_eq_error_iff]
  constructor
  · rintro ⟨known, unknown, others, hnames, hknown, hunknown, hname⟩
    obtain rfl := Failure.serviceNotFound.inj hname
    exact ⟨known, others, hnames, hknown, hunknown⟩
  · rintro ⟨known, others, hnames, hknown, hunknown⟩
    exact ⟨known, name, others, hnames, hknown, hunknown, rfl⟩

theorem unknown?_singleton (g : Graph) (name : String) :
    g.unknown? [name] = if g.contains name then none else some name := by
  unfold unknown?
  cases hname : g.contains name with
  | true => simp [hname]
  | false => simp [hname]

end Graph

theorem notFound?_verdict (events : List Event) : (Result.ofFailure (verdict events)).notFound? = none := by
  unfold verdict
  cases hfirst : events.findSome? Event.failure? with
  | none =>
    dsimp only
    split
    · rfl
    · rfl
  | some failure =>
    obtain ⟨e, -, hfailure⟩ := List.exists_of_findSome?_eq_some hfirst
    unfold Event.failure? at hfailure
    split at hfailure
    · split at hfailure
      · cases hfailure
      · cases hfailure
        rfl
    · cases hfailure

/-! ## Walks cancelled beforehand -/

namespace State

theorem start_of_cancelled (w : Walk) (statuses : Table Status) : start w statuses true =
    { initial w statuses true with failure := some .cancelled, ready := [] } := by
  unfold start State.settle
  exact if_pos rfl

theorem done_start_of_cancelled (w : Walk) (statuses : Table Status) : (start w statuses true).done = true := by
  have hprogress : (start w statuses true).outline.progress = (Outline.initial w statuses true).progress := by
    rw [start_of_cancelled, ← outline_initial]
    rfl
  rw [done_iff]
  refine Or.inr fun n => ?_
  rw [hprogress]
  unfold Outline.initial
  dsimp only
  split
  · exact ⟨nofun, nofun⟩
  · exact ⟨nofun, nofun⟩

end State

namespace Deployment

variable {d : Deployment} {t : Traversal} {name : String}

/-! ## Questions and statuses -/

theorem notFound?_require (g : Graph) (name : String) (found : List String) :
    (Answer.ofNames do g.require name; return found).notFound? = g.unknown? [name] := by
  rw [g.unknown?_singleton]
  unfold Graph.require
  cases g.contains name with
  | true => rfl
  | false => rfl

theorem notFound?_filter (found : Except Failure (List String)) (keep : String → Bool) :
    (Answer.ofNames do return (← found).filter keep).notFound? = (Answer.ofNames found).notFound? := by
  cases found with
  | error failure => rfl
  | ok names => rfl

theorem setStatus_eq (hd : d.Sound) (name : String) (status : Status) : d.setStatus name status =
    if d.graph.contains name then .ok { d with statuses := d.statuses.modify name fun _ => status }
    else .error (.serviceNotFound name) := by
  have hcontains : d.statuses.contains name = d.graph.contains name := by
    rw [Bool.eq_iff_iff, Table.contains_iff, Graph.contains_iff, hd.statuses]
  unfold setStatus
  rw [hcontains]

theorem notFound?_setStatus (hd : d.Sound) (name : String) (status : Status) :
    (d.reply (.request (.setStatus name status))).notFound? = d.graph.unknown? [name] := by
  unfold reply
  dsimp only
  rw [setStatus_eq hd, d.graph.unknown?_singleton]
  cases d.graph.contains name with
  | true => rfl
  | false => rfl

/-! ## Traversals -/

theorem scope_of_unknown (h : d.graph.unknown? (t.roots.getD []) = some name) :
    t.scope d.graph = .error (.serviceNotFound name) := by
  unfold Traversal.scope
  cases hroots : t.roots with
  | none =>
    rw [hroots] at h
    cases h
  | some roots =>
    rw [hroots] at h
    dsimp only
    rw [Graph.closure_eq_match, show d.graph.unknown? roots = some name from h]

theorem known_of_unknown? (h : d.graph.unknown? (t.roots.getD []) = none) : t.Known d.graph := by
  intro roots hroots root hroot
  rw [hroots] at h
  have hknown := List.find?_eq_none.1 h root hroot
  simpa [Graph.contains_iff] using hknown

theorem notFound?_traverse (hd : d.Sound) (t : Traversal) (limit : Option Limit) (visitor : Visitor)
    (callerCancelled : Bool) (script : Script) :
    (d.traverse t limit visitor callerCancelled script).1.result.notFound? = d.graph.unknown? (t.roots.getD []) := by
  cases hunknown : d.graph.unknown? (t.roots.getD []) with
  | some name =>
    rw [traverse_refused (scope_of_unknown hunknown)]
    rfl
  | none =>
    obtain ⟨w, hwalk, hw, -, -, -, -, hst⟩ := hd.exists_walk (known_of_unknown? hunknown) limit visitor
    obtain ⟨s, h, hrest, -, hresult, -⟩ := traverse_reached hwalk hw hst callerCancelled script
    rw [hresult, State.result_of_aborted (h.tidy hw hst).aborted]
    split
    · rw [h.failure_eq_verdict hw hst hrest]
      exact notFound?_verdict _
    · rfl

/-- **A traversal with known roots whose token is cancelled beforehand ends at once**, whatever it covers. -/
theorem traverse_of_cancelled (hd : d.Sound) (ht : t.Known d.graph) (limit : Option Limit) (visitor : Visitor)
    (script : Script) :
    d.traverse t limit visitor true script = (⟨[⟨[.cancelled], d.statuses⟩], .failed .cancelled, []⟩, d) := by
  obtain ⟨w, hwalk, -⟩ := hd.exists_walk ht limit visitor
  have hdone := State.done_start_of_cancelled w d.statuses
  rw [traverse_eq hwalk]
  dsimp only
  rw [State.rests_of_done hdone, State.last_of_done hdone]
  unfold State.report State.result
  rw [hdone, State.start_of_cancelled]
  rfl

/-! ## Turns -/

/-- **A turn fails for the first name that it needs and that is no service**, and for no other reason does it say that a
service was not found. -/
theorem notFound?_reply (hd : d.Sound) (turn : Turn) : (d.reply turn).notFound? = d.graph.unknown? turn.needs := by
  cases turn with
  | request made =>
    cases made with
    | setStatus name status => exact notFound?_setStatus hd name status
    | traverse t limit visitor callerCancelled script =>
      exact notFound?_traverse hd t limit visitor callerCancelled script
  | ask question =>
    cases question with
    | childrenOf name => exact notFound?_require d.graph name _
    | parentsOf name => exact notFound?_require d.graph name _
    | childrenWithStatus name status =>
      exact (notFound?_filter (d.graph.childrenOf name) _).trans (notFound?_require d.graph name _)
    | parentsWithStatus name status =>
      exact (notFound?_filter (d.graph.parentsOf name) _).trans (notFound?_require d.graph name _)
    | closure roots =>
      unfold reply answer
      dsimp only
      rw [Graph.closure_eq_match]
      unfold Turn.needs
      dsimp only
      cases d.graph.unknown? roots with
      | some name => rfl
      | none => rfl
    | _ => rfl

/-- **A turn that fails for an unknown service leaves the deployment as it was.** -/
theorem next_of_notFound? (hd : d.Sound) {turn : Turn} (h : (d.reply turn).notFound? ≠ none) : d.next turn = d := by
  cases turn with
  | ask question => rfl
  | request made =>
    cases made with
    | setStatus name status =>
      unfold next serve
      unfold reply at h
      dsimp only at h ⊢
      cases hset : d.setStatus name status with
      | error failure => rfl
      | ok changed =>
        rw [hset] at h
        exact absurd rfl h
    | traverse t limit visitor callerCancelled script =>
      rw [notFound?_reply hd] at h
      obtain ⟨name, hunknown⟩ := Option.ne_none_iff_exists'.1 h
      exact congrArg Prod.snd (traverse_refused (scope_of_unknown hunknown) limit visitor callerCancelled script)

/-- **A turn that fails for an unknown service might as well not be taken.**  Whatever was said before, a turn fails so
just if it needs a name that is no service, it names the first one, and what is said later is what would be said without
it.  A traversal that fails so begins nothing, with whatever limit, visitor, token and script; one with known roots
whose token is cancelled beforehand begins nothing either, and only says that it was cancelled.  While a traversal is
under way, a status for an unknown service changes nothing in it. -/
theorem unknown_service_harmless {g : Graph} {entries : List (String × List String)}
    (hbuild : Graph.build entries = .ok g) (status : Status) (earlier : List Turn) :
    let first := uniform g status
    let d := first.serveAll (earlier.filterMap Turn.request?)
    (∀ turn name, (d.reply turn).notFound? = some name ↔ ∃ known others,
      turn.needs = known ++ name :: others ∧ (∀ other ∈ known, other ∈ g.services) ∧ name ∉ g.services) ∧
    (∀ turn, (d.reply turn).notFound? ≠ none → d.next turn = d ∧ ∀ later,
      first.replies (earlier ++ turn :: later) = first.replies earlier ++ d.reply turn :: d.replies later ∧
        first.replies (earlier ++ later) = first.replies earlier ++ d.replies later) ∧
    (∀ t limit visitor callerCancelled script name,
      (d.reply (.request (.traverse t limit visitor callerCancelled script))).notFound? = some name →
        d.traverse t limit visitor callerCancelled script = (.refused d.statuses (.serviceNotFound name), d)) ∧
    (∀ t, t.Known g → ∀ limit visitor script,
      d.traverse t limit visitor true script = (⟨[⟨[.cancelled], d.statuses⟩], .failed .cancelled, []⟩, d)) ∧
    ∀ (t : Traversal) limit visitor w callerCancelled acts s, t.walk g limit visitor = .ok w →
      State.Reached w d.statuses callerCancelled acts s →
        ∀ name, name ∉ g.services → ∀ status, s.play (.setStatus name status) = s := by
  intro first d
  obtain ⟨hd, hgraph⟩ := (sound_uniform hbuild status).serveAll (earlier.filterMap Turn.request?)
  have hg : d.graph = g := hgraph
  refine ⟨fun turn name => ?_, fun turn hfails => ?_, fun t limit visitor callerCancelled script name hfails => ?_,
    fun t ht limit visitor script => ?_, fun t limit visitor w callerCancelled acts s hwalk h name hname status => ?_⟩
  · rw [notFound?_reply hd, Graph.unknown?_eq_some_iff, hg]
  · have hnext : d.next turn = d := next_of_notFound? hd hfails
    refine ⟨hnext, fun later => ⟨?_, replies_append earlier later first⟩⟩
    rw [replies_append]
    show _ ++ d.reply turn :: (d.next turn).replies later = _
    rw [hnext]
  · rw [notFound?_reply hd] at hfails
    exact traverse_refused (scope_of_unknown hfails) limit visitor callerCancelled script
  · exact traverse_of_cancelled hd (hg.symm ▸ ht) limit visitor script
  · have hkeys : s.statuses.keys = g.services := hg ▸ hd.keys_of_reached (hg.symm ▸ hwalk) h
    unfold State.play
    dsimp only
    rw [Table.modify_of_not_mem (hkeys.symm ▸ hname)]

theorem unknown_service_harmless_pair :
    let turn : Turn := .request (.traverse (Traversal.downstreamOf ["db", "cache", "web"]) (Limit.ofNat? 1)
      (fun _ => [.log "down"]) true [])
    let earlier : List Turn := [.ask .roots, .request (.setStatus "db" .started)]
    let d := pair.serveAll [.setStatus "db" .started]
    (d.reply turn).notFound? = some "cache" ∧ d.next turn = d ∧
      pair.replies (earlier ++ [turn, .ask (.status "db")]) =
        [.names ["api"], .done, d.reply turn, .status (some .started)] ∧
      (d.traverse .forward none (fun _ => [.log "up"]) true []).1.result = .failed .cancelled := by
  intro turn earlier d
  have hbuild : Graph.build [("api", ["db"]), ("db", [])] = .ok pair.graph := by decide +kernel
  obtain ⟨hnames, hharmless, -, hcancelled, -⟩ := unknown_service_harmless hbuild .stopped earlier
  have hunknown : (d.reply turn).notFound? = some "cache" :=
    (hnames turn "cache").2 ⟨["db"], ["web"], rfl, by decide +kernel, by decide +kernel⟩
  obtain ⟨hnext, hlater⟩ := hharmless turn (Option.ne_none_iff_exists'.2 ⟨_, hunknown⟩)
  refine ⟨hunknown, hnext, ((hlater [.ask (.status "db")]).1).trans ?_, ?_⟩
  · decide +kernel
  · exact congrArg (fun left => left.1.result) (hcancelled .forward nofun none (fun _ => [.log "up"]) [])

end Deployment

end Rollout
