import Rollout.CommandLine
import Rollout.Proofs.Plan.Restart
/-!
What a run of the program comes to.  The configuration decides for all commands (`execute_cases`): either none comes to
its end, and each reports the same failure, or those do that name services only which are left of the configuration, and
any other reports the first name that is not.  A run that does not come to its end has no output (`out_of_run`).

To succeed is to exit with 0.  To report a failure is to exit with 1 and to write the failure with its hint, perhaps
with an apology before it, and nothing else; a run that was aborted does neither.  Failures of a configuration are no
cancellations, whichever step they come from, so they all have the same code (`isCancelled_of_config`,
`isCancelled_of_graph`).

A check of an accepted graph cannot fail.  A plan can only fail for an unknown service, which the traversal finds out
before it begins (`ofGraph_of_unknown`); otherwise its traversal comes to a good end under every limit, and the plan is
printed (`run_of_known`).  The services that are left of a configuration are those that are declared and active
(`mem_remaining_iff`).
-/
namespace Rollout

/-! ## Commands on an accepted graph -/

namespace Command

def named : Command → List String
  | .plan (.restart named) => named
  | _ => []

variable {c : Config} {g : Graph} {f : Failure} {command : Command} {parallel : Option Nat}

theorem services_of_graph (hg : c.graph = .ok g) (name : String) : name ∈ g.services ↔ name ∈ c.services.keys := by
  rw [Graph.eq_of_build hg, Graph.mem_services_ofEntries, List.map_map]
  exact Iff.rfl

theorem run_of_known (hg : c.graph = .ok g) (hnamed : ∀ name ∈ command.named, name ∈ g.services)
    (hparallel : ∀ n ∈ parallel, n ≤ Limit.most) : ∃ lines, command.run c parallel false = .printed lines := by
  cases command with
  | check => exact ⟨_, run_check hg parallel false⟩
  | plan o =>
    have hknown : o.Known g := by
      rintro named rfl
      exact hnamed
    obtain ⟨p, -, hp⟩ := Plan.exists_layered_forall hg hknown
    exact ⟨_, Plan.run_of_made hg hp hparallel⟩

theorem ofGraph_of_unknown {named : List String} {name : String}
    (hfirst : named.find? (fun name => !g.contains name) = some name) (limit : Option Limit) :
    Plan.ofGraph g (.restart named) limit false = .failed (.serviceNotFound name) := by
  have hne : named ≠ [] := List.ne_nil_of_mem (List.mem_of_find?_eq_some hfirst)
  have hscope : (Traversal.downstreamOf named).scope g = .error (.serviceNotFound name) := by
    rw [Traversal.scope_downstreamOf hne]
    unfold Graph.closure
    rw [hfirst]
  have hrefused := Deployment.traverse_refused (d := .uniform g (Plan.Operation.restart named).initialStatus) hscope
    limit Plan.idle false []
  unfold Plan.ofGraph Plan.Operation.traversal
  dsimp only
  rw [hrefused]
  rfl

theorem run_of_unknown (hg : c.graph = .ok g) {name : String}
    (hfirst : command.named.find? (fun name => !g.contains name) = some name)
    (hparallel : ∀ n ∈ parallel, n ≤ Limit.most) :
    command.run c parallel false = @Outcome.failed [] (.serviceNotFound name) := by
  cases command with
  | check => cases hfirst
  | plan o =>
    cases o with
    | up => cases hfirst
    | down => cases hfirst
    | restart named =>
      obtain ⟨limit, hlimit⟩ := exists_withLimit hparallel
      have hplan : Plan.ofGraph g (.restart named) limit false = .failed (.serviceNotFound name) :=
        ofGraph_of_unknown hfirst limit
      rw [run_plan hg, hlimit, planGraph_of_failed hplan]

end Command

/-! ## Runs -/

namespace Ending

def Succeeds (e : Ending) : Prop := ∃ out err, e = .exited 0 out err

/-- The run reports a failure, perhaps with an apology before it, and writes nothing else. -/
def Reports (e : Ending) (f : Failure) : Prop :=
  ∃ command, e = .exited 1 "" (CommandLine.apology command ++ CommandLine.complaint f)

theorem Reports.not_succeeds {e : Ending} {f : Failure} (h : e.Reports f) : ¬ e.Succeeds := by
  rintro ⟨out, err, rfl⟩
  obtain ⟨command, heq⟩ := h
  cases heq

end Ending

namespace CommandLine

variable {s : Surroundings} {i : Invocation} {f : Failure} {c : Config} {g : Graph} {command : Command}

/-! ### The configuration of a run -/

def place (s : Surroundings) (i : Invocation) : Except Failure Path :=
  match i.config with
  | some path => .ok path
  | none => Config.locate s.present s.directory

theorem config_eq (s : Surroundings) (i : Invocation) : config s i = (place s i).bind fun path =>
    (Config.load s.read path).map fun c => if i.profiles.isEmpty then c else c.withProfiles i.profiles := by
  have hload : ∀ path, (Config.load s.read path >>= fun c => pure (if i.profiles.isEmpty then c
      else c.withProfiles i.profiles)) = (Config.load s.read path).map fun c =>
        if i.profiles.isEmpty then c else c.withProfiles i.profiles := fun path => by
    cases Config.load s.read path <;> rfl
  unfold config place
  cases i.config with
  | some path => exact hload path
  | none =>
    cases Config.locate s.present s.directory with
    | error failure => rfl
    | ok path => exact hload path

theorem config_eq_error (h : config s i = .error f) :
    place s i = .error f ∨ ∃ path, place s i = .ok path ∧ Config.load s.read path = .error f := by
  rw [config_eq] at h
  cases hplace : place s i with
  | error failure =>
    rw [hplace] at h
    obtain rfl := Except.error.inj h
    exact Or.inl rfl
  | ok path =>
    rw [hplace] at h
    change (Config.load s.read path).map _ = .error f at h
    cases hload : Config.load s.read path with
    | error failure =>
      rw [hload] at h
      obtain rfl := Except.error.inj h
      exact Or.inr ⟨path, rfl, hload⟩
    | ok c =>
      rw [hload] at h
      cases h

def remaining (s : Surroundings) (i : Invocation) : List String :=
  match config s i with
  | .ok c => c.services.keys
  | .error _ => []

theorem mem_remaining_iff {path : Path} (hplace : place s i = .ok path) (hload : Config.load s.read path = .ok c)
    (name : String) : name ∈ remaining s i ↔
      ∃ service, c.services.get? name = some service ∧ (i.profiles = [] ∨ service.isActive i.profiles = true) := by
  have hconfig : config s i = .ok (if i.profiles.isEmpty then c else c.withProfiles i.profiles) := by
    rw [config_eq, hplace]
    change (Config.load s.read path).map _ = _
    rw [hload]
    rfl
  unfold remaining
  rw [hconfig]
  dsimp only
  rw [← Table.get?_isSome_iff, Option.isSome_iff_exists]
  split
  · rename_i hempty
    simp [List.isEmpty_iff.1 hempty]
  · rename_i hsome
    unfold Config.withProfiles
    rw [Table.get?_filter]
    simp only [Option.filter_eq_some_iff, List.isEmpty_iff] at hsome ⊢
    simp [hsome]

/-! ### Failures of a configuration -/

theorem isCancelled_of_parse {text : String} (h : Config.parse text = .error f) : f.isCancelled = false := by
  unfold Config.parse at h
  split at h
  · cases h
  · split at h
    · cases h
      rfl
    · cases h
    · split at h
      · cases h
      · cases h
        rfl

theorem isCancelled_of_load {read : Path → Except ReadFailure String} {path : Path}
    (h : Config.load read path = .error f) : f.isCancelled = false := by
  unfold Config.load at h
  split at h
  · exact isCancelled_of_parse h
  · cases h
    rfl

theorem isCancelled_of_place (h : place s i = .error f) : f.isCancelled = false := by
  unfold place Config.locate at h
  split at h
  · cases h
  · split at h
    · cases h
    · cases h
      rfl

theorem isCancelled_of_config (h : config s i = .error f) : f.isCancelled = false := by
  rcases config_eq_error h with hplace | ⟨path, -, hload⟩
  · exact isCancelled_of_place hplace
  · exact isCancelled_of_load hload

theorem isCancelled_of_graph (h : c.graph = .error f) : f.isCancelled = false := by
  unfold Config.graph at h
  rcases Graph.build_cases (c.services.entries.map fun e => (e.1, e.2.dependencies)) with
    ⟨_, _, herror, -⟩ | ⟨_, herror, -⟩ | ⟨hok, -⟩
  · rw [herror] at h
    cases h
    rfl
  · rw [herror] at h
    cases h
    rfl
  · rw [hok] at h
    cases h

theorem exitCode_of_not_cancelled (h : f.isCancelled = false) : exitCode f = 1 := by
  unfold exitCode
  rw [h]
  rfl

/-! ### What a configuration decides -/

theorem execute_of_config_error (h : config s i = .error f) (command : Command) :
    (execute s { i with command := command }).Reports f := by
  refine ⟨.check, ?_⟩
  unfold execute
  rw [show config s { i with command := command } = .error f from h]
  dsimp only
  rw [exitCode_of_not_cancelled (isCancelled_of_config h)]
  exact congrArg (Ending.exited 1 "") String.empty_append.symm

theorem execute_of_failed (h : config s i = .ok c) (hrun : command.run c i.parallel false = @Outcome.failed [] f)
    (hf : f.isCancelled = false) : (execute s { i with command := command }).Reports f := by
  refine ⟨command, ?_⟩
  unfold execute
  rw [show config s { i with command := command } = .ok c from h]
  dsimp only
  rw [hrun]
  dsimp only
  rw [exitCode_of_not_cancelled hf]
  rfl

theorem execute_of_printed (h : config s i = .ok c) {lines : List Line}
    (hrun : command.run c i.parallel false = .printed lines) : (execute s { i with command := command }).Succeeds := by
  refine ⟨rendered lines, "", ?_⟩
  unfold execute
  rw [show config s { i with command := command } = .ok c from h]
  dsimp only
  rw [hrun]

theorem execute_of_graph (h : config s i = .ok c) (hg : c.graph = .ok g) (hparallel : ∀ n ∈ i.parallel, n ≤ Limit.most)
    (command : Command) :
    ((execute s { i with command := command }).Succeeds ↔ ∀ name ∈ command.named, name ∈ remaining s i) ∧
      ∀ name, command.named.find? (fun name => name ∉ remaining s i) = some name →
        (execute s { i with command := command }).Reports (.serviceNotFound name) := by
  have hmem : ∀ name, name ∈ g.services ↔ name ∈ remaining s i := by
    unfold remaining
    rw [h]
    exact Command.services_of_graph hg
  have hunknown : ∀ name, command.named.find? (fun name => name ∉ remaining s i) = some name →
      (execute s { i with command := command }).Reports (.serviceNotFound name) := by
    intro name hfirst
    have hout : command.named.find? (fun name => !g.contains name) = some name := by
      rw [← hfirst]
      refine congrArg (List.find? · command.named) (funext fun n => ?_)
      rw [Bool.eq_iff_iff, Bool.not_eq_true', ← Bool.not_eq_true, Graph.contains_iff, hmem, decide_eq_true_iff]
    exact execute_of_failed h (Command.run_of_unknown hg hout hparallel) rfl
  refine ⟨⟨fun hok => ?_, fun hnamed => ?_⟩, hunknown⟩
  · by_contra hsome
    obtain ⟨name, hname⟩ := not_forall.1 hsome
    rw [Classical.not_imp] at hname
    have hfound : (command.named.find? fun name => name ∉ remaining s i).isSome = true := by
      rw [List.find?_isSome]
      exact ⟨name, hname.1, by simpa using hname.2⟩
    obtain ⟨first, hfirst⟩ := Option.isSome_iff_exists.1 hfound
    exact (hunknown first hfirst).not_succeeds hok
  · obtain ⟨lines, hlines⟩ := Command.run_of_known hg (fun name hname => (hmem name).2 (hnamed name hname)) hparallel
    exact execute_of_printed h hlines

/-- **A configuration decides for all commands**: each reports the same failure, or only the services that are named
make a difference. -/
theorem execute_cases (s : Surroundings) (i : Invocation) (hparallel : ∀ n ∈ i.parallel, n ≤ Limit.most) :
    (∃ f, ∀ command, (execute s { i with command := command }).Reports f) ∨
    ∀ command : Command,
      ((execute s { i with command := command }).Succeeds ↔ ∀ name ∈ command.named, name ∈ remaining s i) ∧
      ∀ name, command.named.find? (fun name => name ∉ remaining s i) = some name →
        (execute s { i with command := command }).Reports (.serviceNotFound name) := by
  cases hconfig : config s i with
  | error f => exact Or.inl ⟨f, execute_of_config_error hconfig⟩
  | ok c =>
    cases hg : c.graph with
    | ok g => exact Or.inr (execute_of_graph hconfig hg hparallel)
    | error f =>
      refine Or.inl ⟨f, fun command => ?_⟩
      exact execute_of_failed hconfig (Command.run_of_graph_error hg command i.parallel false) (isCancelled_of_graph hg)

/-! ### Output -/

theorem out_of_execute (h : ¬ (execute s i).Succeeds) : (execute s i).out = "" := by
  unfold execute at h ⊢
  split at h
  · rfl
  · rename_i c hconfig
    have hlines := Command.allOrNone_run i.command c i.parallel false
    cases hrun : i.command.run c i.parallel false with
    | printed lines =>
      rw [hrun] at h
      exact absurd ⟨_, _, rfl⟩ h
    | @failed lines f =>
      rw [hrun] at hlines
      obtain rfl : lines = [] := hlines.resolve_right nofun
      rfl
    | @aborted lines halt =>
      rw [hrun] at hlines
      obtain rfl : lines = [] := hlines.resolve_right nofun
      rfl

/-- **A run that does not come to its end has no output.** -/
theorem out_of_run {args : List String} (h : ¬ (run s args).Succeeds) : (run s args).out = "" := by
  unfold run at h ⊢
  split at h
  · exact absurd ⟨_, _, rfl⟩ h
  · rfl
  · exact out_of_execute h

end CommandLine

end Rollout
