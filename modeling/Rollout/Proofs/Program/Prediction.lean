import Rollout.Proofs.Program.Arguments
import Rollout.Proofs.Program.Runs
/-!
What a check says of the other commands.  After the same options it tells whether bring-up and tear-down can be planned,
and together with the names given whether a restart can (`check_predicts`).

The options are the same for all of these runs, so their configuration is too, and the configuration decides for all
commands.  That the options are the same is not taken for granted: it is read off the arguments, which differ in what
follows the options only (`run_command`, `run_restart`).  Whether a run comes to its end is asked of the run as a whole,
by its code and by what it has written.
-/
namespace Rollout

namespace CommandLine

variable {s : Surroundings} {i : Invocation} {command : Command} {options rest : List String}

theorem run_command {word : String} (hoptions : Invocation.parse (options ++ ["check"]) = .ok i)
    (hcheck : i.command = .check) (hword : Argument.ofText word = .plain word)
    (hcommand : Invocation.readCommand word rest = .ok command) :
    run s (options ++ word :: rest) = execute s { i with command := command } := by
  unfold run
  rw [Invocation.parse_command hoptions hcheck hword, hcommand]
  rfl

theorem run_restart {named : List String} (hoptions : Invocation.parse (options ++ ["check"]) = .ok i)
    (hcheck : i.command = .check) (hnamed : Invocation.services true rest = .ok named) (hne : named ≠ []) :
    run s (options ++ "restart" :: rest) = execute s { i with command := .plan (.restart named) } := by
  refine run_command hoptions hcheck (by decide +kernel) ?_
  unfold Invocation.readCommand
  rw [hnamed]
  cases named with
  | nil => exact absurd rfl hne
  | cons name named => rfl

/-- **A check predicts the plans.**  After the same options it comes to its end if and only if bring-up and tear-down
can be planned, and otherwise all of them report the same failure, a restart as well.  A restart can be planned if and
only if it names services only that are left of the configuration, declared and active; otherwise, if the check comes to
its end, the first one that is not is reported.  So none of these runs is left unfinished: a plan is printed once its
traversal has come to a good end.  A run that does not exit with 0 has no output. -/
theorem check_predicts (s : Surroundings) {options : List String} {path : Option Path} {profiles : List String}
    {parallel : Option Nat}
    (hoptions : Invocation.parse (options ++ ["check"]) = .ok ⟨path, profiles, parallel, .check⟩)
    (hparallel : ∀ n ∈ parallel, n ≤ Limit.most) :
    let left := remaining s ⟨path, profiles, parallel, .check⟩
    let ends := fun command => run s (options ++ command)
    (∀ file c, place s ⟨path, profiles, parallel, .check⟩ = .ok file → Config.load s.read file = .ok c →
      ∀ name, name ∈ left ↔
        ∃ service, c.services.get? name = some service ∧ (profiles = [] ∨ service.isActive profiles = true)) ∧
      ((ends ["check"]).Succeeds ↔ (ends ["up"]).Succeeds) ∧
      ((ends ["check"]).Succeeds ↔ (ends ["down"]).Succeeds) ∧
      (∀ rest named, Invocation.services true rest = .ok named → named ≠ [] →
        ((ends ("restart" :: rest)).Succeeds ↔ (ends ["check"]).Succeeds ∧ ∀ name ∈ named, name ∈ left)) ∧
      (¬ (ends ["check"]).Succeeds → ∃ f, (ends ["check"]).Reports f ∧ (ends ["up"]).Reports f ∧
        (ends ["down"]).Reports f ∧ ∀ rest named, Invocation.services true rest = .ok named → named ≠ [] →
          (ends ("restart" :: rest)).Reports f) ∧
      ((ends ["check"]).Succeeds → ∀ rest named name, Invocation.services true rest = .ok named →
        named.find? (fun name => name ∉ left) = some name →
          (ends ("restart" :: rest)).Reports (.serviceNotFound name)) ∧
      ∀ args, ¬ (run s args).Succeeds → (run s args).out = "" := by
  intro left ends
  refine ⟨fun _ _ => mem_remaining_iff, ?_⟩
  have hcheck : ends ["check"] = execute s ⟨path, profiles, parallel, .check⟩ :=
    run_command hoptions rfl (by decide +kernel) rfl
  have hup : ends ["up"] = execute s ⟨path, profiles, parallel, .plan .up⟩ :=
    run_command hoptions rfl (by decide +kernel) rfl
  have hdown : ends ["down"] = execute s ⟨path, profiles, parallel, .plan .down⟩ :=
    run_command hoptions rfl (by decide +kernel) rfl
  have hrestart : ∀ rest named, Invocation.services true rest = .ok named → named ≠ [] →
      ends ("restart" :: rest) = execute s ⟨path, profiles, parallel, .plan (.restart named)⟩ :=
    fun rest named hnamed hne => run_restart hoptions rfl hnamed hne
  rw [hcheck, hup, hdown]
  rcases execute_cases s ⟨path, profiles, parallel, .check⟩ hparallel with ⟨f, hfailed⟩ | hdecided
  · have hnone : ∀ command, ¬ (execute s ⟨path, profiles, parallel, command⟩).Succeeds :=
      fun command => (hfailed command).not_succeeds
    refine ⟨iff_of_false (hnone _) (hnone _), iff_of_false (hnone _) (hnone _), fun rest named hnamed hne => ?_, ?_,
      fun hok => absurd hok (hnone _), fun _ => out_of_run⟩
    · rw [hrestart rest named hnamed hne]
      exact iff_of_false (hnone _) fun hboth => hnone _ hboth.1
    · refine fun _ => ⟨f, hfailed _, hfailed _, hfailed _, fun rest named hnamed hne => ?_⟩
      rw [hrestart rest named hnamed hne]
      exact hfailed _
  · have hall : ∀ command : Command, command.named = [] →
        (execute s ⟨path, profiles, parallel, command⟩).Succeeds := fun command hnone =>
      (hdecided command).1.2 (hnone ▸ fun _ hname => absurd hname List.not_mem_nil)
    refine ⟨iff_of_true (hall _ rfl) (hall _ rfl), iff_of_true (hall _ rfl) (hall _ rfl),
      fun rest named hnamed hne => ?_, fun hnot => absurd (hall _ rfl) hnot, fun _ rest named name hnamed hfirst => ?_,
      fun _ => out_of_run⟩
    · rw [hrestart rest named hnamed hne]
      exact (hdecided (.plan (.restart named))).1.trans (and_iff_right (hall _ rfl)).symm
    · have hne : named ≠ [] := List.ne_nil_of_mem (List.mem_of_find?_eq_some hfirst)
      rw [hrestart rest named hnamed hne]
      exact (hdecided (.plan (.restart named))).2 name hfirst

def pair : Surroundings :=
  ⟨⟨true, []⟩, fun _ => true, fun _ => .ok "services:\n  api:\n    depends_on: [db]\n  db:\n    image: postgres\n"⟩

theorem check_predicts_pair :
    (run pair (["-p", "web", "--parallel", "2"] ++ ["up"])).Succeeds ∧
      (run pair (["-p", "web", "--parallel", "2"] ++ ["restart", "db", "web"])).Reports (.serviceNotFound "web") := by
  have hoptions : Invocation.parse (["-p", "web", "--parallel", "2"] ++ ["check"]) =
      .ok ⟨none, ["web"], some 2, .check⟩ := by decide +kernel
  have hparallel : ∀ n ∈ some 2, n ≤ Limit.most := by
    rintro n ⟨⟩
    decide
  obtain ⟨-, hup, -, -, -, hunknown, -⟩ := check_predicts pair hoptions hparallel
  have hcheck : (run pair (["-p", "web", "--parallel", "2"] ++ ["check"])).Succeeds :=
    ⟨"Dependencies:\n  api -> db\n  db\nRoots:  api\nLeaves: db\n" ++
      green "Dependency graph is valid (2 services)" ++ "\n", "", by decide +kernel⟩
  exact ⟨hup.1 hcheck, hunknown hcheck ["db", "web"] ["db", "web"] "web" (by decide +kernel) (by decide +kernel)⟩

end CommandLine

end Rollout
