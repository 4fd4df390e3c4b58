import Rollout.Command
/-!
What a command prints, and when.  A command prints line by line, but all the steps that can fail stand before the first
line that is printed: the graph is built, the slots are made and the traversal is over by then.  So a command prints all
of its lines or none (`Command.allOrNone_run`).  It is the order of the steps that makes it so, and an `Outcome` has
room for the lines of a command that breaks off halfway.

The lemmas about one step each say that a step which may fail leaves a command with all of its lines or none, if the
rest of the command does so and nothing was printed before (`Outcome.allOrNone_attempt`, `Command.allOrNone_withLimit`).
A line that is printed before such a step would break this: the rest of the command can fail after it.

The other lemmas say what a command comes to when its steps do: on an accepted graph a check prints the overview of the
graph (`Command.run_check`), and a plan that is made is printed (`Command.planGraph_of_made`).  A limit that can be
counted does not change anything but what is planned with it (`Command.exists_withLimit`).
-/
namespace Rollout

theorem Graph.overview_of_not_isEmpty {g : Graph} (h : g.isEmpty = false) : g.overview =
    .status "Dependencies:" :: (Text.lines g.display).map (fun line => .status ("  " ++ line)) ++
      [.status ("Roots:  " ++ ", ".intercalate g.roots), .status ("Leaves: " ++ ", ".intercalate g.leaves),
        .success ("Dependency graph is valid (" ++ toString g.size ++ " services)")] := by
  unfold overview
  rw [if_neg (Bool.eq_false_iff.1 h)]

namespace Outcome

/-- A command prints all of its lines or none. -/
def AllOrNone (o : Outcome) : Prop := o.lines = [] ∨ o = .printed o.lines

theorem printAll_eq : ∀ lines : List Line, printAll lines = .printed lines
  | [] => rfl
  | line :: lines => congrArg (print line) (printAll_eq lines)

theorem allOrNone_printAll (lines : List Line) : (printAll lines).AllOrNone := by
  rw [printAll_eq]
  exact Or.inr rfl

theorem allOrNone_failed (failure : Failure) : (@failed [] failure).AllOrNone := Or.inl rfl

theorem allOrNone_aborted (halt : Halt) : (@aborted [] halt).AllOrNone := Or.inl rfl

theorem allOrNone_attempt {α : Type} {rest : α → Outcome} (h : ∀ a, (rest a).AllOrNone) (value : Except Failure α) :
    (attempt value rest).AllOrNone := by
  cases value with
  | error failure => exact allOrNone_failed failure
  | ok a => exact h a

end Outcome

namespace Command

variable {c : Config} {g : Graph} {f : Failure} {o : Plan.Operation} {command : Command} {parallel : Option Nat}
variable {limit : Option Limit} {callerCancelled : Bool}

/-! ## What a command comes to -/

theorem run_of_graph_error (hg : c.graph = .error f) (command : Command) (parallel : Option Nat)
    (callerCancelled : Bool) : command.run c parallel callerCancelled = @Outcome.failed [] f := by
  unfold run Outcome.attempt
  rw [hg]

theorem run_check (hg : c.graph = .ok g) (parallel : Option Nat) (callerCancelled : Bool) :
    check.run c parallel callerCancelled = .printed g.overview := by
  unfold run Outcome.attempt
  rw [hg]
  exact Outcome.printAll_eq g.overview

theorem run_plan (hg : c.graph = .ok g) :
    (plan o).run c parallel callerCancelled = withLimit parallel (planGraph o g callerCancelled) := by
  unfold run Outcome.attempt
  rw [hg]

theorem exists_withLimit (h : ∀ n ∈ parallel, n ≤ Limit.most) :
    ∃ limit, ∀ rest, withLimit parallel rest = rest limit := by
  cases parallel with
  | none => exact ⟨none, fun _ => rfl⟩
  | some n =>
    obtain ⟨limit, hlimit⟩ := Limit.exists_ofNat? (h n rfl)
    refine ⟨some limit, fun rest => ?_⟩
    unfold withLimit
    dsimp only
    rw [hlimit]

theorem planGraph_of_made {p : Plan} (h : Plan.ofGraph g o limit callerCancelled = .made p) :
    planGraph o g callerCancelled limit = .printed (p.overview o.title) := by
  unfold planGraph
  rw [h]
  exact Outcome.printAll_eq _

theorem planGraph_of_failed (h : Plan.ofGraph g o limit callerCancelled = .failed f) :
    planGraph o g callerCancelled limit = @Outcome.failed [] f := by
  unfold planGraph
  rw [h]

/-! ## When a command prints -/

theorem allOrNone_withLimit {rest : Option Limit → Outcome} (h : ∀ limit, (rest limit).AllOrNone) :
    (withLimit parallel rest).AllOrNone := by
  unfold withLimit
  split
  · exact h none
  · split
    · exact h _
    · exact Outcome.allOrNone_aborted _

theorem allOrNone_planGraph : (planGraph o g callerCancelled limit).AllOrNone := by
  unfold planGraph
  split
  · exact Outcome.allOrNone_printAll _
  · exact Outcome.allOrNone_failed _
  · exact Outcome.allOrNone_aborted _

/-- **A command prints all of its lines or none.** -/
theorem allOrNone_run (command : Command) (c : Config) (parallel : Option Nat) (callerCancelled : Bool) :
    (command.run c parallel callerCancelled).AllOrNone := by
  refine Outcome.allOrNone_attempt (fun g => ?_) c.graph
  cases command with
  | check => exact Outcome.allOrNone_printAll _
  | plan o => exact allOrNone_withLimit fun limit => allOrNone_planGraph

end Command

end Rollout
