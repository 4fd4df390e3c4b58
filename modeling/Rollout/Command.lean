import Rollout.Plan
import Rollout.Text.Lines
/-!
The commands and what they print.  A check prints the graph of a configuration, line by line, with its roots, its leaves
and the number of its services; a plan prints the waves of an operation, and how many services and waves there are.

A command prints line by line, and every end that it can come to keeps the lines that were printed by then: it is over,
it has failed, or it is left without an end (`Outcome`).  The steps of a command stand in the order in which they are
done.  `attempt` is a step that may fail, `withLimit` one that makes the slots of a limit if one is asked for, and
`print` one that prints a line before the rest of the command.

There are two ways to be left without an end.  A limit may be too large for its slots to be counted, which the program
finds out when it makes them, after the graph and before the traversal.  And a traversal may wait for what does not
happen; a plan is not made of such a traversal.
-/
namespace Rollout

inductive Command where
  | check
  | plan (operation : Plan.Operation)
deriving DecidableEq, Repr

inductive Line where
  | status (text : String)
  | success (text : String)
deriving DecidableEq, Repr

namespace Graph

def overview (g : Graph) : List Line :=
  if g.isEmpty then [.status "No services defined."]
  else
    .status "Dependencies:" :: (Text.lines g.display).map (fun line => .status ("  " ++ line)) ++
      [.status ("Roots:  " ++ ", ".intercalate g.roots), .status ("Leaves: " ++ ", ".intercalate g.leaves),
        .success ("Dependency graph is valid (" ++ toString g.size ++ " services)")]

end Graph

namespace Plan

def waveLine (p : Plan) (wave : Nat) : Line :=
  .status ("  " ++ toString wave ++ ". " ++ ", ".intercalate (p.members wave))

def overview (p : Plan) (title : String) : List Line :=
  .status title :: p.waves.map p.waveLine ++
    [.success (toString p.wave.size ++ " service(s) in " ++ toString p.waves.length ++ " wave(s)")]

end Plan

/-- Why a command is left without an end. -/
inductive Halt where
  /-- It gives up at once, told to count more slots than can be counted. -/
  | uncountable
  /-- Its traversal is left pending. -/
  | pending
deriving DecidableEq, Repr

/-- How a command ends, with the lines that it has printed by then. -/
inductive Outcome where
  | printed (lines : List Line)
  | failed {lines : List Line} (failure : Failure)
  | aborted {lines : List Line} {halt : Halt}
deriving DecidableEq, Repr

namespace Outcome

def lines : Outcome → List Line
  | printed lines => lines
  | @failed lines _ => lines
  | @aborted lines _ => lines

def print (line : Line) : Outcome → Outcome
  | printed rest => printed (line :: rest)
  | @failed rest failure => @failed (line :: rest) failure
  | @aborted rest halt => @aborted (line :: rest) halt

def printAll (lines : List Line) : Outcome := lines.foldr print (printed [])

/-- Goes on with a value, unless there is none. -/
def attempt {α : Type} (value : Except Failure α) (rest : α → Outcome) : Outcome :=
  match value with
  | .error failure => @failed [] failure
  | .ok a => rest a

end Outcome

namespace Command

/-- Goes on with the limit that is asked for, if any is. -/
def withLimit (parallel : Option Nat) (rest : Option Limit → Outcome) : Outcome :=
  match parallel with
  | none => rest none
  | some n =>
    match Limit.ofNat? n with
    | some limit => rest (some limit)
    | none => @Outcome.aborted [] .uncountable

def planGraph (o : Plan.Operation) (g : Graph) (callerCancelled : Bool) (limit : Option Limit) : Outcome :=
  match Plan.ofGraph g o limit callerCancelled with
  | .made p => .printAll (p.overview o.title)
  | .failed failure => @Outcome.failed [] failure
  | .pending => @Outcome.aborted [] .pending

/-- Runs a command on a configuration.  A check needs neither a limit nor a token. -/
def run (command : Command) (c : Config) (parallel : Option Nat) (callerCancelled : Bool) : Outcome :=
  .attempt c.graph fun g =>
    match command with
    | check => .printAll g.overview
    | plan o => withLimit parallel (planGraph o g callerCancelled)

end Command

end Rollout
