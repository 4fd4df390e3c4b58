import Rollout.Config.Lookup
import Rollout.Invocation
/-!
The whole program, from its arguments to what it writes and the code it exits with.  What lies around it is a value: the
directory it runs in, which paths lead somewhere, and what reading a path gives (`Surroundings`).  A tree of files makes
one of these at every place of it.

A run finds its configuration, leaves out the services that are not active if profiles are given, and runs its command.
What the command has printed goes to standard output, whatever its end is.  A failure is written to standard error with
a hint on what to do about it, after an apology if it was a plan that failed; the code is 1, or 130 for a cancellation.
Arguments that ask for help exit with 0 and the usage, and arguments that make no sense with 2.  A run that is left
without an end has no code.

`paths` are the paths at which a run looks, in the order in which it does, so that a program can look before it decides
anything.
-/
namespace Rollout

structure Surroundings where
  directory : Path
  present : Path → Bool
  read : Path → Except ReadFailure String

def FileTree.around (t : FileTree) (place : Place) : Surroundings := ⟨⟨true, place⟩, t.present place, t.read place⟩

/-- How a run of the program ends, with what it has written by then. -/
inductive Ending where
  | exited (code : Nat) (out err : String)
  | aborted {out : String} {halt : Halt}
deriving DecidableEq, Repr

def Ending.out : Ending → String
  | exited _ out _ => out
  | @aborted out _ => out

namespace CommandLine

def usage : String :=
  "Usage: fed-order [-c PATH] [-p PROFILE]... [--parallel N] COMMAND\n" ++
  "Shows the order in which services would be brought up, torn down, or restarted.\n\n" ++
  "Commands:\n" ++
  "  check               Validate dependencies and print the graph\n" ++
  "  up                  Plan bringing every service up (dependencies first)\n" ++
  "  down                Plan tearing every service down (dependents first)\n" ++
  "  restart SERVICE...  Plan restarting services and everything that depends on them\n\n" ++
  "Options:\n" ++
  "  -c, --config PATH     Config file path (defaults to service-federation.yaml)\n" ++
  "  -p, --profile PROFILE Active profile, can be repeated\n" ++
  "      --parallel N      Visit at most this many services at once\n"

def green (text : String) : String := "\x1b[32m" ++ text ++ "\x1b[0m"

def red (text : String) : String := "\x1b[31m" ++ text ++ "\x1b[0m"

def render : Line → String
  | .status text => text ++ "\n"
  | .success text => green text ++ "\n"

def rendered (lines : List Line) : String := String.join (lines.map render)

def complaint (f : Failure) : String := "Error: " ++ f.messageWithSuggestion ++ "\n"

/-- What is said of a command that does not come to its end.  A check has nothing to leave incomplete. -/
def apology : Command → String
  | .check => ""
  | .plan _ => red "Plan incomplete" ++ "\n"

def exitCode (f : Failure) : Nat := if f.isCancelled then 130 else 1

def paths (directory : Path) (i : Invocation) : List Path :=
  match i.config with
  | some path => [path]
  | none => Config.candidates directory

def config (s : Surroundings) (i : Invocation) : Except Failure Config := do
  let path ← match i.config with
    | some path => .ok path
    | none => Config.locate s.present s.directory
  let c ← Config.load s.read path
  return if i.profiles.isEmpty then c else c.withProfiles i.profiles

def execute (s : Surroundings) (i : Invocation) : Ending :=
  match config s i with
  | .error f => .exited (exitCode f) "" (complaint f)
  | .ok c =>
    match i.command.run c i.parallel false with
    | .printed lines => .exited 0 (rendered lines) ""
    | @Outcome.failed lines f => .exited (exitCode f) (rendered lines) (apology i.command ++ complaint f)
    | @Outcome.aborted lines halt => @Ending.aborted (rendered lines) halt

def run (s : Surroundings) (args : List String) : Ending :=
  match Invocation.parse args with
  | .error .help => .exited 0 usage ""
  | .error .misuse => .exited 2 "" usage
  | .ok i => execute s i

end CommandLine

end Rollout
