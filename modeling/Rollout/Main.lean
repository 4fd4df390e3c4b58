import Rollout.CommandLine
/-!
The program.  It looks at the paths that its arguments may need before anything is decided; the rest is
`CommandLine.run` on what it saw.

A look at a path is a value (`Glance`): whether something is there, and what reading it gives.  A run that gives up
because of its limit exits as a program does that is aborted, and one that is left pending stays where it is.
-/
namespace Rollout

structure Glance where
  path : Path
  present : Bool
  content : Except ReadFailure String

def Glance.surroundings (directory : Path) (glances : List Glance) : Surroundings where
  directory := directory
  present := fun path => glances.any fun g => g.path = path && g.present
  read := fun path => ((glances.find? fun g => g.path = path).map Glance.content).getD (.error .missing)

def readFailure : IO.Error → ReadFailure
  | .noFileOrDirectory _ _ _ => .missing
  | .inappropriateType _ code _ => if code = 21 then .isDirectory else .notDirectory
  | .permissionDenied _ code details => .other (details ++ " (os error " ++ toString code.toNat ++ ")")
  | error => .other (toString error)

def glance (path : Path) : IO Glance := do
  let present ← try
      let _ ← IO.FS.realPath path.text
      pure true
    catch _ => pure false
  let content ← try
      let bytes ← IO.FS.readBinFile path.text
      pure (decodeText bytes)
    catch error => pure (.error (readFailure error))
  return ⟨path, present, content⟩

end Rollout

open Rollout in
def main (args : List String) : IO UInt32 := do
  let directory := Path.ofText (← IO.currentDir).toString
  let paths := match Invocation.parse args with
    | .ok i => CommandLine.paths directory i
    | .error _ => []
  let around := Glance.surroundings directory (← paths.mapM glance)
  match CommandLine.run around args with
  | .exited code out err =>
    IO.print out
    IO.eprint err
    return code.toUInt32
  | @Ending.aborted out .uncountable =>
    IO.print out
    IO.eprintln "a limit of that many visits cannot be counted"
    return 101
  | @Ending.aborted out .pending =>
    IO.print out
    while true do
      IO.sleep 1000
    return 0
