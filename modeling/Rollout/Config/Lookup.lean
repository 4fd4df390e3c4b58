import Rollout.Config.Document
import Rollout.FileTree
/-!
Where the configuration comes from.  Without a path of its own it is looked for in a directory and then in the ones
around it: the nearest directory that has one of the two file names counts, and of the two names the first.

`candidates` lists the paths in the order in which they are looked for, and `locate` takes the first that is there.  The
directories around a path are those of `Path.chain`, which is by the text of the path alone: nothing is resolved.
Reading a path gives its text or a reason why there is none; what goes wrong while the text is parsed is not the
business of the lookup.
-/
namespace Rollout

namespace Config

def fileNames : List String := ["service-federation.yaml", "service-federation.yml"]

def candidates (directory : Path) : List Path := directory.chain.flatMap fun d => fileNames.map d.child

def notFound : Failure :=
  .config (Failure.missingFile ++ " service-federation.yaml in current directory or any parent")

def locate (present : Path → Bool) (directory : Path) : Except Failure Path :=
  match (candidates directory).find? present with
  | some path => .ok path
  | none => .error notFound

def unreadable (path : Path) (cause : ReadFailure) : Failure :=
  .config ("Failed to read config file '" ++ path.text ++ "': " ++ cause.reason)

def load (read : Path → Except ReadFailure String) (path : Path) : Except Failure Config :=
  match read path with
  | .ok text => parse text
  | .error cause => .error (unreadable path cause)

end Config

end Rollout
