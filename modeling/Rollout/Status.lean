/-!
The lifecycle status of a service, and its lower-case word.  A word that no status has reads as nothing
(`Status.ofWord?`), and every status is read back from its own word (`Status.ofWord?_word`).

The words are what stands in documents and reports.  A debugging view writes a status with a capital (`debugName`), as a
constructor would be written.  Nothing here says which status may follow another: a traversal records its target, and a
visit may set any.
-/
namespace Rollout

inductive Status where
  | stopped
  | starting
  | started
  | stopping
  | removed
  | upgrading
  | restarting
deriving DecidableEq, Repr

namespace Status

def all : List Status := [stopped, starting, started, stopping, removed, upgrading, restarting]

def word : Status → String
  | stopped => "stopped"
  | starting => "starting"
  | started => "started"
  | stopping => "stopping"
  | removed => "removed"
  | upgrading => "upgrading"
  | restarting => "restarting"

def ofWord? (text : String) : Option Status := all.find? fun s => s.word = text

def debugName : Status → String
  | stopped => "Stopped"
  | starting => "Starting"
  | started => "Started"
  | stopping => "Stopping"
  | removed => "Removed"
  | upgrading => "Upgrading"
  | restarting => "Restarting"

theorem ofWord?_word (s : Status) : ofWord? s.word = some s := by
  cases s <;> decide

end Status

end Rollout
