import Rollout.Graph
/-!
What a configuration declares: services by name, each with what it runs, what it depends on and the profiles it belongs
to.  A dependency may be written as a plain name or with the condition it has to meet; both mean the same to the graph.
A plain name asks for a start and no more, which is also the condition of a structured dependency that names none.

A service without profiles is always active, any other one if it shares a profile with the active ones.
`Config.withProfiles` keeps the active services and changes nothing in them; in particular a dependency on a service
that is not active stays, and becomes one on an unknown service when the graph is built.
-/
namespace Rollout

inductive Condition where
  | started
  | healthy
  | completedSuccessfully
deriving DecidableEq, Repr

namespace Condition

def all : List Condition := [started, healthy, completedSuccessfully]

def word : Condition → String
  | started => "service_started"
  | healthy => "service_healthy"
  | completedSuccessfully => "service_completed_successfully"

def ofWord? (text : String) : Option Condition := all.find? fun c => c.word = text

theorem ofWord?_word (c : Condition) : ofWord? c.word = some c := by
  cases c <;> decide

end Condition

inductive Dependency where
  | plain (service : String)
  | structured (service : String) (condition : Condition)
deriving DecidableEq, Repr

namespace Dependency

def service : Dependency → String
  | plain service => service
  | structured service _ => service

/-- A plain name asks for a start and no more. -/
def condition : Dependency → Condition
  | plain _ => .started
  | structured _ condition => condition

end Dependency

structure Service where
  process : Option String
  image : Option String
  environment : Table String
  dependsOn : List Dependency
  profiles : List String
deriving DecidableEq, Repr

namespace Service

def blank : Service := ⟨none, none, .empty, [], []⟩

def dependencies (s : Service) : List String := s.dependsOn.map Dependency.service

def isActive (s : Service) (active : List String) : Bool :=
  s.profiles.isEmpty || s.profiles.any (· ∈ active)

end Service

structure Config where
  services : Table Service
deriving DecidableEq, Repr

namespace Config

def empty : Config := ⟨.empty⟩

/-- The configuration of the active services alone.  What they depend on is not pulled in. -/
def withProfiles (c : Config) (active : List String) : Config :=
  ⟨c.services.filter fun _ s => s.isActive active⟩

def graph (c : Config) : Except Failure Graph :=
  Graph.build (c.services.entries.map fun e => (e.1, e.2.dependencies))

end Config

end Rollout
