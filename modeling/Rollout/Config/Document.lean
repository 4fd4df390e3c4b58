import Rollout.Config
import Rollout.Yaml.Content
/-!
Configurations as documents, both ways.  `Config.toNode` writes what is set and leaves out what has its default;
`Config.ofDocument?` reads it back, and also what people write by hand: unknown keys are skipped, a key without a value
counts as empty, and any scalar will do for a text.  Only in the list of dependencies, where a name and a mapping are
told apart by what they are, a scalar has to be a text to be a name.

The readers follow the order of the document, since the first thing that does not fit decides that there is no
configuration.  A mapping with free keys, such as the services or an environment, keeps the last binding of a key.  A
mapping with known keys takes each of them once: a service is read entry by entry into a `Draft` that remembers the keys
it has had, and a structured dependency is read in two passes, because its form is not known before it has been read as
a whole.  Its condition is given by name, alone or as a mapping from the name to null.

How deep collections may be nested is counted from the root, so it depends on where a value stands (`nesting`).  A text
that is only white space, or a document without content, is an empty configuration.
-/
namespace Rollout

open Yaml (Node Content ContentM)

namespace Config

/-! ## Writing -/

def textNode (s : String) : Node := .scalar none false s

def field (key : String) (value : Node) : Node × Node := (textNode key, value)

def dependencyNode : Dependency → Node
  | .plain service => textNode service
  | .structured service condition =>
    .mapping none (field "service" (textNode service) ::
      if condition = .started then [] else [field "condition" (textNode condition.word)])

def tableNode (value : α → Node) (t : Table α) : Node :=
  .mapping none (t.entries.map fun e => field e.1 (value e.2))

def serviceFields (s : Service) (environment : Node) : List (Node × Node) :=
  (s.process.map fun t => field "process" (textNode t)).toList ++
    (s.image.map fun t => field "image" (textNode t)).toList ++
    (if s.environment.entries.isEmpty then [] else [field "environment" environment]) ++
    (if s.dependsOn.isEmpty then [] else [field "depends_on" (.sequence none (s.dependsOn.map dependencyNode))]) ++
    (if s.profiles.isEmpty then [] else [field "profiles" (.sequence none (s.profiles.map textNode))])

def serviceNode (s : Service) : Node := .mapping none (serviceFields s (tableNode textNode s.environment))

def toNode (c : Config) : Node := .mapping none [field "services" (tableNode serviceNode c.services)]

/-! ## Reading what has a known form -/

open Yaml.ContentM (follow content)

def readText (node : Node) : ContentM String := do
  match ← follow node with
  | .scalar _ _ text => return text
  | _ => failure

/-- The text of a key that may be unset.  It is unset by an absent value or an unquoted null; a tag makes it a text,
unless it is the tag of null, which then has to stand on one. -/
def readOptionalText (node : Node) : ContentM (Option String) := do
  match ← follow node with
  | .scalar tag isPlain text =>
    if !isPlain then return some text
    match tag with
    | none => return if text.isEmpty || Yaml.isNull text then none else some text
    | some t =>
      if t = Content.coreTag "null" then
        if Yaml.isNull text then return none else failure
      else return some text
  | _ => failure

def readEntries (node : Node) : ContentM (List (Node × Node)) := do
  match ← follow node with
  | .mapping _ entries => return entries
  | .scalar _ isPlain text => if isPlain && text.isEmpty then return [] else failure
  | _ => failure

def readItems (node : Node) : ContentM (List Node) := do
  match ← follow node with
  | .sequence _ items => return items
  | .scalar _ isPlain text => if isPlain && text.isEmpty then return [] else failure
  | _ => failure

def readTable (value : Node → ContentM α) (node : Node) : ContentM (Table α) := do
  let bindings ← (← readEntries node).mapM fun e => do return (← readText e.1, ← value e.2)
  return Table.ofList bindings

/-! ## Reading dependencies -/

inductive DependencyKey where
  | service
  | condition
  | other
deriving DecidableEq, Repr

def dependencyKey? : Content → Option DependencyKey
  | .text "service" => some .service
  | .text "condition" => some .condition
  | .text _ => some .other
  | .unsigned 0 => some .service
  | .unsigned 1 => some .condition
  | .unsigned _ => some .other
  | _ => none

def conditionName? : Content → Option Condition
  | .text word => Condition.ofWord? word
  | .unsigned n => Condition.all[n]?
  | _ => none

def condition? : Content → Option Condition
  | .text word => Condition.ofWord? word
  | .mapping [(name, .null)] => conditionName? name
  | _ => none

def structured? (service : Option String) (condition : Option Condition) :
    List (Content × Content) → Option Dependency
  | [] => service.map fun s => .structured s (condition.getD .started)
  | (key, value) :: rest => do
    match ← dependencyKey? key with
    | .other => structured? service condition rest
    | .service =>
      match service, value with
      | none, .text s => structured? (some s) condition rest
      | _, _ => none
    | .condition =>
      if condition.isSome then none
      else structured? service (some (← condition? value)) rest

def dependency? : Content → Option Dependency
  | .text service => some (.plain service)
  | .mapping entries => structured? none none entries
  | _ => none

/-- How deep collections may be nested, and how many of them are around a dependency: the configuration, the services,
the service and its list. -/
def nesting : Nat := 128

def nestingOfDependencies : Nat := 4

def readDependency (node : Node) : ContentM Dependency := do
  match dependency? (← content (nesting - nestingOfDependencies) node) with
  | some d => return d
  | none => failure

/-! ## Reading services -/

/-- A service with the keys that were read so far. -/
structure Draft where
  service : Service
  keys : List String

def readField (d : Draft) (entry : Node × Node) : ContentM Draft := do
  let key ← readText entry.1
  if key ∈ d.keys then failure
  let known (s : Service) : Draft := ⟨s, key :: d.keys⟩
  match key with
  | "process" => return known { d.service with process := ← readOptionalText entry.2 }
  | "image" => return known { d.service with image := ← readOptionalText entry.2 }
  | "environment" => return known { d.service with environment := ← readTable readText entry.2 }
  | "depends_on" => return known { d.service with dependsOn := ← (← readItems entry.2).mapM readDependency }
  | "profiles" => return known { d.service with profiles := ← (← readItems entry.2).mapM readText }
  | _ => return d

def readService (node : Node) : ContentM Service := do
  let d ← (← readEntries node).foldlM readField ⟨Service.blank, []⟩
  return d.service

def readRootField (services : Option (Table Service)) (entry : Node × Node) :
    ContentM (Option (Table Service)) := do
  match ← readText entry.1 with
  | "services" => if services.isSome then failure else return some (← readTable readService entry.2)
  | _ => return services

def readRoot (node : Node) : ContentM Config := do
  let services ← (← readEntries node).foldlM readRootField none
  return ⟨services.getD .empty⟩

def ofDocument? (d : Yaml.Document) : Option Config := ContentM.run d (readRoot d.root)

/-! ## Reading a text -/

def isSpace (c : Char) : Bool :=
  let n := c.toNat
  (0x9 ≤ n && n ≤ 0xD) || n = 0x20 || n = 0x85 || n = 0xA0 || n = 0x1680 || (0x2000 ≤ n && n ≤ 0x200A) ||
    n = 0x2028 || n = 0x2029 || n = 0x202F || n = 0x205F || n = 0x3000

def malformed (what : String) : Failure := .parse ("Failed to parse YAML config: " ++ what)

def parse (text : String) : Except Failure Config :=
  if text.toList.all isSpace then .ok .empty
  else match Yaml.Document.parse? text with
    | none => .error (malformed "not a document")
    | some none => .ok .empty
    | some (some d) =>
      match ofDocument? d with
      | some c => .ok c
      | none => .error (malformed "not a configuration")

end Config

end Rollout
