import Rollout.Yaml.Token
/-!
YAML documents as trees.  A document is its root node together with the nodes that its anchors name; an alias is a leaf
that holds the number of an anchor, so a node may contain an alias of itself and the tree stays finite.

An anchor is numbered by how many names are bound before it.  Binding a name again binds no further name, so a later
anchor can come to the same number; it then takes over the number.

The reader goes through the tokens with the names and tag handles that are bound so far and the nodes of the anchors
(`Reader`).  Before a node there may be an anchor and a tag, in either order, and a node may be missing altogether,
which makes it an empty plain scalar.  A value is absent without a colon, or when the next entry comes at once.  Inside
square brackets a key makes a mapping of one entry, and inside curly ones a node without a colon is a key without a
value.

A document may have directives in front of it: one version at most, and handles, each bound once.  A text without a
document has nothing inside, and a text with several has no result, just like one that is malformed.
-/
namespace Rollout.Yaml

inductive Node where
  | scalar (tag : Option String) (isPlain : Bool) (text : String)
  | sequence (tag : Option String) (items : List Node)
  | mapping (tag : Option String) (entries : List (Node × Node))
  | alias (anchor : Nat)

def Node.absent (tag : Option String) : Node := .scalar tag true ""

structure Document where
  root : Node
  /-- The anchored nodes by number; of two with one number the first counts. -/
  anchors : List (Nat × Node)
  /-- The number of nodes, with collections counted twice: where they begin and where they end. -/
  size : Nat

def Document.anchor? (d : Document) (n : Nat) : Option Node := d.anchors.lookup n

/-! ## Trees from tokens -/

/-- Where the reader of a document stands. -/
structure Reader where
  tokens : List Token
  /-- What tag handles stand for. -/
  handles : List (String × String)
  /-- The names bound now, with the numbers of their anchors. -/
  names : List (String × Nat)
  /-- The number of each anchor met and its place among them, newest first. -/
  met : List (Nat × Nat)
  /-- The anchored nodes read so far, by the places of their anchors. -/
  nodes : List (Nat × Node)
  size : Nat

abbrev ReadM := StateT Reader Option

namespace ReadM

def peek : ReadM Token := do return ((← get).tokens.head?).getD .streamEnd

def drop : ReadM Unit := modify fun r => { r with tokens := r.tokens.drop 1 }

def nextIn (tokens : List Token) : ReadM Bool := do return (← peek) ∈ tokens

def count (n : Nat) : ReadM Unit := modify fun r => { r with size := r.size + n }

/-- Binds the name of an anchor, and gives back the place of the anchor among all. -/
def meet (name : String) : ReadM Nat := do
  let r ← get
  let number := r.names.length
  let place := r.met.length
  set { r with
    names := (name, number) :: r.names.filter (fun e => e.1 ≠ name), met := (number, place) :: r.met }
  return place

def keep (place : Option Nat) (node : Node) : ReadM Node := do
  if let some p := place then modify fun r => { r with nodes := (p, node) :: r.nodes }
  return node

def resolve (handle suffix : String) : ReadM String := do
  if handle.isEmpty then return suffix
  match (← get).handles.lookup handle with
  | some lead => return lead ++ suffix
  | none => failure

def properties : ReadM (Option Nat × Option String) := do
  match ← peek with
  | .anchor name =>
    drop
    let place ← meet name
    match ← peek with
    | .tag handle suffix =>
      drop
      return (some place, some (← resolve handle suffix))
    | _ => return (some place, none)
  | .tag handle suffix =>
    drop
    let tag ← resolve handle suffix
    match ← peek with
    | .anchor name =>
      drop
      return (some (← meet name), some tag)
    | _ => return (none, some tag)
  | _ => return (none, none)

def absent (tag : Option String) : ReadM Node := do
  count 1
  return .absent tag

def aliasOf (name : String) : ReadM Node := do
  drop
  count 1
  match (← get).names.lookup name with
  | some number => return .alias number
  | none => failure

mutual

/-- A node.  Block collections stand in blocks only, and a list without columns of its own only as a key or value of a
block mapping.  `fuel` bounds the calls that follow: two of them take a token at least. -/
def node : (fuel : Nat) → (inBlock bareList : Bool) → ReadM Node
  | 0, _, _ => failure
  | fuel + 1, inBlock, bareList => do
    match ← peek with
    | .alias name => aliasOf name
    | _ =>
      let (place, tag) ← properties
      match ← peek with
      | .scalar isPlain text =>
        drop
        count 1
        keep place (.scalar (if tag = some "!" then none else tag) isPlain text)
      | .flowSequenceStart =>
        drop
        count 2
        keep place (.sequence tag (← flowItems fuel true))
      | .flowMappingStart =>
        drop
        count 2
        keep place (.mapping tag (← flowEntries fuel true))
      | t =>
        if t = .blockEntry && bareList then
          count 2
          keep place (.sequence tag (← bareItems fuel))
        else if t = .blockSequenceStart && inBlock then
          drop
          count 2
          keep place (.sequence tag (← blockItems fuel))
        else if t = .blockMappingStart && inBlock then
          drop
          count 2
          keep place (.mapping tag (← blockEntries fuel))
        else if place.isSome || tag.isSome then keep place (← absent tag)
        else failure

def blockItems : (fuel : Nat) → ReadM (List Node)
  | 0 => failure
  | fuel + 1 => do
    match ← peek with
    | .blockEntry =>
      drop
      let item ← if ← nextIn [.blockEntry, .blockEnd] then absent none else node fuel true false
      return item :: (← blockItems fuel)
    | .blockEnd =>
      drop
      return []
    | _ => failure

def bareItems : (fuel : Nat) → ReadM (List Node)
  | 0 => failure
  | fuel + 1 => do
    match ← peek with
    | .blockEntry =>
      drop
      let item ← if ← nextIn [.blockEntry, .key, .value, .blockEnd] then absent none else node fuel true false
      return item :: (← bareItems fuel)
    | _ => return []

def blockEntries : (fuel : Nat) → ReadM (List (Node × Node))
  | 0 => failure
  | fuel + 1 => do
    match ← peek with
    | .key =>
      drop
      let key ← if ← nextIn [.key, .value, .blockEnd] then absent none else node fuel true true
      let value ← value fuel true [.key, .value, .blockEnd]
      return (key, value) :: (← blockEntries fuel)
    | .blockEnd =>
      drop
      return []
    | _ => failure

/-- The value of a key, absent without a colon or when one of `ends` comes next. -/
def value : (fuel : Nat) → (inBlock : Bool) → (ends : List Token) → ReadM Node
  | 0, _, _ => failure
  | fuel + 1, inBlock, ends => do
    if (← peek) = .value then
      drop
      if ← nextIn ends then absent none else node fuel inBlock inBlock
    else absent none

def flowItems : (fuel : Nat) → (first : Bool) → ReadM (List Node)
  | 0, _ => failure
  | fuel + 1, first => do
    if !first && (← peek) ≠ .flowSequenceEnd then
      if (← peek) = .flowEntry then drop else failure
    match ← peek with
    | .flowSequenceEnd =>
      drop
      return []
    | .key =>
      drop
      count 2
      let key ←
        if ← nextIn [.value, .flowEntry, .flowSequenceEnd] then do
          drop
          absent none
        else node fuel false false
      let value ← value fuel false [.flowEntry, .flowSequenceEnd]
      return .mapping none [(key, value)] :: (← flowItems fuel false)
    | _ =>
      let item ← node fuel false false
      return item :: (← flowItems fuel false)

def flowEntries : (fuel : Nat) → (first : Bool) → ReadM (List (Node × Node))
  | 0, _ => failure
  | fuel + 1, first => do
    if !first && (← peek) ≠ .flowMappingEnd then
      if (← peek) = .flowEntry then drop else failure
    match ← peek with
    | .flowMappingEnd =>
      drop
      return []
    | .key =>
      drop
      let key ← if ← nextIn [.value, .flowEntry, .flowMappingEnd] then absent none else node fuel false false
      let value ← value fuel false [.flowEntry, .flowMappingEnd]
      return (key, value) :: (← flowEntries fuel false)
    | _ =>
      let key ← node fuel false false
      let value ← absent none
      return (key, value) :: (← flowEntries fuel false)

end

end ReadM

/-! ## Documents -/

def builtinHandles : List (String × String) := [("!", "!"), ("!!", "tag:yaml.org,2002:")]

def directives (hasVersion : Bool) (handles : List (String × String)) :
    List Token → Option (List (String × String) × List Token)
  | .versionDirective major minor :: rest =>
    if hasVersion || major ≠ 1 || (minor ≠ 1 && minor ≠ 2) then none else directives true handles rest
  | .tagDirective handle lead :: rest =>
    if (handles.lookup handle).isSome then none else directives hasVersion (handles ++ [(handle, lead)]) rest
  | rest => some (handles ++ builtinHandles, rest)

def Token.isFrame : Token → Bool
  | versionDirective _ _ => true
  | tagDirective _ _ => true
  | documentStart => true
  | documentEnd => true
  | streamEnd => true
  | _ => false

namespace Document

/-- The document of some tokens with the given handles, and the tokens behind it. -/
def read (handles : List (String × String)) (tokens : List Token) (root : ReadM Node) :
    Option (Document × List Token) := do
  let (root, r) ← root.run ⟨tokens, handles, [], [], [], 0⟩
  let anchors := r.met.filterMap fun (number, place) => (r.nodes.lookup place).map fun n => (number, n)
  return (⟨root, anchors, r.size⟩, r.tokens)

def ofTokens? (tokens : List Token) : Option (Option Document) :=
  let root := ReadM.node (2 * tokens.length + 2) true false
  match tokens with
  | [] => some none
  | .streamEnd :: _ => some none
  | first :: _ => do
    let (document, rest) ←
      if first.isFrame && first ≠ .documentEnd then do
        let (handles, rest) ← directives false [] tokens
        match rest with
        | .documentStart :: rest =>
          read handles rest (if (rest.head?.map Token.isFrame).getD true then ReadM.absent none else root)
        | _ => none
      else read builtinHandles tokens root
    match rest.dropWhile (· = .documentEnd) with
    | [.streamEnd] => return some document
    | _ => none

def parse? (text : String) : Option (Option Document) := do ofTokens? (← tokens? text)

end Document

end Rollout.Yaml
