import Rollout.Yaml.Tag
/-!
The tokens of a YAML text.  Outside brackets the columns of the text open and close collections, so the reader keeps the
columns of the collections it is in; and a mapping key is known as one only at its colon, so it also keeps where the key
that is possible here began, and puts the tokens for it there when the colon comes.

A key and its colon have to stand on the same line and not too far from each other.  A key that has to be there, because
it stands at the column of its mapping, and does not get its colon makes the text malformed.  Inside brackets columns
have no meaning, and the possible keys are kept bracket by bracket.

Between tokens the reader skips blanks, comments and line breaks.  A tab counts as a blank only where no indentation can
stand.  The end of the text, a mark of the document and a directive stand outside of everything, so they close all
collections that are open.  Every token takes a letter at least, which bounds the number of tokens of a text.
-/
namespace Rollout.Yaml

inductive Token where
  | versionDirective (major minor : Nat)
  | tagDirective (handle lead : String)
  | documentStart
  | documentEnd
  | blockSequenceStart
  | blockMappingStart
  | blockEnd
  | flowSequenceStart
  | flowSequenceEnd
  | flowMappingStart
  | flowMappingEnd
  | blockEntry
  | flowEntry
  | key
  | value
  | alias (name : String)
  | anchor (name : String)
  | tag (handle suffix : String)
  | scalar (isPlain : Bool) (text : String)
  | streamEnd
deriving DecidableEq, Repr

/-- A place where a key may have begun. -/
structure KeyPlace where
  /-- The number of tokens before it. -/
  number : Nat
  /-- Whether nothing but a key may begin here. -/
  required : Bool
  start : Letter
deriving DecidableEq, Repr

structure Lexer where
  letters : List Letter
  /-- Newest first. -/
  tokens : List Token
  /-- The number of tokens. -/
  count : Nat
  /-- The columns of the block collections around, innermost first. -/
  columns : List Nat
  /-- The possible key of each bracket around and of the text outside them, innermost first. -/
  keys : List (Option KeyPlace)
  /-- Whether a key may begin here. -/
  keyAllowed : Bool
deriving Repr

namespace Lexer

def start (letters : List Letter) : Lexer := ⟨letters, [], 0, [], [none], true⟩

def inFlow (s : Lexer) : Bool := 1 < s.keys.length

def inner (s : Lexer) : Nat := (s.columns.head?.map (· + 1)).getD 0

def emit (s : Lexer) (t : Token) : Lexer := { s with tokens := t :: s.tokens, count := s.count + 1 }

def insertAt (s : Lexer) (number : Nat) (t : Token) : Lexer :=
  let later := s.count - number
  { s with tokens := s.tokens.take later ++ t :: s.tokens.drop later, count := s.count + 1 }

def goto (s : Lexer) (letters : List Letter) : Lexer := { s with letters := letters }

def allowKey (s : Lexer) (allowed : Bool) : Lexer := { s with keyAllowed := allowed }

/-! ## Block collections -/

def closeBlocks (column : Nat) (columns : List Nat) (s : Lexer) : Lexer :=
  match columns with
  | [] => { s with columns := [] }
  | c :: rest => if column < c then closeBlocks column rest (s.emit .blockEnd) else { s with columns := c :: rest }

def unroll (s : Lexer) (column : Nat) : Lexer := if s.inFlow then s else closeBlocks column s.columns s

def unrollAll (s : Lexer) : Lexer :=
  if s.inFlow then s else { s.columns.foldl (fun s _ => s.emit .blockEnd) s with columns := [] }

/-- Opens a block collection at a column, unless there is one already. -/
def roll (s : Lexer) (column : Nat) (number : Nat) (t : Token) : Lexer :=
  if s.inFlow || column < s.inner then s
  else { s.insertAt number t with columns := column :: s.columns }

/-! ## Possible keys -/

def setKey (s : Lexer) (k : Option KeyPlace) : Lexer := { s with keys := k :: s.keys.drop 1 }

def dropKey (s : Lexer) : Option Lexer :=
  match s.keys.head?.join with
  | some k => if k.required then none else some (s.setKey none)
  | none => some s

/-- Keeps in mind that a key may begin at this letter. -/
def saveKey (s : Lexer) (l : Letter) : Option Lexer :=
  if s.keyAllowed then
    let required := !s.inFlow && s.columns.head? = some l.column
    s.dropKey.map fun s => s.setKey (some ⟨s.count, required, l⟩)
  else some s

def KeyPlace.reaches (k : KeyPlace) (l : Letter) : Bool :=
  k.start.line = l.line && l.index ≤ k.start.index + 1024

/-! ## Between tokens -/

def skipGap (inFlow keyAllowed inComment : Bool) : List Letter → Bool × List Letter
  | [] => (keyAllowed, [])
  | l :: rest =>
    if isBreak l.char then skipGap inFlow (keyAllowed || !inFlow) false rest
    else if isEnd l.char then (keyAllowed, l :: rest)
    else if inComment then skipGap inFlow keyAllowed true rest
    else if l.char = ' ' || (l.char = '\t' && (inFlow || !keyAllowed)) then skipGap inFlow keyAllowed false rest
    else if l.char = '#' then skipGap inFlow keyAllowed true rest
    else (keyAllowed, l :: rest)

/-! ## Directives -/

def versionNumber (letters : List Letter) : Option (Nat × List Letter) :=
  let (digits, rest) := span Char.isDigit letters
  if digits.isEmpty || 9 < digits.length then none
  else some (digits.foldl (fun n c => 10 * n + (c.toNat - '0'.toNat)) 0, rest)

def versionDirective (letters : List Letter) : Option (Token × List Letter) := do
  let (major, rest) ← versionNumber (skip isBlank letters)
  if peek rest ≠ '.' then none
  let (minor, rest) ← versionNumber (rest.drop 1)
  return (.versionDirective major minor, rest)

def tagDirective (letters : List Letter) : Option (Token × List Letter) := do
  let (handle, rest) ← tagHandle (skip isBlank letters)
  if handle ≠ ['!'] && (handle.length < 2 || handle.getLast? ≠ some '!') then none
  if !isBlank (peek rest) then none
  let (lead, rest) ← tagText true (skip isBlank rest)
  if lead.isEmpty || !isBlankOrEnd (peek rest) then none
  return (.tagDirective (String.ofList handle) (String.ofList lead), rest)

def directive (letters : List Letter) : Option (Token × List Letter) := do
  let (name, rest) := span isWord letters
  if !isBlankOrEnd (peek rest) then none
  let (t, rest) ← match String.ofList name with
    | "YAML" => versionDirective rest
    | "TAG" => tagDirective rest
    | _ => none
  return (t, ← endOfHeader rest)

/-! ## One token -/

def anchorName (letters : List Letter) : Option (String × List Letter) :=
  let (name, rest) := span isWord letters
  let c := peek rest
  if name.isEmpty || !(isBlankOrEnd c || c ∈ ['?', ':', ',', ']', '}', '%', '@', '\x60']) then none
  else some (String.ofList name, rest)

def outermost (s : Lexer) : Option Lexer := do
  return (← s.unrollAll.dropKey).allowKey false

def openFlow (s : Lexer) (l : Letter) (rest : List Letter) (t : Token) : Option Lexer := do
  let s ← s.saveKey l
  return { s with keys := none :: s.keys, keyAllowed := true, letters := rest }.emit t

def closeFlow (s : Lexer) (rest : List Letter) (t : Token) : Option Lexer := do
  let s ← s.dropKey
  let keys := if s.inFlow then s.keys.drop 1 else s.keys
  return { s with keys := keys, keyAllowed := false, letters := rest }.emit t

def enterBlock (s : Lexer) (column : Nat) (t : Token) : Option Lexer :=
  if s.inFlow then some s
  else if s.keyAllowed then some (s.roll column s.count t)
  else none

def blockEntry (s : Lexer) (l : Letter) (rest : List Letter) : Option Lexer := do
  let s ← s.enterBlock l.column .blockSequenceStart
  let s ← s.dropKey
  return ((s.allowKey true).goto rest).emit .blockEntry

def explicitKey (s : Lexer) (l : Letter) (rest : List Letter) : Option Lexer := do
  let s ← s.enterBlock l.column .blockMappingStart
  let s ← s.dropKey
  return ((s.allowKey (!s.inFlow)).goto rest).emit .key

/-- A colon: the possible key before it is one, or else the key is empty or was marked as one. -/
def mapValue (s : Lexer) (l : Letter) (rest : List Letter) : Option Lexer :=
  match (s.keys.head?.join).filter fun k => KeyPlace.reaches k l with
  | some k =>
    let s := (s.insertAt k.number .key).roll k.start.column k.number .blockMappingStart
    some ((((s.setKey none).allowKey false).goto rest).emit .value)
  | none => do
    if ((s.keys.head?.join).map KeyPlace.required).getD false then none
    let s ← s.enterBlock l.column .blockMappingStart
    return ((s.allowKey (!s.inFlow)).goto rest).emit .value

/-- A token that may begin a key: what `read` makes of the letters. -/
def content (s : Lexer) (l : Letter) (read : Option (Token × List Letter)) : Option Lexer := do
  let s ← s.saveKey l
  let (t, rest) ← read
  return ((s.allowKey false).goto rest).emit t

def plainScalar (s : Lexer) (l : Letter) : Option Lexer := do
  let s ← s.saveKey l
  let (text, overBreak, rest) ← plain s.inFlow s.inner .none [] s.letters
  return ((s.allowKey overBreak).goto rest).emit (.scalar true text)

def blockScalar (s : Lexer) (style : BlockStyle) (rest : List Letter) : Option Lexer := do
  let s ← s.dropKey
  let (text, rest) ← block style s.inner rest
  return ((s.allowKey true).goto rest).emit (.scalar false text)

def startsPlain (inFlow : Bool) (c next : Char) : Bool :=
  !(isBlankOrEnd c || c ∈ ['-', '?', ':', ',', '[', ']', '{', '}', '#', '&', '*', '!', '|', '>', '\'', '"', '%', '@', '\x60'])
    || (c = '-' && !isBlank next) || (!inFlow && (c = '?' || c = ':') && !isBlankOrEnd next)

/-- Reads the next token, with those that the columns ask for before it. -/
def next (s : Lexer) : Option Lexer :=
  let (keyAllowed, letters) := skipGap s.inFlow s.keyAllowed false s.letters
  let s := ({ s with letters := letters, keyAllowed := keyAllowed }).unroll (column letters)
  match letters with
  | [] => none
  | l :: rest =>
    let c := l.char
    let after := peek rest
    if isEnd c then do return { (← s.outermost) with letters := [] }.emit .streamEnd
    else if l.column = 0 && c = '%' then do
      let s ← s.outermost
      let (t, rest) ← directive rest
      return (s.goto rest).emit t
    else if isMark '-' letters then do return ((← s.outermost).goto (rest.drop 2)).emit .documentStart
    else if isMark '.' letters then do return ((← s.outermost).goto (rest.drop 2)).emit .documentEnd
    else if c = '[' then s.openFlow l rest .flowSequenceStart
    else if c = '{' then s.openFlow l rest .flowMappingStart
    else if c = ']' then s.closeFlow rest .flowSequenceEnd
    else if c = '}' then s.closeFlow rest .flowMappingEnd
    else if c = ',' then do return (((← s.dropKey).allowKey true).goto rest).emit .flowEntry
    else if c = '-' && isBlankOrEnd after then s.blockEntry l rest
    else if c = '?' && (s.inFlow || isBlankOrEnd after) then s.explicitKey l rest
    else if c = ':' && (s.inFlow || isBlankOrEnd after) then s.mapValue l rest
    else if c = '*' then s.content l ((anchorName rest).map fun (name, rest) => (.alias name, rest))
    else if c = '&' then s.content l ((anchorName rest).map fun (name, rest) => (.anchor name, rest))
    else if c = '!' then
      s.content l ((Yaml.tag s.inFlow letters).map fun (handle, suffix, rest) => (.tag handle suffix, rest))
    else if c = '|' && !s.inFlow then s.blockScalar .literal rest
    else if c = '>' && !s.inFlow then s.blockScalar .folded rest
    else if c = '\'' then
      s.content l ((quoted .single .letters .none [] rest).map fun (text, rest) => (.scalar false text, rest))
    else if c = '"' then
      s.content l ((quoted .double .letters .none [] rest).map fun (text, rest) => (.scalar false text, rest))
    else if startsPlain s.inFlow c after then s.plainScalar l
    else none

/-- Reads tokens to the end of the text.  Every token takes a letter at least, which bounds their number. -/
def run : (fuel : Nat) → Lexer → Option Lexer
  | 0, _ => none
  | fuel + 1, s => if s.letters.isEmpty then some s else s.next.bind (run fuel)

end Lexer

def tokens? (text : String) : Option (List Token) := do
  let letters ← letters? text.toList
  let s ← (Lexer.start letters).run (letters.length + 1)
  return s.tokens.reverse

end Rollout.Yaml
