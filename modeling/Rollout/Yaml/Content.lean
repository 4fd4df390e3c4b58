import Rollout.Yaml.Node
/-!
What the nodes of a document mean where nothing says what they should be.  A plain scalar may be null, a truth value or
a number; every other scalar is a text.  A tag can ask for one of these, and then the scalar has to be written as one; a
tag of the document's own makes a node unreadable, and so does an integer that fits in 128 bits but not in 64.

An integer may be written in decimal digits or, behind `0x`, `0o` or `0b`, in others.  Decimal digits with a needless
zero in front make no number, and are a text.  A decimal number with a point or an exponent is one only if a double can
hold it; its value is not kept, since nothing here asks for it.

Aliases are followed.  Each one that is followed uses up a part of a budget in proportion to the size of the document,
and collections may be nested to a fixed depth, so a small document cannot unfold without end.  The budget is the state
in which a document is read, and a reader may also fail (`ContentM`).
-/
namespace Rollout.Yaml

inductive Content where
  | null
  | bool
  /-- An integer that is not written with a minus and fits in 64 bits. -/
  | unsigned (n : Nat)
  /-- Any other number. -/
  | number
  | text (s : String)
  | sequence
  | mapping (entries : List (Content × Content))

/-! ## Plain scalars -/

def isNull (text : String) : Bool := text ∈ ["null", "Null", "NULL", "~"]

def isBool (text : String) : Bool := text ∈ ["true", "True", "TRUE", "false", "False", "FALSE"]

def isSign (c : Char) : Bool := c = '+' || c = '-'

def startsWithSign (cs : List Char) : Bool := (cs.head?.map isSign).getD false

def digits? (radix : Nat) (cs : List Char) : Option Nat :=
  if cs.isEmpty then none
  else cs.foldlM (fun n c => ((hexDigit? c).filter (· < radix)).map fun d => radix * n + d) 0

def isZeroPadded (cs : List Char) : Bool :=
  let digits := if startsWithSign cs then cs.drop 1 else cs
  1 < digits.length && digits.head? = some '0' && digits.all Char.isDigit

def magnitude? : List Char → Option Nat
  | '0' :: 'x' :: rest => digits? 16 rest
  | '0' :: 'o' :: rest => digits? 8 rest
  | '0' :: 'b' :: rest => digits? 2 rest
  | cs => if isZeroPadded cs then none else digits? 10 cs

inductive Integer where
  | unsigned (n : Nat)
  | negative
  | tooLarge

def integer? (cs : List Char) : Option Integer :=
  match cs with
  | '-' :: rest =>
    (magnitude? rest).bind fun n =>
      if n ≤ Nat.pow 2 63 then some .negative else if n ≤ Nat.pow 2 127 then some .tooLarge else none
  | _ =>
    (magnitude? (if cs.head? = some '+' then cs.drop 1 else cs)).bind fun n =>
      if n < Nat.pow 2 64 then some (.unsigned n) else if n < Nat.pow 2 128 then some .tooLarge else none

/-- Whether `n · 10 ^ e` rounds to a number below the largest power of two that a double can hold. -/
def isFiniteDouble (n : Nat) (e : Int) : Bool :=
  let width := (Nat.toDigits 10 n).length
  if n = 0 || (width : Int) + e < 309 then true
  else if 310 < (width : Int) + e then false
  else n * Nat.pow 10 e.toNat < (Nat.pow 2 1024 - Nat.pow 2 970) * Nat.pow 10 (-e).toNat

def exponent? : List Char → Option Int
  | [] => some 0
  | c :: rest =>
    if c = 'e' || c = 'E' then
      match rest with
      | '-' :: digits => (digits? 10 digits).map fun n => -(n : Int)
      | '+' :: digits => (digits? 10 digits).map fun n => (n : Int)
      | digits => (digits? 10 digits).map fun n => (n : Int)
    else none

def isDecimal (cs : List Char) : Bool :=
  let (whole, rest) := (cs.takeWhile Char.isDigit, cs.dropWhile Char.isDigit)
  let (part, rest) := if rest.head? = some '.' then
    ((rest.drop 1).takeWhile Char.isDigit, (rest.drop 1).dropWhile Char.isDigit) else ([], rest)
  match digits? 10 (whole ++ part), exponent? rest with
  | some n, some e => isFiniteDouble n (e - part.length)
  | _, _ => false

def isFloat (cs : List Char) : Bool :=
  match cs with
  | '+' :: rest => !startsWithSign rest && (String.ofList rest ∈ [".inf", ".Inf", ".INF"] || isDecimal rest)
  | '-' :: rest => String.ofList rest ∈ [".inf", ".Inf", ".INF"] || isDecimal rest
  | _ => String.ofList cs ∈ [".inf", ".Inf", ".INF", ".nan", ".NaN", ".NAN"] || isDecimal cs

namespace Content

def ofInteger : Integer → Option Content
  | .unsigned n => some (.unsigned n)
  | .negative => some .number
  | .tooLarge => none

def ofPlain (text : String) : Option Content :=
  let cs := text.toList
  if text.isEmpty || isNull text then some .null
  else if isBool text then some .bool
  else match integer? cs with
    | some i => ofInteger i
    | none => some (if !isZeroPadded cs && isFloat cs then .number else .text text)

def coreTag (name : String) : String := "tag:yaml.org,2002:" ++ name

def isLocalTag (tag : Option String) : Bool := tag.any fun t => t.toList.head? = some '!'

def ofScalar (tag : Option String) (isPlain : Bool) (text : String) : Option Content :=
  match tag with
  | none => if isPlain then ofPlain text else some (.text text)
  | some t =>
    if isLocalTag tag then none
    else if t = coreTag "bool" then if isBool text then some .bool else none
    else if t = coreTag "int" then (integer? text.toList).bind ofInteger
    else if t = coreTag "float" then if isFloat text.toList then some .number else none
    else if t = coreTag "null" then if isNull text then some .null else none
    else some (.text text)

end Content

/-! ## Following aliases -/

/-- Reads a document; the state is how many aliases may still be followed. -/
abbrev ContentM := ReaderT Document (StateT Nat Option)

namespace ContentM

/-- The node itself, or the one that an alias stands for. -/
def follow : Node → ContentM Node
  | .alias n => do
    match ← getThe Nat, (← read).anchor? n with
    | left + 1, some node =>
      set left
      return node
    | _, _ => failure
  | node => return node

/-- The content of a node, with collections nested no deeper than `depth`. -/
def content (depth : Nat) (node : Node) : ContentM Content := do
  match ← follow node with
  | .scalar tag isPlain text =>
    match Content.ofScalar tag isPlain text with
    | some c => return c
    | none => failure
  | .sequence tag items =>
    if Content.isLocalTag tag then failure
    match depth with
    | 0 => failure
    | depth + 1 =>
      for item in items do
        let _ ← content depth item
      return .sequence
  | .mapping tag entries =>
    if Content.isLocalTag tag then failure
    match depth with
    | 0 => failure
    | depth + 1 =>
      return .mapping (← entries.mapM fun e => do return (← content depth e.1, ← content depth e.2))
  | .alias _ => failure

def budget (d : Document) : Nat := 100 * d.size

def run (d : Document) (x : ContentM α) : Option α := ((ReaderT.run x d).run (budget d)).map Prod.fst

end ContentM

end Rollout.Yaml
