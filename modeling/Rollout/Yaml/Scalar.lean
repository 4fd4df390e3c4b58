import Rollout.Yaml.Folding
/-!
The three kinds of written scalars: plain ones, quoted ones and blocks.  Each reader takes the letters from where the
scalar starts and gives back its text and the letters behind it, or nothing if it is malformed.

A plain scalar goes on over lines as long as they are indented, and ends at a colon that ends a key, at a comment, and
inside brackets at whatever has a meaning there.  A quoted scalar ends at its quote.  Between double quotes a backslash
stands in front of an escape: a letter with a meaning, a line break, or the hexadecimal digits of a code point, two,
four or eight of them; between single quotes only the quote itself needs to be doubled.

A block has a header, with an indentation and with what becomes of the line breaks at its end, in either order.  An
indentation that is not given is found from the first line with text, and the empty lines before it may not be wider.
The lines of a block are kept or folded; two lines that start with a blank are never joined.
-/
namespace Rollout.Yaml

/-! ## Plain scalars -/

/-- Whether a plain scalar ends before this letter: at a colon that ends a key, and inside brackets at whatever has a
meaning there. -/
def endsPlain (inFlow : Bool) (c : Char) (rest : List Letter) : Bool :=
  (c = ':' && isBlankOrEnd (peek rest)) || (inFlow && c ∈ [',', '[', ']', '{', '}'])

/-- A plain scalar, which goes on over lines as long as they are indented by `indent`.  The flag tells whether it was
left over a line break. -/
def plain (inFlow : Bool) (indent : Nat) (gap : Gap) (text : List Char) :
    List Letter → Option (String × Bool × List Letter)
  | [] => some (String.ofList text.reverse, gap.hasLines, [])
  | l :: rest =>
    let stop := some (String.ofList text.reverse, gap.hasLines, l :: rest)
    if isEnd l.char then stop
    else if isBlank l.char || isBreak l.char then
      if gap.hasLines && l.char = '\t' && l.column < indent then none
      else plain inFlow indent (gap.extend l.char) text rest
    else if gap ≠ .none && (l.char = '#' || isDocumentMark (l :: rest) || (!inFlow && l.column < indent)) then stop
    else if inFlow && l.char = ':' && peek rest ∈ [',', '?', '[', ']', '{', '}'] then none
    else if endsPlain inFlow l.char rest then stop
    else plain inFlow indent .none (l.char :: gap.fold.reverse ++ text) rest

/-! ## Quoted scalars -/

def unescape : Char → Option Char
  | '0' => some '\x00'
  | 'a' => some '\x07'
  | 'b' => some '\x08'
  | 't' => some '\t'
  | '\t' => some '\t'
  | 'n' => some '\n'
  | 'v' => some '\x0b'
  | 'f' => some '\x0c'
  | 'r' => some '\r'
  | 'e' => some '\x1b'
  | ' ' => some ' '
  | '"' => some '"'
  | '/' => some '/'
  | '\\' => some '\\'
  | 'N' => some '\u0085'
  | '_' => some '\u00a0'
  | 'L' => some '\u2028'
  | 'P' => some '\u2029'
  | _ => none

def escapeDigits : Char → Option Nat
  | 'x' => some 2
  | 'u' => some 4
  | 'U' => some 8
  | _ => none

def hexDigit? (c : Char) : Option Nat :=
  if c.isDigit then some (c.toNat - '0'.toNat)
  else if 'a' ≤ c && c ≤ 'f' then some (c.toNat - 'a'.toNat + 10)
  else if 'A' ≤ c && c ≤ 'F' then some (c.toNat - 'A'.toNat + 10)
  else none

def charOfCode? (n : Nat) : Option Char := if n.isValidChar then some (Char.ofNat n) else none

inductive Quote where
  | single
  | double
deriving DecidableEq, Repr

/-- Where the reader of a quoted scalar stands: among its letters, behind a backslash, within the digits of an escape,
or before the second of two single quotes that stand for one. -/
inductive Quoting where
  | letters
  | escape
  | digits (left value : Nat)
  | doubled
deriving DecidableEq, Repr

/-- A quoted scalar, from behind its opening quote. -/
def quoted (quote : Quote) (mode : Quoting) (gap : Gap) (text : List Char) :
    List Letter → Option (String × List Letter)
  | [] => none
  | l :: rest =>
    if isEnd l.char then none
    else match mode with
    | .letters =>
      if isBlank l.char || isBreak l.char then quoted quote .letters (gap.extend l.char) text rest
      else if isDocumentMark (l :: rest) then none
      else
        let before := gap.fold.reverse ++ text
        match quote, l.char with
        | .single, '\'' =>
          if peek rest = '\'' then quoted quote .doubled .none before rest
          else some (String.ofList before.reverse, rest)
        | .double, '"' => some (String.ofList before.reverse, rest)
        | .double, '\\' => quoted quote .escape .none before rest
        | _, c => quoted quote .letters .none (c :: before) rest
    | .doubled => quoted quote .letters .none ('\'' :: text) rest
    | .escape =>
      if isBreak l.char then quoted quote .letters (.lines [] []) text rest
      else match escapeDigits l.char with
        | some n => quoted quote (.digits n 0) .none text rest
        | none => (unescape l.char).bind fun c => quoted quote .letters .none (c :: text) rest
    | .digits left value =>
      match hexDigit? l.char with
      | none => none
      | some d =>
        let value := 16 * value + d
        if left ≤ 1 then (charOfCode? value).bind fun c => quoted quote .letters .none (c :: text) rest
        else quoted quote (.digits (left - 1) value) .none text rest

/-! ## Block scalars -/

inductive BlockStyle where
  | literal
  | folded
deriving DecidableEq, Repr

inductive Chomping where
  | strip
  | clip
  | keep
deriving DecidableEq, Repr

def chomping? : Char → Option Chomping
  | '+' => some .keep
  | '-' => some .strip
  | _ => none

def indentation? (c : Char) : Option Nat := if '1' ≤ c && c ≤ '9' then some (c.toNat - '0'.toNat) else none

/-- The indicators behind the first letter of a block, in either order. -/
def blockHeader (letters : List Letter) : Option (Chomping × Option Nat × List Letter) :=
  match letters with
  | [] => none
  | a :: rest =>
    match chomping? a.char with
    | some chomping =>
      if (peek rest).isDigit then (indentation? (peek rest)).map fun n => (chomping, some n, rest.drop 1)
      else some (chomping, none, rest)
    | none =>
      if a.char.isDigit then (indentation? a.char).map fun n =>
        match chomping? (peek rest) with
        | some chomping => (chomping, some n, rest.drop 1)
        | none => (.clip, some n, rest)
      else some (.clip, none, a :: rest)

def endOfHeader (letters : List Letter) : Option (List Letter) :=
  let letters := skip isBlank letters
  let letters := if peek letters = '#' then skip (fun c => !isBreakOrEnd c) letters else letters
  if isBreak (peek letters) then some (letters.drop 1)
  else if isEnd (peek letters) then some letters
  else none

def leadingBreaks (indent : Option Nat) (widest : Nat) (breaks : List Char) :
    List Letter → Option (List Char × Nat × List Letter)
  | [] => some (breaks, widest, [])
  | l :: rest =>
    let outside := indent.all fun n => l.column < n
    if outside && l.char = ' ' then leadingBreaks indent widest breaks rest
    else
      let widest := max widest l.column
      if outside && l.char = '\t' then none
      else if isBreak l.char then leadingBreaks indent widest (breaks ++ [l.char]) rest
      else some (breaks, widest, l :: rest)

/-- A block between two lines: the break of the last line with text, the breaks after it, and whether that line
started with a blank. -/
structure Margin where
  first : List Char
  more : List Char
  blankStart : Bool

namespace Margin

/-- What stands between the last line and a line that starts with `c`.  Folding joins two lines that do not start with
a blank. -/
def join (m : Margin) (style : BlockStyle) (c : Char) : List Char :=
  if style = .folded && m.first = ['\n'] && !m.blankStart && !isBlank c then
    if m.more.isEmpty then [' '] else m.more
  else m.first ++ m.more

def close (m : Margin) : Chomping → List Char
  | .strip => []
  | .clip => m.first
  | .keep => m.first ++ m.more

end Margin

/-- The lines of a block that are indented by `indent`.  `inLine` tells whether the reader stands within a line. -/
def blockLines (style : BlockStyle) (chomping : Chomping) (indent : Nat) (inLine : Bool) (margin : Margin)
    (text : List Char) : List Letter → Option (String × List Letter)
  | [] => some (String.ofList (text.reverse ++ margin.close chomping), [])
  | l :: rest =>
    let stop := some (String.ofList (text.reverse ++ margin.close chomping), l :: rest)
    if isEnd l.char then stop
    else if inLine then
      if isBreak l.char then
        blockLines style chomping indent false { margin with first := [l.char], more := [] } text rest
      else blockLines style chomping indent true margin (l.char :: text) rest
    else if l.column < indent && l.char = ' ' then blockLines style chomping indent false margin text rest
    else if l.column < indent && l.char = '\t' then none
    else if isBreak l.char then
      blockLines style chomping indent false { margin with more := margin.more ++ [l.char] } text rest
    else if l.column = indent then
      blockLines style chomping indent true ⟨[], [], isBlank l.char⟩
        (l.char :: (margin.join style l.char).reverse ++ text) rest
    else stop

/-- A block scalar, from behind its first letter, inside a collection whose entries are indented by less than
`inner`. -/
def block (style : BlockStyle) (inner : Nat) (letters : List Letter) : Option (String × List Letter) := do
  let (chomping, given, letters) ← blockHeader letters
  let letters ← endOfHeader letters
  let indent := given.map fun n => if inner = 0 then n else inner - 1 + n
  let (breaks, widest, letters) ← leadingBreaks indent 0 [] letters
  blockLines style chomping (indent.getD (max widest (max inner 1))) false ⟨[], breaks, false⟩ [] letters

end Rollout.Yaml
