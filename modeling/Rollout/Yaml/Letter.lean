/-!
The letters of a YAML text.  A letter is a character together with its place, so that whatever reads letters can look at
the column it stands in.  The text is closed by a NUL, which no text may hold itself.

Three ways to end a line, a carriage return with or without a line feed and the next-line character, are read as a line
feed; the two Unicode separators end a line too, but stay what they are.  A byte order mark in front is not a letter of
the text.  Other characters than tabs, line ends and what prints are not allowed, and make that there are no letters at
all.

What is asked of letters everywhere is here: which of them are blanks and breaks, the longest run of one class, and
whether a document starts or ends here by its own mark, three equal letters at the start of a line with a blank or an
end behind them.
-/
namespace Rollout.Yaml

structure Letter where
  char : Char
  index : Nat
  line : Nat
  column : Nat
deriving DecidableEq, Repr

/-! ## Classes of characters -/

def isBreak (c : Char) : Bool := c = '\n' || c = '\u2028' || c = '\u2029'

def isBlank (c : Char) : Bool := c = ' ' || c = '\t'

def isEnd (c : Char) : Bool := c = '\x00'

def isBreakOrEnd (c : Char) : Bool := isBreak c || isEnd c

def isBlankOrEnd (c : Char) : Bool := isBlank c || isBreak c || isEnd c

def isWord (c : Char) : Bool := c.isAlphanum || c = '_' || c = '-'

def isAllowed (c : Char) : Bool :=
  let n := c.toNat
  n = 0x9 || n = 0xA || n = 0xD || (0x20 ≤ n && n ≤ 0x7E) || n = 0x85 || (0xA0 ≤ n && n ≤ 0xD7FF) ||
    (0xE000 ≤ n && n ≤ 0xFFFD) || 0x10000 ≤ n

/-! ## Reading a text as letters -/

def unifyBreaks : List Char → List Char
  | [] => []
  | '\r' :: '\n' :: rest => '\n' :: unifyBreaks rest
  | '\r' :: rest => '\n' :: unifyBreaks rest
  | '\u0085' :: rest => '\n' :: unifyBreaks rest
  | c :: rest => c :: unifyBreaks rest

def place (index line column : Nat) : List Char → List Letter
  | [] => [⟨'\x00', index, line, column⟩]
  | c :: rest =>
    ⟨c, index, line, column⟩ ::
      if isBreak c then place (index + 1) (line + 1) 0 rest else place (index + 1) line (column + 1) rest

/-- The letters of a text without the byte order mark in front, if all its characters are allowed. -/
def letters? (text : List Char) : Option (List Letter) :=
  if text.all isAllowed then
    match place 0 0 0 (unifyBreaks text) with
    | first :: rest => some (if first.char = '\ufeff' then rest else first :: rest)
    | [] => none
  else none

/-! ## Looking at letters -/

def peek (letters : List Letter) : Char := (letters.head?.map Letter.char).getD '\x00'

def column (letters : List Letter) : Nat := (letters.head?.map Letter.column).getD 0

def span (p : Char → Bool) (letters : List Letter) : List Char × List Letter :=
  ((letters.takeWhile fun l => p l.char).map Letter.char, letters.dropWhile fun l => p l.char)

def skip (p : Char → Bool) (letters : List Letter) : List Letter := letters.dropWhile fun l => p l.char

def isMark (mark : Char) (letters : List Letter) : Bool :=
  match letters with
  | a :: b :: c :: rest =>
    a.column = 0 && a.char = mark && b.char = mark && c.char = mark && isBlankOrEnd (peek rest)
  | _ => false

def isDocumentMark (letters : List Letter) : Bool := isMark '-' letters || isMark '.' letters

end Rollout.Yaml
