import Rollout.Yaml.Scalar
/-!
Tags as they are written: in full between angle brackets, or as a handle and a suffix.  A handle stands for what the
document's directives bind it to; `!` and `!!` are bound from the start.

A handle is an exclamation mark, and perhaps a word and a second one.  A tag without a handle has its whole text as the
suffix, and a lone exclamation mark is a tag as well.  The characters of a tag are those that may stand in an address,
and others can be written as percent escapes of their bytes.  Such bytes have to be in the form of an encoded character;
those that are and encode none become the replacement character.
-/
namespace Rollout.Yaml

def isTagChar (full : Bool) (c : Char) : Bool :=
  isWord c || c ∈ [';', '/', '?', ':', '@', '&', '=', '+', '$', '.', '!', '~', '*', '\'', '(', ')', '%'] ||
    (full && c ∈ [',', '[', ']'])

def leadByte? (byte : Nat) : Option (Nat × Nat) :=
  if byte < 0x80 then some (0, byte)
  else if 0xC0 ≤ byte && byte < 0xE0 then some (1, byte - 0xC0)
  else if 0xE0 ≤ byte && byte < 0xF0 then some (2, byte - 0xE0)
  else if 0xF0 ≤ byte && byte < 0xF8 then some (3, byte - 0xF0)
  else none

/-- Resolves the percent escapes of a tag.  Inside a character that takes several bytes `left` of them are still to
come.  Bytes that are in the right form but encode no character become the replacement character. -/
def unescapePercent (left value : Nat) : List Char → Option (List Char)
  | [] => if left = 0 then some [] else none
  | '%' :: a :: b :: rest => do
    let byte := 16 * (← hexDigit? a) + (← hexDigit? b)
    let (left, value) ←
      if left = 0 then leadByte? byte
      else if 0x80 ≤ byte && byte < 0xC0 then some (left - 1, 64 * value + (byte - 0x80))
      else none
    let tail ← unescapePercent left value rest
    return if left = 0 then (charOfCode? value).getD '\ufffd' :: tail else tail
  | c :: rest =>
    if left = 0 && c ≠ '%' then (unescapePercent 0 0 rest).map (c :: ·) else none

def tagText (full : Bool) (letters : List Letter) : Option (List Char × List Letter) := do
  let (raw, rest) := span (isTagChar full) letters
  return (← unescapePercent 0 0 raw, rest)

def tagHandle (letters : List Letter) : Option (List Char × List Letter) :=
  if peek letters = '!' then
    let (word, rest) := span isWord (letters.drop 1)
    if peek rest = '!' then some ('!' :: word ++ ['!'], rest.drop 1) else some ('!' :: word, rest)
  else none

def tag (inFlow : Bool) (letters : List Letter) : Option (String × String × List Letter) := do
  let (handle, suffix, rest) ←
    if peek (letters.drop 1) = '<' then do
      let (text, rest) ← tagText true (letters.drop 2)
      if text.isEmpty || peek rest ≠ '>' then none else some ([], text, rest.drop 1)
    else do
      let (handle, rest) ← tagHandle letters
      let (text, rest) ← tagText false rest
      if 2 ≤ handle.length && handle.getLast? = some '!' then
        if text.isEmpty then none else some (handle, text, rest)
      else
        let suffix := handle.drop 1 ++ text
        some (if suffix.isEmpty then ([], ['!'], rest) else (['!'], suffix, rest))
  if isBlankOrEnd (peek rest) || (inFlow && peek rest = ',') then
    some (String.ofList handle, String.ofList suffix, rest)
  else none

end Rollout.Yaml
