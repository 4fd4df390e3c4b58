/-!
The lines of a text.  A line ends at a line feed, and a carriage return right before it belongs to the end as well.
What stands after the last line feed is a line only if it is not empty.

A carriage return anywhere else stays in its line, also at the end of the text: only a line feed makes it a part of a
line end.  Lines are put together letter by letter, so the text is gone through once.
-/
namespace Rollout.Text

def dropReturn : List Char → List Char
  | '\r' :: line => line
  | line => line

/-- The lines of the rest of a text, when `line` is what the current line holds so far, last character first. -/
def linesFrom (line : List Char) : List Char → List String
  | [] => if line.isEmpty then [] else [String.ofList line.reverse]
  | c :: rest =>
    if c = '\n' then String.ofList (dropReturn line).reverse :: linesFrom [] rest else linesFrom (c :: line) rest

def lines (text : String) : List String := linesFrom [] text.toList

end Rollout.Text
