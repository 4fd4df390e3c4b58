import Rollout.Yaml.Letter
/-!
The gaps in a scalar that goes on over several lines.  Blanks between two words stay as they are.  A gap with line
breaks is folded: blanks around the breaks go, one break alone becomes a space, and of several the first goes.

A gap is read letter by letter and keeps the blanks and the breaks that have come so far; a blank after a break is
dropped at once.  Plain and quoted scalars fold their gaps in the same way.  Blocks do not: they have lines of their
own, and whether two of them are joined depends on how the second one starts.
-/
namespace Rollout.Yaml

inductive Gap where
  | none
  | blanks (chars : List Char)
  /-- The first break, empty if it was escaped, and the ones after it. -/
  | lines (first more : List Char)
deriving DecidableEq, Repr

namespace Gap

def extend (g : Gap) (c : Char) : Gap :=
  match g with
  | none => if isBreak c then lines [c] [] else blanks [c]
  | blanks cs => if isBreak c then lines [c] [] else blanks (cs ++ [c])
  | lines first more => if isBreak c then lines first (more ++ [c]) else lines first more

def fold : Gap → List Char
  | none => []
  | blanks cs => cs
  | lines first more => if first = ['\n'] then (if more.isEmpty then [' '] else more) else first ++ more

def hasLines : Gap → Bool
  | lines _ _ => true
  | _ => false

end Gap

end Rollout.Yaml
