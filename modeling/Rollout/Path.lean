/-!
Paths.  A path is kept as it is written, so `text` gives back what `ofText` was given.  An empty piece and `.` lead
nowhere; `..` is a piece like any other here, for what it leads to is up to the files.

The pieces are kept innermost first, which is the order in which directories are left.  `chain` lists the path itself
and the directories around it, up to the root, nearest first.  A piece that leads nowhere does not make a directory of
its own, but it stays in the text.
-/
namespace Rollout

structure Path where
  /-- Whether the path starts at the root. -/
  absolute : Bool
  /-- What stands between the slashes, innermost first. -/
  pieces : List String
deriving DecidableEq, Repr

namespace Path

/-! ## Texts -/

def cut (outer : List String) (piece : List Char) : List Char → List String
  | [] => String.ofList piece.reverse :: outer
  | c :: rest =>
    if c = '/' then cut (String.ofList piece.reverse :: outer) [] rest else cut outer (c :: piece) rest

def ofText (text : String) : Path :=
  match text.toList with
  | '/' :: rest => ⟨true, cut [] [] rest⟩
  | chars => ⟨false, cut [] [] chars⟩

def text (p : Path) : String :=
  (if p.absolute then "/" else "") ++ "/".intercalate p.pieces.reverse

/-! ## Putting paths together -/

def join (p q : Path) : Path :=
  if q.absolute then q
  else match p.pieces with
    | "" :: outer => ⟨p.absolute, q.pieces ++ outer⟩
    | pieces => ⟨p.absolute, q.pieces ++ pieces⟩

def child (p : Path) (name : String) : Path := p.join ⟨false, [name]⟩

/-! ## The directories around a path -/

def isIdle (piece : String) : Bool := piece = "" || piece = "."

/-- The pieces of the directories around, nearest first. -/
def outer : List String → List (List String)
  | [] => []
  | piece :: rest => if isIdle piece then outer rest else rest.dropWhile isIdle :: outer rest

def chain (p : Path) : List Path := p :: (outer p.pieces).map fun pieces => ⟨p.absolute, pieces⟩

end Path

end Rollout
