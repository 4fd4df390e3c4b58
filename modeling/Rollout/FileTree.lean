import Rollout.Path
import Rollout.Table
/-!
Files and directories, and what a path leads to among them.  A path is followed piece by piece from the root or from the
directory it is read in, and each piece but the last has to lead to a directory.  A piece that is empty or a single dot
leads nowhere, and two dots lead to the directory around; the root is its own.

A tree is grown by adding directories and files, each with the directories around it.  Reading a path gives the text of
the file that it leads to, or the reason why there is none: nothing is there, something on the way is not a directory,
what is there is one, or its bytes are not those of a text.
-/
namespace Rollout

inductive ReadFailure where
  | missing
  | notDirectory
  | isDirectory
  | notText
  | other (reason : String)
deriving DecidableEq, Repr

namespace ReadFailure

def reason : ReadFailure → String
  | missing => "No such file or directory (os error 2)"
  | notDirectory => "Not a directory (os error 20)"
  | isDirectory => "Is a directory (os error 21)"
  | notText => "stream did not contain valid UTF-8"
  | other reason => reason

end ReadFailure

def decodeText (content : ByteArray) : Except ReadFailure String :=
  match String.fromUTF8? content with
  | some text => .ok text
  | none => .error .notText

inductive FileTree.Entry where
  | directory
  | file (content : ByteArray)

/-- A place in a tree is the list of the names that lead to it from the root, innermost first. -/
abbrev Place := List String

structure FileTree where
  /-- What is at each place but the root, by its path. -/
  entries : Table FileTree.Entry

namespace FileTree

def empty : FileTree := ⟨.empty⟩

def pathOf (place : Place) : String := (Path.mk true place).text

def entry? (t : FileTree) (place : Place) : Option Entry :=
  if place.isEmpty then some .directory else t.entries.get? (pathOf place)

/-! ## Putting files into a tree -/

def addDirectory (t : FileTree) : Place → FileTree
  | [] => t
  | name :: outer =>
    let t := t.addDirectory outer
    if (t.entry? (name :: outer)).isSome then t else ⟨t.entries.insert (pathOf (name :: outer)) .directory⟩

def addFile (t : FileTree) (place : Place) (content : ByteArray) : FileTree :=
  ⟨(t.addDirectory place.tail).entries.insert (pathOf place) (.file content)⟩

/-! ## Following a path -/

def move (place : Place) (piece : String) : Place :=
  if Path.isIdle piece then place else if piece = ".." then place.tail else piece :: place

def follow (t : FileTree) (place : Place) : List String → Except ReadFailure Place
  | [] => .ok place
  | piece :: rest =>
    match t.entry? place with
    | none => .error .missing
    | some (.file _) => .error .notDirectory
    | some .directory => t.follow (move place piece) rest

def locate (t : FileTree) (start : Place) (p : Path) : Except ReadFailure (Place × Entry) := do
  let place ← t.follow (if p.absolute then [] else start) p.pieces.reverse
  match t.entry? place with
  | none => .error .missing
  | some e => .ok (place, e)

def present (t : FileTree) (start : Place) (p : Path) : Bool := (t.locate start p).toBool

def read (t : FileTree) (start : Place) (p : Path) : Except ReadFailure String := do
  match (← t.locate start p).2 with
  | .directory => .error .isDirectory
  | .file content => decodeText content

end FileTree

end Rollout
