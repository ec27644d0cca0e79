import LineScript.Text.Basic

/-!
Files and directories, and the way of a path through them from the current directory or from the
root. A place is given by the names that lead to it from the root, so no place has two names.
-/
namespace LineScript.Command

/-- What reading a file gives. -/
inductive Loaded where
  | bytes (content : List UInt8)
  /-- There is no such file. -/
  | missing (reason : Text)
  /-- The file cannot be opened for another reason. -/
  | refused (reason : Text)
  /-- The file can be opened, but not read. -/
  | unreadable (reason : Text)

/-- A file with its bytes, or a directory. -/
abbrev Node := Option (List UInt8)

structure Disk where
  /-- The current directory. -/
  here : List Text
  /-- Files and directories at their places, the last one added first. -/
  nodes : List (List Text × Node)

namespace Disk

/-- The disk with nothing on it but the way to the current directory. -/
def empty (here : List Text) : Disk :=
  ⟨here, []⟩

/-- The place at which a path starts. -/
def origin (d : Disk) (path : Text) : List Text :=
  if path.head? = some '/' then [] else d.here

/-- The steps of a path. -/
def steps (path : Text) : List Text :=
  path.splitOn '/'

/-- The step to the directory above. -/
def up : Text :=
  ['.', '.']

/-- The disk with one more file or directory; the path to it goes down only. -/
def add (d : Disk) (path : Text) (node : Node) : Disk :=
  let names := (steps path).filter fun step => !step.isEmpty
  { d with nodes := (d.origin path ++ names, node) :: d.nodes }

/-- What there is at a place. The current directory is a directory, and so is everything on the
way to it and to a file. -/
def node? (d : Disk) (place : List Text) : Option Node :=
  match d.nodes.find? fun entry => entry.1 == place with
  | some (_, node) => some node
  | none =>
    if place.isPrefixOf d.here || d.nodes.any fun entry => place.isPrefixOf entry.1 then some none
    else none

/-- The most bytes that the name of a file or directory has. -/
def nameLimit : Nat :=
  255

/-- The most bytes that a path has. -/
def pathLimit : Nat :=
  4095

def noSuchFile : Text :=
  "No such file or directory (os error 2)".toList

def notADirectory : Text :=
  "Not a directory (os error 20)".toList

def isADirectory : Text :=
  "Is a directory (os error 21)".toList

def nameTooLong : Text :=
  "File name too long (os error 36)".toList

/-- Goes on from a place. Every step, an empty one too, needs a directory; at the root the step up
stays there. -/
def walk (d : Disk) (place : List Text) : List Text → Loaded
  | [] =>
    match d.node? place with
    | some (some content) => .bytes content
    | some none => .unreadable isADirectory
    | none => .missing noSuchFile
  | step :: rest =>
    match d.node? place with
    | some (some _) => .refused notADirectory
    | none => .missing noSuchFile
    | some none =>
      if step.isEmpty || step = ['.'] then d.walk place rest
      else if step = up then d.walk place.dropLast rest
      else if nameLimit < Text.byteCount step then .refused nameTooLong
      else d.walk (place ++ [step]) rest

/-- The file at a path. -/
def read (d : Disk) (path : Text) : Loaded :=
  if pathLimit < Text.byteCount path then .refused nameTooLong
  else d.walk (d.origin path) (steps path)

end Disk
end LineScript.Command
