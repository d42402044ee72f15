/-!
# File trees

A tree of files and directories as a value, and the reading of a path in it. A path starts from the
root of the tree, or from the root of the system if it starts with a slash. An empty step and `.`
stay where they are and `..` goes up; each step, also one that stays, needs a directory to start
from, so a slash behind the name of a file leads nowhere.

Above the root of the tree there are directories without end, and the root has no name in them: a
path that goes up there finds what has been added there, but does not come back into the tree.
-/

namespace Runbook

/-- Why a file cannot be read. -/
inductive FileError where
  | missing
  | isDirectory
  /-- A step of the path starts from a file. -/
  | notDirectory
  | nameTooLong
  | invalidText
  /-- Any other reason, in the words of the system. -/
  | other (reason : String)
deriving DecidableEq, Repr

namespace FileError

/-- The reason in the words of the system, with its number. -/
def message : FileError → String
  | .missing => "No such file or directory (os error 2)"
  | .isDirectory => "Is a directory (os error 21)"
  | .notDirectory => "Not a directory (os error 20)"
  | .nameTooLong => "File name too long (os error 36)"
  | .invalidText => "stream did not contain valid UTF-8"
  | .other reason => reason

end FileError

/-- Bytes as text. -/
def decodeText (bytes : ByteArray) : Except FileError String :=
  match String.fromUTF8? bytes with
  | some text => .ok text
  | none => .error .invalidText

/-- What a program can read: the bytes at a path. -/
abbrev Files := String → Except FileError ByteArray

namespace Files

/-- Something stands at the path; a file that is there but cannot be read counts. -/
def has (files : Files) (path : String) : Bool :=
  match files path with
  | .ok _ | .error .isDirectory | .error (.other _) => true
  | .error _ => false

/-- The text of the file at a path. -/
def readText (files : Files) (path : String) : Except FileError String :=
  files path >>= decodeText

end Files

/-- A directory from which a place is found by names alone. -/
inductive Origin where
  /-- The directory so many levels above the root of the tree, which is itself at level zero. -/
  | above (levels : Nat)
  | system
deriving DecidableEq, Repr

namespace Origin

/-- The directory above; above the root of the system there is only itself. -/
def up : Origin → Origin
  | .above levels => .above (levels + 1)
  | .system => .system

/-- The directory from which a path starts. -/
def ofPath (path : String) : Origin := if path.startsWith "/" then .system else .above 0

end Origin

/-- A place that a path can lead to: the names of the way down from an origin. -/
structure Place where
  origin : Origin
  names : List String
deriving DecidableEq, Repr

namespace Place

/-- The place above; from an origin it leads to the origin above that. -/
def up (place : Place) : Place :=
  if place.names = [] then { place with origin := place.origin.up }
  else { place with names := place.names.dropLast }

/-- The place one step of a path further. -/
def step (place : Place) (step : String) : Place :=
  if step = "" ∨ step = "." then place
  else if step = ".." then place.up
  else { place with names := place.names ++ [step] }

/-- The places before each step of a path and after the last. -/
def along (place : Place) : List String → List Place
  | [] => [place]
  | step :: steps => place :: (place.step step).along steps

end Place

/-- A directory tree: its files, the latest last, and its directories. -/
structure FileTree where
  files : List (Place × ByteArray)
  directories : List Place

namespace FileTree

/-- A tree to which nothing has been added. -/
def empty : FileTree := ⟨[], []⟩

/-- The most bytes of a name. -/
def nameLimit : Nat := 255

/-- The most bytes of a path. -/
def pathLimit : Nat := 4095

/-- The steps of a path; two slashes in a row have an empty step between them. -/
def steps (path : String) : List String := path.splitOn "/"

/-- Adds a file, with a directory at each place on the way to it. A path that ends in a slash is
that of a directory. -/
def add (tree : FileTree) (path : String) (content : ByteArray) : FileTree :=
  let places := (Place.mk (Origin.ofPath path) []).along (steps path)
  if path.endsWith "/" then { tree with directories := tree.directories ++ places }
  else
    { files := tree.files ++ places.getLast?.toList.map (·, content)
      directories := tree.directories ++ places.dropLast }

/-- What stands at a place: the bytes of a file, or a directory. -/
def entry (tree : FileTree) (place : Place) : Except FileError (Option ByteArray) :=
  match tree.files.reverse.lookup place with
  | some content => .ok (some content)
  | none =>
    if place.names = [] ∨ place ∈ tree.directories then .ok none else .error .missing

/-- Walks steps from a place. -/
def walk (tree : FileTree) (place : Place) : List String → Except FileError (Option ByteArray)
  | [] => tree.entry place
  | step :: rest =>
    match tree.entry place with
    | .error e => .error e
    | .ok (some _) => .error .notDirectory
    | .ok none =>
      if step.utf8ByteSize > nameLimit then .error .nameTooLong
      else tree.walk (place.step step) rest

/-- The files of a tree, as a program sees them that runs at its root. -/
def read (tree : FileTree) : Files := fun path =>
  if path = "" then .error .missing
  else if path.utf8ByteSize > pathLimit then .error .nameTooLong
  else
    match tree.walk ⟨Origin.ofPath path, []⟩ (steps path) with
    | .error e => .error e
    | .ok none => .error .isDirectory
    | .ok (some content) => .ok content

end FileTree

end Runbook
