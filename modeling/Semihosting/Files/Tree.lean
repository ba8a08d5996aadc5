import Semihosting.Files.Access

/-!
# A tree of files

Files and directories held in memory. Paths lead from the root if they begin with a slash and else
from the current directory; `.` stays where it is, and `..` goes up, but not above the root. Every
component but the last has to be a directory.
-/
namespace Semihosting.Files

/-- The place of a file or a directory: the names that lead to it from the root. -/
abbrev Place := List String

/-- The pieces of a text between its slashes. -/
def splitSlashes : List Char → List (List Char)
  | [] => [[]]
  | char :: rest =>
    if char = '/' then [] :: splitSlashes rest
    else match splitSlashes rest with
      | [] => [[char]]
      | piece :: pieces => (char :: piece) :: pieces

/-- The components of a path. A slash at either end leaves an empty component. -/
def components (path : String) : List String :=
  (splitSlashes path.toList).map String.ofList

/-- Directories and files below a root. The root is a directory without being listed. -/
structure Tree where
  directories : List Place
  files : List (Place × Bytes)
  /-- The directory from which relative paths lead. -/
  current : Place
  deriving DecidableEq, Repr

namespace Tree

/-- An empty directory to work in, next to whatever else is temporary. -/
def empty : Tree where
  directories := [["tmp"], ["tmp", "work"]]
  files := []
  current := ["tmp", "work"]

def isDirectory (tree : Tree) (place : Place) : Bool :=
  place.isEmpty || tree.directories.contains place

def follow (tree : Tree) : Place → List String → Option Place
  | place, [] => some place
  | place, name :: rest =>
    if !tree.isDirectory place then none
    else if name = "" ∨ name = "." then follow tree place rest
    else if name = ".." then follow tree place.dropLast rest
    else follow tree (place ++ [name]) rest

/-- The place that a path leads to, whether or not there is something. -/
def resolve (tree : Tree) (path : String) : Option Place :=
  if path = "" then none
  else if path.toList.head? = some '/' then tree.follow [] (components path)
  else tree.follow tree.current (components path)

def content (tree : Tree) (place : Place) : Option Bytes :=
  tree.files.lookup place

def read (tree : Tree) (path : String) : Option Bytes :=
  (tree.resolve path).bind tree.content

/-- The name under which a place is directly in a directory. -/
def nameIn? (directory place : Place) : Option String :=
  place.getLast?.filter fun _ => place.dropLast = directory

/-- The names of the files and directories in the directory that a path leads to. -/
def list (tree : Tree) (path : String) : Option (List String) :=
  (tree.resolve path).bind fun place =>
    if tree.isDirectory place then
      some ((tree.files.map Prod.fst ++ tree.directories).filterMap (nameIn? place)).eraseDups
    else none

def put (tree : Tree) (place : Place) (content : Bytes) : Tree :=
  { tree with files := (place, content) :: tree.files.filter fun file => file.1 ≠ place }

/-- The place of the file to open when a path is to be written: none if there is a directory. -/
def target (tree : Tree) (path : String) : Option Place :=
  (tree.resolve path).filter fun place => !tree.isDirectory place

/-- A place and the places above it, the root apart. -/
def withAncestors (place : Place) : List Place :=
  (List.range place.length).map fun depth => place.take (depth + 1)

/-- Makes a directory below the current one, with all those between them. -/
def makeDirectory (tree : Tree) (place : Place) : Tree :=
  { tree with directories := withAncestors (tree.current ++ place) ++ tree.directories }

/-- Makes a file below the current directory, with all directories between them. -/
def makeFile (tree : Tree) (place : Place) (content : Bytes) : Tree :=
  (tree.makeDirectory place.dropLast).put (tree.current ++ place) content

instance : Access (StateM Tree) where
  File := Place
  readFile path tree := (tree.read path, tree)
  isFile path tree := ((tree.read path).isSome, tree)
  list path tree := (tree.list path, tree)
  create path tree :=
    match tree.target path with
    | none => (none, tree)
    | some place => (some place, tree.put place [])
  append place bytes tree :=
    match tree.content place with
    | none => (false, tree)
    | some before => (true, tree.put place (before ++ bytes))

instance : World Tree where
  locate := resolve
  content := content

end Tree

end Semihosting.Files
