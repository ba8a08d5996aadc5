import Semihosting.Bytes

/-!
# File access

What a command asks of the files around it. Files are named by paths, and an access that fails says
so. Commands run in any world of files whose accesses obey the laws stated here: looking at files
changes nothing, a file that cannot be created is left alone, and a file that was opened for writing
takes what is written to it.
-/
namespace Semihosting.Files

/-- The accesses to files that a command makes. -/
class Access (m : Type → Type) where
  /-- A file that is open for writing. -/
  File : Type
  /-- The content of the file that a path leads to. -/
  readFile : String → m (Option Bytes)
  /-- Whether a path leads to a regular file. -/
  isFile : String → m Bool
  /-- The names of whatever is directly in a directory, in any order. -/
  list : String → m (Option (List String))
  /-- Opens the file that a path leads to for writing. It is created if need be, and emptied. -/
  create : String → m (Option File)
  /-- Writes at the end of an open file, and says whether that succeeded. -/
  append : File → Bytes → m Bool

/-- Gives a file a new content, creating it if need be, and says whether that succeeded. -/
def writeFile {m : Type → Type} [Monad m] [Access m] (path : String) (content : Bytes) :
    m Bool := do
  match ← Access.create path with
  | none => return false
  | some file => Access.append file content

/-! ### Laws -/

/-- What there is to see of the files in a world. -/
class World (σ : Type) [Access (StateM σ)] where
  /-- The file that a path leads to, whether or not there is one yet. -/
  locate : σ → String → Option (Access.File (StateM σ))
  /-- The content of a file, if there is one. -/
  content : σ → Access.File (StateM σ) → Option Bytes

namespace World

variable {σ : Type} [Access (StateM σ)]

/-- What reading a path gives. -/
def read (world : σ) (path : String) : Option Bytes :=
  ((Access.readFile path : StateM σ _).run world).1

def isFile (world : σ) (path : String) : Bool :=
  ((Access.isFile path : StateM σ _).run world).1

def list (world : σ) (path : String) : Option (List String) :=
  ((Access.list path : StateM σ _).run world).1

/-- The file that is opened when a path is to be written. -/
def opens (world : σ) (path : String) : Option (Access.File (StateM σ)) :=
  ((Access.create path : StateM σ _).run world).1

/-- Paths lead where they led, and every other file holds what it held. -/
structure ChangedOnly [World σ] (before after : σ) (file : Access.File (StateM σ)) : Prop where
  paths : ∀ path, locate after path = locate before path
  others : ∀ other, other ≠ file → content after other = content before other

end World

open World in
/-- Accesses that do what they say and nothing else. -/
class LawfulAccess (σ : Type) [Access (StateM σ)] [World σ] : Prop where
  run_readFile (world : σ) (path : String) :
    (Access.readFile path : StateM σ _).run world = (read world path, world)
  run_isFile (world : σ) (path : String) :
    (Access.isFile path : StateM σ _).run world = (isFile world path, world)
  run_list (world : σ) (path : String) :
    (Access.list path : StateM σ _).run world = (list world path, world)
  /-- Reading gives the content of the file that the path leads to. -/
  content_of_read {world : σ} {path : String} {bytes : Bytes} : read world path = some bytes →
    ∃ file, locate world path = some file ∧ content world file = some bytes
  /-- A file that cannot be opened for writing is left alone, as is everything else. -/
  run_create_of_none {world : σ} {path : String} : opens world path = none →
    (Access.create path : StateM σ _).run world = (none, world)
  run_create_of_some {world : σ} {path : String} {file : Access.File (StateM σ)} :
    opens world path = some file → ∃ after,
      (Access.create path : StateM σ _).run world = (some file, after) ∧
        locate world path = some file ∧ content after file = some [] ∧
        ChangedOnly world after file
  /-- An open file takes what is written to it. -/
  run_append {world : σ} {file : Access.File (StateM σ)} {before : Bytes} (bytes : Bytes) :
    content world file = some before → ∃ after,
      (Access.append file bytes : StateM σ _).run world = (true, after) ∧
        content after file = some (before ++ bytes) ∧ ChangedOnly world after file

/-! ### Texts -/

/-- The text that bytes encode in UTF-8. -/
def decodeText? (bytes : Bytes) : Option String :=
  String.fromUTF8? (ByteArray.mk bytes.toArray)

/-- The bytes that encode a text in UTF-8. -/
def encodeText (text : String) : Bytes := text.toUTF8.data.toList

end Semihosting.Files
