import EntityGraph.Files.Path
import EntityGraph.Text.Utf8

/-!
# File trees

All files, from the root directory down, and the working directory among them. There are no links, so a
path leads to at most one entry.

* `FileTree.get?` follows a path: an absolute one from the root directory, any other from the working
  directory;
* `isDirectory`, `isFile` and `readText` look at what is found;
* `insert` and `remove` change a tree; `insert` makes the directories on the way.
-/

namespace EntityGraph

inductive FileEntry where
  | file (content : ByteArray)
  | directory (entries : List (String × FileEntry))

/-- The entries of the root directory, and the names that lead from it to the working directory. -/
structure FileTree where
  entries : List (String × FileEntry)
  working : List String

/-- What can go wrong when a file is read. -/
inductive ReadError where
  | isDirectory
  | notUtf8
  deriving DecidableEq

def ReadError.message : ReadError → String
  | .isDirectory => "Is a directory (os error 21)"
  | .notUtf8 => "stream did not contain valid UTF-8"

namespace FileEntry

/-- The entry of this name in a directory. -/
def find? (name : String) (entries : List (String × FileEntry)) : Option FileEntry :=
  entries.lookup name

/-- What the pieces of a path lead to from an entry; `above` are the directories above it, the nearest
first. There is nothing above the root directory but itself. -/
def follow (above : List FileEntry) : FileEntry → List String → Option FileEntry
  | entry, [] => some entry
  | .file _, _ :: _ => none
  | .directory entries, piece :: rest =>
    if Path.isSilent piece then follow above (.directory entries) rest
    else if piece = ".." then
      match above with
      | [] => follow [] (.directory entries) rest
      | up :: further => follow further up rest
    else
      match find? piece entries with
      | none => none
      | some entry => follow (.directory entries :: above) entry rest

/-- The entries with one in place of that of the same name. -/
def replace (name : String) (entry : FileEntry) (entries : List (String × FileEntry)) :
    List (String × FileEntry) :=
  (name, entry) :: entries.filter (·.1 ≠ name)

/-- The entries with one put below the directories of these names. An empty directory leaves an
existing one as it is. -/
def insertAt (entry : FileEntry) : List String → List (String × FileEntry) →
    List (String × FileEntry)
  | [], entries => entries
  | [name], entries =>
    match entry, find? name entries with
    | .directory [], some (.directory _) => entries
    | _, _ => replace name entry entries
  | name :: rest, entries =>
    let inner :=
      match find? name entries with
      | some (.directory inner) => inner
      | _ => []
    replace name (.directory (insertAt entry rest inner)) entries

def removeAt : List String → List (String × FileEntry) → List (String × FileEntry)
  | [], entries => entries
  | [name], entries => entries.filter (·.1 ≠ name)
  | name :: rest, entries =>
    match find? name entries with
    | some (.directory inner) => replace name (.directory (removeAt rest inner)) entries
    | _ => entries

/-- The text of a file. -/
def readText : FileEntry → Except ReadError String
  | .directory _ => .error .isDirectory
  | .file content =>
    match Text.decode? content with
    | some text => .ok text
    | none => .error .notUtf8

end FileEntry

/-- The names that lead to a place, after one more piece. -/
def Path.enter (names : List String) (piece : String) : List String :=
  if isSilent piece then names else if piece = ".." then names.dropLast else names ++ [piece]

namespace FileTree

/-- No files, and an empty working directory below the root directory. -/
def empty : FileTree where
  entries := FileEntry.insertAt (.directory []) ["home", "user"] []
  working := ["home", "user"]

/-- The pieces that lead from the root directory to where a path leads. -/
def pieces (tree : FileTree) (path : Path) : List String :=
  (if path.isAbsolute then [] else tree.working) ++ Path.split path.text

/-- The empty path leads nowhere. -/
def get? (tree : FileTree) (path : Path) : Option FileEntry :=
  if path.text = "" then none
  else FileEntry.follow [] (.directory tree.entries) (tree.pieces path)

/-- The names that lead from the root directory to where a path leads, after going up where it does. -/
def namesTo (tree : FileTree) (path : Path) : List String :=
  (tree.pieces path).foldl Path.enter []

def isDirectory (tree : FileTree) (path : Path) : Bool :=
  match tree.get? path with
  | some (.directory _) => true
  | _ => false

def isFile (tree : FileTree) (path : Path) : Bool :=
  match tree.get? path with
  | some (.file _) => true
  | _ => false

def insert (tree : FileTree) (path : Path) (entry : FileEntry) : FileTree :=
  { tree with entries := FileEntry.insertAt entry (tree.namesTo path) tree.entries }

def remove (tree : FileTree) (path : Path) : FileTree :=
  { tree with entries := FileEntry.removeAt (tree.namesTo path) tree.entries }

end FileTree

end EntityGraph
