import EntityGraph.Ignore.Scope

/-!
# Walking file trees

`FileTree.walk` lists the files below a directory: all but those that are hidden or ignored, or in a
directory that is. A name that begins with a dot is hidden, unless an ignore file keeps it.

* a directory is walked even if itself is hidden or ignored, and a file is walked to itself;
* the path of a file is that of the walked directory with the names on the way pushed to it;
* the ignore files of the directories above the walked one count as well.
-/

namespace EntityGraph

namespace FileEntry

def isDirectory : FileEntry → Bool
  | .file _ => false
  | .directory _ => true

def isHidden (name : String) : Bool :=
  name.toList.head? == some '.'

/-- Whether a walk passes over an entry of the first scope. -/
def isPassedOver (scopes : List Ignore.Scope) (name : String) (entry : FileEntry) : Bool :=
  match Ignore.verdict? scopes name entry.isDirectory with
  | some .ignored => true
  | some .kept => false
  | none => isHidden name

mutual

/-- The files from an entry on, inside these scopes. -/
def walk (scopes : List Ignore.Scope) (path : Path) (name : String) : FileEntry → List Path
  | .file _ => [path]
  | .directory entries => walkEntries (.ofDirectory name entries :: scopes) path entries

/-- The files from the entries of a directory on, whose scope is the first one. -/
def walkEntries (scopes : List Ignore.Scope) (path : Path) : List (String × FileEntry) → List Path
  | [] => []
  | (name, entry) :: rest =>
    (if isPassedOver scopes name entry then [] else walk scopes (path.push name) name entry) ++
      walkEntries scopes path rest

end

/-- The scopes of the directories that these names pass through, and the name they lead to. -/
def scopesAlong (scopes : List Ignore.Scope) (name : String) (entries : List (String × FileEntry)) :
    List String → List Ignore.Scope × String
  | [] => (scopes, name)
  | next :: rest =>
    match find? next entries with
    | some (.directory inner) => scopesAlong (.ofDirectory name entries :: scopes) next inner rest
    | _ => (.ofDirectory name entries :: scopes, next)

end FileEntry

namespace FileTree

/-- The files below a path, in no particular order. Nothing is below a path that leads nowhere. -/
def walk (tree : FileTree) (start : Path) : List Path :=
  match tree.get? start with
  | none => []
  | some entry =>
    let (scopes, name) := FileEntry.scopesAlong [] "" tree.entries (tree.namesTo start)
    entry.walk scopes start name

end FileTree

end EntityGraph
