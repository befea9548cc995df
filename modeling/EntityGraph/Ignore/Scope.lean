import EntityGraph.Files.FileTree
import EntityGraph.Ignore.Rule

/-!
# Scopes of ignore files

The ignore files of a directory hold for everything below it. A directory may have rules for all walks,
rules for repositories, and in its repository rules that exclude; the last two count only inside a
repository, whose directories end at the one that holds `.git`.

* `Scope.ofDirectory` reads the rules of one directory;
* `verdict?` is what the scopes around an entry say about it: the nearest scope that says something
  decides, and rules for all walks come before those of repositories.
-/

namespace EntityGraph.Ignore

/-- The rules of a directory, and its name in the directory above. -/
structure Scope where
  name : String
  walkRules : Rules
  repositoryRules : Rules
  excludeRules : Rules
  holdsRepository : Bool

namespace Scope

/-- The rules of the file that these names lead to. -/
def rulesAt (entries : List (String × FileEntry)) (names : List String) : Rules :=
  match FileEntry.follow [] (.directory entries) names with
  | some (.file content) => .ofContent content
  | _ => []

def ofDirectory (name : String) (entries : List (String × FileEntry)) : Scope where
  name := name
  walkRules := rulesAt entries [".ignore"]
  repositoryRules := rulesAt entries [".gitignore"]
  excludeRules := rulesAt entries [".git", "info", "exclude"]
  holdsRepository := (FileEntry.find? ".git" entries).isSome

end Scope

/-- What the nearest scope says that says something about an entry with this path below the first one.
The rules count up to a scope that is the last. -/
def nearestVerdict? (rules : Scope → Rules) (isLast : Scope → Bool) (isDirectory : Bool)
    (path : String) : List Scope → Option Verdict
  | [] => none
  | scope :: outer =>
    ((rules scope).verdict? path isDirectory).or
      (if isLast scope then none
        else nearestVerdict? rules isLast isDirectory (scope.name ++ "/" ++ path) outer)

/-- What the scopes around an entry of the first one say about it. -/
def verdict? (scopes : List Scope) (name : String) (isDirectory : Bool) : Option Verdict :=
  let inRepository (rules : Scope → Rules) : Option Verdict :=
    if scopes.any Scope.holdsRepository then
      nearestVerdict? rules Scope.holdsRepository isDirectory name scopes
    else none
  (nearestVerdict? Scope.walkRules (fun _ => false) isDirectory name scopes).or
    ((inRepository Scope.repositoryRules).or (inRepository Scope.excludeRules))

end EntityGraph.Ignore
