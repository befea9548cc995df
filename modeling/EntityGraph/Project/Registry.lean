import EntityGraph.Files.Path

/-!
# Grammar registry

Which grammar a source file is read by. Grammars are registered by name and by the extensions of their
files; a later registration replaces an earlier one of the same name, and an extension belongs to the name
that was registered last with it.

* `Registry.register` adds a grammar, `Registry.ofList` several;
* `Registry.byName?`, `Registry.byExtension?` and `Registry.forFile?` find one;
* `Registry.languages` and `Registry.extensions` are the names and extensions that are known, sorted.
-/

namespace EntityGraph

/-- A grammar by its name, with the extensions of the files that it reads. -/
structure Grammar where
  name : String
  extensions : List String
  deriving DecidableEq

/-- The registered grammars by name, and the name that each extension belongs to. -/
structure Registry where
  grammars : List (String × Grammar)
  owners : List (String × String)

namespace Registry

/-- The pairs with one in place of those of the same key. -/
def put {α : Type} (key : String) (value : α) (pairs : List (String × α)) : List (String × α) :=
  (key, value) :: pairs.filter (·.1 ≠ key)

def empty : Registry :=
  ⟨[], []⟩

def register (registry : Registry) (grammar : Grammar) : Registry where
  grammars := put grammar.name grammar registry.grammars
  owners := grammar.extensions.foldl (fun owners extension => put extension grammar.name owners)
    registry.owners

def registerAll (registry : Registry) (grammars : List Grammar) : Registry :=
  grammars.foldl register registry

def byName? (registry : Registry) (name : String) : Option Grammar :=
  registry.grammars.lookup name

def byExtension? (registry : Registry) (extension : String) : Option Grammar :=
  (registry.owners.lookup extension).bind registry.byName?

def forFile? (registry : Registry) (path : Path) : Option Grammar :=
  path.extension?.bind registry.byExtension?

def languages (registry : Registry) : List String :=
  (registry.grammars.map (·.1)).mergeSort (· ≤ ·)

def extensions (registry : Registry) : List String :=
  (registry.owners.map (·.1)).mergeSort (· ≤ ·)

end Registry

/-- The grammar of Python sources and stubs. -/
def Grammar.python : Grammar :=
  ⟨"python", ["py", "pyi"]⟩

/-- The registry that a project starts with. -/
def Registry.standard : Registry :=
  Registry.empty.register .python

end EntityGraph
