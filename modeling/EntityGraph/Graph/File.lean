import EntityGraph.Files.Path
import EntityGraph.Graph.Declaration

/-!
# Files

The entity graph of one source file.

* `ImportRecord` is an import, resolved to a path or not, and `CoverageGap` a declaration that is
  left out of the graph;
* `File` is the graph, `File.function?` and `File.class?` its declarations by name;
* `File.entityCount` counts the entities of all processes.
-/

namespace EntityGraph

structure ImportedName where
  name : String
  asname : Option String
  deriving DecidableEq

inductive ImportRecord where
  | resolved (path : Path) (names : List ImportedName)
  | unresolved (module : String) (names : List ImportedName)
  deriving DecidableEq

inductive CoverageGap where
  | nestedClass (outer name : String) (line : Nat)
  deriving DecidableEq

structure File where
  path : Path
  process : List Entity
  functions : List Function
  classes : List Class
  constants : List String
  imports : List ImportRecord
  gaps : List CoverageGap

def ImportRecord.isResolved : ImportRecord → Bool
  | .resolved .. => true
  | .unresolved .. => false

def ImportRecord.names : ImportRecord → List ImportedName
  | .resolved _ names | .unresolved _ names => names

namespace File

def function? (file : File) (name : String) : Option Function :=
  file.functions.find? (·.name = name)

def class? (file : File) (name : String) : Option Class :=
  file.classes.find? (·.name = name)

/-- The processes of the file: its own, and those of its functions and methods. -/
def processes (file : File) : List (List Entity) :=
  file.process ::
    (file.functions.map Function.process ++
      (file.classes.flatMap Class.methods).map Function.process)

def entityCount (file : File) : Nat :=
  Entity.countAll file.processes.flatten

end File

end EntityGraph
