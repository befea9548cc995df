import EntityGraph.Files.Walk
import EntityGraph.Glob.Pattern
import EntityGraph.Project.Registry

/-!
# Sources of a project

`FileTree.sources` finds the files that a project extracts: those of a walk that some grammar reads and
no exclude pattern fits, in the order of their paths. Patterns see the path below the root of the
project, from wherever the walk starts.
-/

namespace EntityGraph

def Registry.supports (registry : Registry) (path : Path) : Bool :=
  (registry.forFile? path).isSome

/-- The path as patterns see it: below the root if it is there, else as it is. -/
def Path.relativeTo (path root : Path) : Path :=
  (path.stripPrefix? root).getD path

def isExcluded (patterns : List Pattern) (root path : Path) : Bool :=
  patterns.any (·.fits (path.relativeTo root).text)

/-- The sources below `start` of the project at `root`. -/
def FileTree.sources (files : FileTree) (registry : Registry) (patterns : List Pattern)
    (root start : Path) : List Path :=
  ((files.walk start).filter fun path =>
    registry.supports path && !isExcluded patterns root path).mergeSort Path.le

end EntityGraph
