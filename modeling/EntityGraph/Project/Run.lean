import EntityGraph.Concrete.Source
import EntityGraph.Extraction.Module
import EntityGraph.Project.Configuration
import EntityGraph.Project.Counters
import EntityGraph.Project.Sources

/-!
# Extracting projects

A project extracts the sources below its root, or a list of files. Files do not depend on each other:
an error in one is part of its outcome and leaves the others as they are.

* `Project.extractFile` extracts one file, `Project.extractFiles` a list in a counted run,
  `Project.extractDirectory` and `Project.extractAll` what `Project.discoverIn` and
  `Project.discover` find;
* `Outcome.updates` is what the worker on a file adds to the counters, `countersAfter` what the
  counters show after a run.
-/

namespace EntityGraph

/-- The files, and what parses the sources among them. -/
structure Workspace where
  files : FileTree
  parse : SourceReader

/-- Where imports are resolved, how sources are extracted, and how far the last run has come. -/
structure Project where
  root : Path
  settings : Settings
  registry : Registry
  progress : Counters

/-- What became of one file of a run. -/
structure Outcome where
  path : Path
  result : Except ExtractError File

namespace Workspace

/-- The text of the file at `path` with its concrete tree. The language is decided before the file is
looked for. -/
def parseFile (workspace : Workspace) (registry : Registry) (path : Path) :
    Except ExtractError ParsedSource :=
  match registry.forFile? path with
  | none => .error (.unsupportedLanguage path)
  | some grammar =>
    match workspace.files.get? path with
    | none => .error (.fileNotFound path)
    | some entry =>
      match entry.readText with
      | .error cause => .error (.read cause)
      | .ok source =>
        match workspace.parse source with
        | none => .error .notParsed
        | some tree => .ok ⟨grammar.name, source, tree⟩

end Workspace

/-! ## Runs -/

/-- What the worker on a file adds to the counters, step by step. -/
def Outcome.updates (outcome : Outcome) : List Update :=
  match outcome.result with
  | .ok file => [.processed, .extracted file.entityCount]
  | .error _ => [.processed, .failed]

/-- The counters after a run with these outcomes. -/
def countersAfter (outcomes : List Outcome) : Counters :=
  ((Counters.start outcomes.length).applyAll (outcomes.flatMap Outcome.updates)).finish

namespace Project

def ofRoot (root : Path) (settings : Settings) : Project :=
  ⟨root, settings, .standard, .fresh⟩

def extractFile (project : Project) (workspace : Workspace) (path : Path) :
    Except ExtractError File := do
  let parsed ← workspace.parseFile project.registry path
  (File.ofModule project.settings workspace.files project.root path parsed.statements).mapError
    .unexpectedCallee

/-- The outcomes of the files, in their order, and the project after the run. -/
def extractFiles (project : Project) (workspace : Workspace) (paths : List Path) :
    List Outcome × Project :=
  let outcomes := paths.map fun path => ⟨path, project.extractFile workspace path⟩
  (outcomes, { project with progress := countersAfter outcomes })

/-! ## Discovery -/

def discoverIn (project : Project) (workspace : Workspace) (start : Path) :
    Except ExtractError (List Path) := do
  let patterns ← project.settings.excludePatterns
  return workspace.files.sources project.registry patterns project.root start

def discover (project : Project) (workspace : Workspace) : Except ExtractError (List Path) :=
  project.discoverIn workspace project.root

def extractDirectory (project : Project) (workspace : Workspace) (start : Path) :
    Except ExtractError (List Outcome × Project) := do
  return project.extractFiles workspace (← project.discoverIn workspace start)

def extractAll (project : Project) (workspace : Workspace) :
    Except ExtractError (List Outcome × Project) :=
  project.extractDirectory workspace project.root

end Project

end EntityGraph
