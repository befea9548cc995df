import EntityGraph.CommandLine.Arguments
import EntityGraph.Graph.Encode
import EntityGraph.Graph.Symbols
import EntityGraph.Project.Run

/-!
# Commands

What the commands of the command line print.

* `extract` prints entity graphs and `imports` import records as JSON, `symbols` lists declarations and
  `stats` counts what was extracted;
* each command opens the project around its path: the root is the one that is asked for, or the path
  if it is a directory, or the directory of the file;
* `run` reads the arguments and gives what is printed, with the exit code: 0, or 1 after an error, or
  2 when the arguments do not fit.
-/

namespace EntityGraph.CommandLine

/-- What a run prints on its two outputs, and its exit code. -/
structure Report where
  exitCode : Nat
  output : String
  errors : String
  deriving DecidableEq

def versionLine : String := "py-entities 0.1.0"

def unlines (lines : List String) : String :=
  String.join (lines.map (· ++ "\n"))

namespace Report

def printed (lines : List String) : Report :=
  ⟨0, unlines lines, ""⟩

/-- The lines about an error: its message, and the cause of an error in reading. -/
def errorLines (error : ExtractError) : List String :=
  ("Error: " ++ error.message) ::
    match error with
    | .read cause => ["", "Caused by:", "    " ++ cause.message]
    | _ => []

def failed (error : ExtractError) : Report :=
  ⟨1, "", unlines (errorLines error)⟩

/-- The report on arguments that do not fit. -/
def usage : Report :=
  ⟨2, "", ""⟩

end Report

/-! ## Projects -/

/-- The root of the project around a path. -/
def sourceRoot (files : FileTree) (path : Path) : Option Path → Path
  | some root => root
  | none =>
    if files.isDirectory path then path
    else
      match path.parent? with
      | some parent => if parent.text = "" then ⟨"."⟩ else parent
      | none => ⟨"."⟩

def openProject (workspace : Workspace) (config root : Option Path) (path : Path) :
    Except ExtractError Project := do
  let root := sourceRoot workspace.files path root
  let settings ←
    match config with
    | some file => Settings.load workspace.files file
    | none => Settings.discover workspace.files root
  return .ofRoot root settings

/-- The graphs of the outcomes that succeeded. -/
def extractedFiles (outcomes : List Outcome) : List File :=
  outcomes.filterMap fun outcome => outcome.result.toOption

def written (pretty : Bool) (value : Json) : String :=
  if pretty then value.pretty else value.compact

/-! ## Single commands -/

def extractReport (workspace : Workspace) (project : Project) (path : Path) (pretty : Bool) :
    Except ExtractError Report := do
  if workspace.files.isDirectory path then
    let (outcomes, project) ← project.extractDirectory workspace path
    let graphs := .array ((extractedFiles outcomes).map File.toJson)
    let errors := project.progress.errors
    return {
      exitCode := 0
      output := unlines [written pretty graphs]
      errors :=
        if errors = 0 then ""
        else unlines [toString errors.toNat ++ " file(s) could not be extracted"] }
  else
    let file ← project.extractFile workspace path
    return .printed [written pretty file.toJson]

def importsReport (workspace : Workspace) (project : Project) (file : Path) :
    Except ExtractError Report := do
  let graph ← project.extractFile workspace file
  return .printed [written true (.array (graph.imports.map ImportRecord.toJson))]

def commaSeparated (texts : List String) : String :=
  ", ".intercalate texts

/-- A function with its parameters and its line. -/
def signature (kind : String) (function : Function) : String :=
  kind ++ " " ++ function.name ++ "(" ++ commaSeparated function.inputs ++ ") at line " ++
    toString function.line

/-- A line for a list of names, unless it is empty. -/
def namesLine (heading : String) (names : List String) : List String :=
  if names.isEmpty then [] else [heading ++ commaSeparated names]

def symbolLines : SymbolRef → List String
  | .functionSymbol function => [signature "function" function]
  | .classSymbol declared =>
    ("class " ++ declared.name ++ " at line " ++ toString declared.line) ::
      (namesLine "  bases: " declared.superclasses ++
        namesLine "  attributes: " declared.attributes ++
        declared.methods.map (signature "  method"))

def symbolsReport (workspace : Workspace) (project : Project) (file : Path) (names : List String) :
    Except ExtractError Report := do
  let graph ← project.extractFile workspace file
  let symbols :=
    if names.isEmpty then graph.allSymbols else (graph.symbols (some names)).map (·.2)
  return .printed (if symbols.isEmpty then ["No symbols found"] else symbols.flatMap symbolLines)

/-- The lines about a run. Time is not measured. -/
def statsLines (counters : Counters) (files : List File) : List String :=
  let classes := files.flatMap File.classes
  let imports := files.flatMap File.imports
  let gaps := files.flatMap File.gaps
  let count (n : Nat) : String := toString n
  [ "Extraction Statistics:",
    "  Files extracted: " ++ count (counters.filesProcessed - counters.errors).toNat,
    "  Files failed: " ++ count counters.errors.toNat,
    "  Functions: " ++ count (files.flatMap File.functions).length,
    "  Classes: " ++ count classes.length ++ " (" ++
      count (classes.flatMap Class.methods).length ++ " methods)",
    "  Entities: " ++ count counters.entitiesExtracted.toNat,
    "  Imports: " ++ count (imports.filter ImportRecord.isResolved).length ++ " resolved, " ++
      count (imports.filter (!·.isResolved)).length ++ " unresolved" ] ++
  (if gaps.isEmpty then [] else ["  Coverage gaps: " ++ count gaps.length]) ++
  ["  Elapsed: 0 ms"]

def statsReport (workspace : Workspace) (project : Project) (path : Path) :
    Except ExtractError Report := do
  let (outcomes, project) ←
    if workspace.files.isDirectory path then project.extractDirectory workspace path
    else .ok (project.extractFiles workspace [path])
  return .printed (statsLines project.progress (extractedFiles outcomes))

/-! ## Runs -/

def Command.report (workspace : Workspace) (config : Option Path) :
    Command → Except ExtractError Report
  | .extract path root pretty => do
    extractReport workspace (← openProject workspace config root path) path pretty
  | .imports file root => do
    importsReport workspace (← openProject workspace config root file) file
  | .symbols file names => do
    symbolsReport workspace (← openProject workspace config none file) file names
  | .stats path => do
    statsReport workspace (← openProject workspace config none path) path

def run (workspace : Workspace) (arguments : List String) : Report :=
  match Request.read? arguments with
  | none => .usage
  | some .version => .printed [versionLine]
  | some (.run command config) =>
    match command.report workspace config with
    | .ok report => report
    | .error error => .failed error

end EntityGraph.CommandLine
