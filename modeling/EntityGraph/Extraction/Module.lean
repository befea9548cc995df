import EntityGraph.Extraction.Declarations
import EntityGraph.Import.Resolution

/-!
# Entity graphs of modules

`File.ofModule` builds the graph of a whole module from its statements: what they declare, import and
bind, and what runs when the module is loaded. Declarations come before the process, so an unexpected
callee in a declaration is found first.
-/

namespace EntityGraph

/-- What a top-level statement declares. -/
inductive Declared where
  | function (declared : Function)
  | classWithGaps (declared : Class) (gaps : List CoverageGap)
  | nothing

def Declared.ofStmt (settings : Settings) : Stmt → Except UnexpectedCallee Declared
  | .functionDef header body => .function <$> Function.ofDefinition header body
  | .classDef header body =>
    (.classWithGaps · (gapsOf header body)) <$> Class.ofDefinition settings header body
  | _ => return .nothing

def Declared.function? : Declared → Option Function
  | .function declared => some declared
  | _ => none

def Declared.class? : Declared → Option Class
  | .classWithGaps declared _ => some declared
  | _ => none

def Declared.gaps : Declared → List CoverageGap
  | .classWithGaps _ gaps => gaps
  | _ => []

/-- The names that a top-level statement assigns directly. -/
def constantsOf : Stmt → List String
  | .assign targets _ _ => targets.filterMap baseName?
  | _ => []

/-- The graph of the module at `path` with these statements; imports are resolved below `root`. -/
def File.ofModule (settings : Settings) (files : FileTree) (root path : Path) (body : List Stmt) :
    Except UnexpectedCallee File := do
  let declared ← body.mapM (Declared.ofStmt settings)
  let process ← walk settings true body
  return {
    path := path
    process := process
    functions := declared.filterMap Declared.function?
    classes := declared.filterMap Declared.class?
    constants := body.flatMap constantsOf
    imports := body.flatMap (Import.importsOf files root path)
    gaps := declared.flatMap Declared.gaps }

end EntityGraph
