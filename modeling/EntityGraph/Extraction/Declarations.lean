import EntityGraph.Extraction.Docstring
import EntityGraph.Extraction.Outputs
import EntityGraph.Extraction.Process
import EntityGraph.Graph.File

/-!
# Functions and classes

* `Function.ofDefinition` and `Class.ofDefinition` build what a definition declares;
* `attributesOf` are the attributes that constructors assign on their object, each one once;
* `gapsOf` are the classes directly in the body of a class, which the graph leaves out.
-/

namespace EntityGraph

/-- The parameters that a caller can name: plain ones, and the mapping of all others. -/
def Parameters.inputs (params : Parameters) : List String :=
  params.args ++ params.kwarg.toList

def Function.ofDefinition (header : FunctionHeader) (body : List Stmt) :
    Except UnexpectedCallee Function := do
  let process ← Stmt.processAll body
  return {
    name := header.name
    line := header.line
    docstring := docstring? body
    inputs := header.params.inputs
    outputs := functionOutputs body
    process := process
    isAsync := header.isAsync }

/-! ## Attributes -/

/-- The elements without those that occur before. -/
def distinct {α : Type} [DecidableEq α] : List α → List α
  | [] => []
  | x :: rest => x :: (distinct rest).filter (· ≠ x)

/-- The attribute of the object that a target is. -/
def attributeOf? (selfName : String) : Expr → Option String
  | .attribute (.name id _) attr _ => if id = selfName then some attr else none
  | _ => none

/-- The attributes of the object that a statement itself assigns. -/
def assignedBy (selfName : String) : Stmt → List String
  | .assign targets _ _ => targets.filterMap (attributeOf? selfName)
  | _ => []

/-- The body of a definition that constructs objects. -/
def constructorBody? (settings : Settings) : Stmt → Option (List Stmt)
  | .functionDef header body => if settings.isConstructor header.name then some body else none
  | _ => none

/-- The attributes that the constructors in the body of a class assign, in order of the first
assignment, wherever in the constructors that is. -/
def attributesOf (settings : Settings) (body : List Stmt) : List String :=
  distinct ((body.filterMap (constructorBody? settings)).flatMap fun constructor =>
    (Stmt.preorderAll constructor).flatMap (assignedBy settings.selfName))

/-! ## Classes -/

def baseName? : Expr → Option String
  | .name id _ => some id
  | _ => none

/-- The method that a statement in the body of a class defines. -/
def methodOf? (settings : Settings) : Stmt → Except UnexpectedCallee (Option Function)
  | .functionDef header body =>
    if settings.isConstructor header.name then return none
    else some <$> Function.ofDefinition header body
  | _ => return none

/-- The gap that a statement in the body of the class `outer` leaves. -/
def gapOf? (outer : String) : Stmt → Option CoverageGap
  | .classDef header _ => some (.nestedClass outer header.name header.line)
  | _ => none

def gapsOf (header : ClassHeader) (body : List Stmt) : List CoverageGap :=
  body.filterMap (gapOf? header.name)

def Class.ofDefinition (settings : Settings) (header : ClassHeader) (body : List Stmt) :
    Except UnexpectedCallee Class := do
  let methods ← body.mapM (methodOf? settings)
  return {
    name := header.name
    line := header.line
    superclasses := header.bases.filterMap baseName?
    methods := methods.filterMap id
    attributes := attributesOf settings body }

end EntityGraph
