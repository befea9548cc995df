import EntityGraph.Concrete.Expr
import EntityGraph.Concrete.Parameters
import EntityGraph.Program.Stmt

/-!
# Typed statements of a concrete tree

`Stmt.ofNode` reads a concrete node as a typed statement, and `Stmt.block` the items of a node as a
list of them. Like the reading of expressions it never fails, and reads extra nodes only where a
field names them.

* `Statement.ofKind` tells the forms of statement apart by the kind of the node;
* `assignedTargets` and `assignedValue?` follow the chain of `a = b = value`;
* `Stmt.elseChain` reads the alternatives of a conditional: each `elif` is the only statement of the
  branch before it;
* `moduleOf` is the list of statements of a whole source.
-/

namespace EntityGraph

open Concrete

/-! ## Forms of statement -/

namespace Concrete

/-- The forms of statement, and the kind's name for a statement without parts. -/
inductive Statement where
  | functionDefinition
  | classDefinition
  | decorated
  | expression
  | return
  | branch
  | while
  | for
  | try
  | with
  | importModules
  | importFrom
  | importFuture
  | plain (kind : String)

def Statement.ofKind : String → Statement
  | "function_definition" => .functionDefinition
  | "class_definition" => .classDefinition
  | "decorated_definition" => .decorated
  | "expression_statement" => .expression
  | "return_statement" => .return
  | "if_statement" => .branch
  | "while_statement" => .while
  | "for_statement" => .for
  | "try_statement" => .try
  | "with_statement" => .with
  | "import_statement" => .importModules
  | "import_from_statement" => .importFrom
  | "future_import_statement" => .importFuture
  | "pass_statement" => .plain "Pass"
  | "break_statement" => .plain "Break"
  | "continue_statement" => .plain "Continue"
  | "raise_statement" => .plain "Raise"
  | "assert_statement" => .plain "Assert"
  | "global_statement" => .plain "Global"
  | "nonlocal_statement" => .plain "Nonlocal"
  | "delete_statement" => .plain "Delete"
  | "match_statement" => .plain "Match"
  | "type_alias_statement" => .plain "TypeAlias"
  | kind => .plain kind

end Concrete

/-! ## Assignments -/

/-- The targets of the assignments that are nested on the right-hand side of one another. -/
def assignedTargets (source : ByteArray) : List Node → List Expr
  | [] => []
  | ⟨label, children⟩ :: rest =>
    if label.field = some "right" then
      if label.kind = "assignment" then
        (Expr.ofField? source "left" children).getD (.missing label.line) ::
          assignedTargets source children
      else []
    else assignedTargets source rest

/-- The value at the end of the chain of right-hand sides. -/
def assignedValue? (source : ByteArray) : List Node → Option Expr
  | [] => none
  | ⟨label, children⟩ :: rest =>
    if label.field = some "right" then
      if label.kind = "assignment" then assignedValue? source children
      else some (Expr.ofNode source ⟨label, children⟩)
    else assignedValue? source rest

def Stmt.ofAssignment (source : ByteArray) (node : Node) : Stmt :=
  let line := node.label.line
  let target := (Expr.ofField? source "left" node.children).getD (.missing line)
  match Expr.ofField? source "type" node.children with
  | some annotation =>
    .annAssign target annotation (Expr.ofField? source "right" node.children) line
  | none =>
    .assign (target :: assignedTargets source node.children)
      ((assignedValue? source node.children).getD (.missing line)) line

/-- A statement made of expressions: an assignment, one expression, or a tuple of several. -/
def Stmt.ofExpressions (source : ByteArray) (line : Nat) (children : List Node) : Stmt :=
  match items children with
  | [node] =>
    match node.label.kind with
    | "assignment" => .ofAssignment source node
    | "augmented_assignment" =>
      .augAssign ((Expr.ofField? source "left" node.children).getD (.missing node.label.line))
        ((text? source "operator" node.children).getD "")
        ((Expr.ofField? source "right" node.children).getD (.missing node.label.line))
        node.label.line
    | _ => .expr (.ofNode source node) line
  | _ => .expr (.tuple (Expr.ofItems source children) line) line

/-! ## Headers -/

def FunctionHeader.ofNode (source : ByteArray) (decorators : List Expr) (label : Label)
    (children : List Node) : FunctionHeader where
  name := (text? source "name" children).getD ""
  params :=
    match child? "parameters" children with
    | some list => .ofItems source list.children
    | none => .empty
  decorators := decorators
  isAsync := hasPart "async" children
  line := label.line

def ClassHeader.ofNode (source : ByteArray) (decorators : List Expr) (label : Label)
    (children : List Node) : ClassHeader :=
  let arguments := items (((child? "superclasses" children).map Node.children).getD [])
  { name := (text? source "name" children).getD ""
    bases := (arguments.filter (·.label.kind ≠ "keyword_argument")).map (Expr.ofNode source)
    keywords := (arguments.filter (·.label.kind = "keyword_argument")).map fun argument =>
      ⟨text? source "name" argument.children,
        (Expr.ofField? source "value" argument.children).getD (.missing argument.label.line)⟩
    decorators := decorators
    line := label.line }

/-- The decorators that hold an expression. -/
def decoratorsOf (source : ByteArray) (children : List Node) : List Expr :=
  ((items children).filter (·.label.kind = "decorator")).filterMap fun decorator =>
    Expr.ofFirst? source decorator.children

/-- The context expressions of a `with` statement. -/
def contextsOf (source : ByteArray) (children : List Node) : List Expr :=
  ((items children).filter (·.label.kind = "with_clause")).flatMap fun clause =>
    (items clause.children).filterMap fun item => Expr.ofField? source "value" item.children

/-- The exceptions that a handler with these children takes, and the name they get. -/
def handledOf (source : ByteArray) (children : List Node) : Option Expr × Option String :=
  match (items children).filter (·.label.kind ≠ "block") with
  | [] => (none, none)
  | [pattern] =>
    if pattern.label.kind = "as_pattern" then
      (Expr.ofFirst? source pattern.children,
        (items pattern.children)[1]?.map (·.label.text source))
    else (some (.ofNode source pattern), none)
  | kind :: name :: _ => (some (.ofNode source kind), some (name.label.text source))

/-! ## Imports -/

def Alias.ofNode (source : ByteArray) (node : Node) : Alias :=
  if node.label.kind = "aliased_import" then
    ⟨(text? source "name" node.children).getD "", text? source "alias" node.children⟩
  else ⟨node.label.text source, none⟩

def aliasesOf (source : ByteArray) (children : List Node) : List Alias :=
  (childrenAt "name" children).map (Alias.ofNode source)

/-- The module that an import names, and the number of dots before it. -/
def importedModule (source : ByteArray) (children : List Node) : Option String × Nat :=
  match child? "module_name" children with
  | none => (none, 0)
  | some name =>
    if name.label.kind = "relative_import" then
      let (dots, modules) := (items name.children).partition (·.label.kind = "import_prefix")
      (modules.getLast?.map (·.label.text source),
        (dots.getLast?.map fun dots => (dots.label.text source).toList.count '.').getD 0)
    else (some (name.label.text source), 0)

def Stmt.ofImportFrom (source : ByteArray) (line : Nat) (children : List Node) : Stmt :=
  let (module, level) := importedModule source children
  let wildcard := if hasPart "wildcard_import" children then [⟨"*", none⟩] else []
  .importFrom module (aliasesOf source children ++ wildcard) level line

/-! ## Statements -/

namespace Stmt

mutual

def ofNode (source : ByteArray) : Node → Stmt
  | ⟨label, children⟩ =>
    let line := label.line
    match Statement.ofKind label.kind with
    | .functionDefinition =>
      .functionDef (.ofNode source [] label children) (blockAt source "body" children)
    | .classDefinition => .classDef (.ofNode source [] label children) (blockAt source "body" children)
    | .decorated =>
      (definition? source (decoratorsOf source children) children).getD (.other "ERROR" line)
    | .expression => ofExpressions source line children
    | .return => .return (Expr.ofFirst? source children) line
    | .branch =>
      .branch ((Expr.ofField? source "condition" children).getD (.missing line))
        (blockAt source "consequence" children) (elseChain source children) line
    | .while =>
      .while ((Expr.ofField? source "condition" children).getD (.missing line))
        (blockAt source "body" children) (elseBlock source children) line
    | .for =>
      .for ((Expr.ofField? source "left" children).getD (.missing line))
        ((Expr.ofField? source "right" children).getD (.missing line))
        (blockAt source "body" children) (elseBlock source children) (hasPart "async" children) line
    | .try =>
      .try (blockAt source "body" children) (handlers source children)
        ((lastElse? source children).getD []) ((lastFinally? source children).getD []) line
    | .with =>
      .with (contextsOf source children) (blockAt source "body" children) (hasPart "async" children)
        line
    | .importModules => .importModules (aliasesOf source children) line
    | .importFrom => ofImportFrom source line children
    | .importFuture => .importFrom (some "__future__") (aliasesOf source children) 0 line
    | .plain kind => .other kind line

/-- The items, each read as a statement. -/
def block (source : ByteArray) : List Node → List Stmt
  | [] => []
  | node :: rest =>
    if node.label.isItem then ofNode source node :: block source rest else block source rest

/-- The block that the first child with the field is. -/
def blockAt (source : ByteArray) (field : String) : List Node → List Stmt
  | [] => []
  | ⟨label, children⟩ :: rest =>
    if label.field = some field then block source children else blockAt source field rest

/-- The function or class that the decorators stand before. -/
def definition? (source : ByteArray) (decorators : List Expr) : List Node → Option Stmt
  | [] => none
  | ⟨label, children⟩ :: rest =>
    if label.field = some "definition" then
      match Statement.ofKind label.kind with
      | .functionDefinition =>
        some (.functionDef (.ofNode source decorators label children)
          (blockAt source "body" children))
      | .classDefinition =>
        some (.classDef (.ofNode source decorators label children) (blockAt source "body" children))
      | _ => none
    else definition? source decorators rest

/-- The statements of the alternatives of a conditional. -/
def elseChain (source : ByteArray) : List Node → List Stmt
  | [] => []
  | ⟨label, children⟩ :: rest =>
    if label.field = some "alternative" then
      if label.kind = "elif_clause" then
        [.branch ((Expr.ofField? source "condition" children).getD (.missing label.line))
          (blockAt source "consequence" children) (elseChain source rest) label.line]
      else blockAt source "body" children
    else elseChain source rest

/-- The block of the only alternative of a loop. -/
def elseBlock (source : ByteArray) : List Node → List Stmt
  | [] => []
  | ⟨label, children⟩ :: rest =>
    if label.field = some "alternative" then blockAt source "body" children
    else elseBlock source rest

/-- The first item that is a block. -/
def itemBlock (source : ByteArray) : List Node → List Stmt
  | [] => []
  | ⟨label, children⟩ :: rest =>
    if label.isItem && label.kind = "block" then block source children else itemBlock source rest

def handlers (source : ByteArray) : List Node → List Handler
  | [] => []
  | ⟨label, children⟩ :: rest =>
    if label.isItem && (label.kind = "except_clause" || label.kind = "except_group_clause") then
      let (kind, name) := handledOf source children
      ⟨kind, name, itemBlock source children, label.line⟩ :: handlers source rest
    else handlers source rest

def lastElse? (source : ByteArray) : List Node → Option (List Stmt)
  | [] => none
  | ⟨label, children⟩ :: rest =>
    (lastElse? source rest).or
      (if label.isItem && label.kind = "else_clause" then some (blockAt source "body" children)
      else none)

def lastFinally? (source : ByteArray) : List Node → Option (List Stmt)
  | [] => none
  | ⟨label, children⟩ :: rest =>
    (lastFinally? source rest).or
      (if label.isItem && label.kind = "finally_clause" then some (itemBlock source children)
      else none)

end

end Stmt

/-- The statements of a source whose concrete tree has this root. -/
def moduleOf (source : ByteArray) (root : Node) : List Stmt :=
  Stmt.block source root.children

end EntityGraph
