import EntityGraph.Program.Expr

/-!
# Typed statements

The statements of a Python program as extraction reads them.

* `Stmt` and `Handler` are the statements and the exception handlers of `try`;
* `Stmt.line` is the line a statement starts on, `Stmt.kindName` the name of its kind;
* `Stmt.blocks` are the statement lists directly inside a statement, in source order;
* `Stmt.preorder` are a statement and all statements below it, each before those below it.
-/

namespace EntityGraph

/-- The names of a parameter list, by how arguments reach them. -/
structure Parameters where
  posonly : List String
  args : List String
  vararg : Option String
  kwonly : List String
  kwarg : Option String
  deriving DecidableEq

/-- What a function definition says apart from its body. -/
structure FunctionHeader where
  name : String
  params : Parameters
  decorators : List Expr
  isAsync : Bool
  line : Nat

/-- What a class definition says apart from its body. -/
structure ClassHeader where
  name : String
  bases : List Expr
  keywords : List Keyword
  decorators : List Expr
  line : Nat

/-- An imported name, and the name it is bound to if that is another. -/
structure Alias where
  name : String
  asname : Option String
  deriving DecidableEq

mutual

/-- A statement, with the line it starts on; `other` is a kind that has no constructor of its own. -/
inductive Stmt where
  | functionDef (header : FunctionHeader) (body : List Stmt)
  | classDef (header : ClassHeader) (body : List Stmt)
  | assign (targets : List Expr) (value : Expr) (line : Nat)
  | augAssign (target : Expr) (op : String) (value : Expr) (line : Nat)
  | annAssign (target annotation : Expr) (value : Option Expr) (line : Nat)
  | expr (value : Expr) (line : Nat)
  | return (value : Option Expr) (line : Nat)
  | branch (test : Expr) (body orelse : List Stmt) (line : Nat)
  | while (test : Expr) (body orelse : List Stmt) (line : Nat)
  | for (target iter : Expr) (body orelse : List Stmt) (isAsync : Bool) (line : Nat)
  | try (body : List Stmt) (handlers : List Handler) (orelse finalbody : List Stmt) (line : Nat)
  | with (items : List Expr) (body : List Stmt) (isAsync : Bool) (line : Nat)
  | importModules (names : List Alias) (line : Nat)
  | importFrom (module : Option String) (names : List Alias) (level : Nat) (line : Nat)
  | other (kind : String) (line : Nat)

/-- An exception handler: the exceptions it takes, the name they get, and what it does. -/
structure Handler where
  kind : Option Expr
  name : Option String
  body : List Stmt
  line : Nat

end

namespace Stmt

def line : Stmt → Nat
  | .functionDef header _ => header.line
  | .classDef header _ => header.line
  | .assign _ _ line | .augAssign _ _ _ line | .annAssign _ _ _ line | .expr _ line | .return _ line
  | .branch _ _ _ line | .while _ _ _ line | .for _ _ _ _ _ line | .try _ _ _ _ line
  | .with _ _ _ line | .importModules _ line | .importFrom _ _ _ line | .other _ line => line

def kindName : Stmt → String
  | .functionDef header _ => if header.isAsync then "AsyncFunctionDef" else "FunctionDef"
  | .classDef .. => "ClassDef"
  | .assign .. => "Assign"
  | .augAssign .. => "AugAssign"
  | .annAssign .. => "AnnAssign"
  | .expr .. => "Expr"
  | .return .. => "Return"
  | .branch .. => "If"
  | .while .. => "While"
  | .for _ _ _ _ isAsync _ => if isAsync then "AsyncFor" else "For"
  | .try .. => "Try"
  | .with _ _ isAsync _ => if isAsync then "AsyncWith" else "With"
  | .importModules .. => "Import"
  | .importFrom .. => "ImportFrom"
  | .other kind _ => kind

/-- The statement lists directly inside a statement, in source order, empty ones included. -/
def blocks : Stmt → List (List Stmt)
  | .functionDef _ body | .classDef _ body | .with _ body _ _ => [body]
  | .branch _ body orelse _ | .while _ body orelse _ | .for _ _ body orelse _ _ => [body, orelse]
  | .try body handlers orelse finalbody _ => body :: handlers.map Handler.body ++ [orelse, finalbody]
  | _ => []

mutual

/-- The statement and all statements below it, each before those below it. -/
def preorder : Stmt → List Stmt
  | .functionDef header body => .functionDef header body :: preorderAll body
  | .classDef header body => .classDef header body :: preorderAll body
  | .branch test body orelse line =>
    .branch test body orelse line :: (preorderAll body ++ preorderAll orelse)
  | .while test body orelse line =>
    .while test body orelse line :: (preorderAll body ++ preorderAll orelse)
  | .for target iter body orelse isAsync line =>
    .for target iter body orelse isAsync line :: (preorderAll body ++ preorderAll orelse)
  | .try body handlers orelse finalbody line =>
    .try body handlers orelse finalbody line ::
      (preorderAll body ++ preorderHandlers handlers ++ preorderAll orelse ++ preorderAll finalbody)
  | .with items body isAsync line => .with items body isAsync line :: preorderAll body
  | stmt => [stmt]

def preorderAll : List Stmt → List Stmt
  | [] => []
  | stmt :: rest => preorder stmt ++ preorderAll rest

def preorderHandlers : List Handler → List Stmt
  | [] => []
  | ⟨_, _, body, _⟩ :: rest => preorderAll body ++ preorderHandlers rest

end

end Stmt

end EntityGraph
