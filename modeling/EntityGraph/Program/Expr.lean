/-!
# Typed expressions

The expressions of a Python program as extraction reads them. Their kinds are those of the abstract
grammar of the language, so that a kind's name (`Compare`, `ListComp`) can stand for an expression
that is not looked into.

* `Expr` and `Keyword` are the expressions and the keyword arguments of calls;
* `Expr.line` is the line an expression starts on, `Expr.kindName` the name of its kind;
* `Expr.valueLink?` is the expression whose member, element or result it is.
-/

namespace EntityGraph

/-- A literal. Numbers keep the spelling of the source. -/
inductive Constant where
  | bool (value : Bool)
  | str (text : String)
  | number (spelling : String)
  | bytes (content : List UInt8)
  | ellipsis
  | none
  deriving DecidableEq

inductive ComprehensionKind where
  | list
  | set
  | dict
  | generator
  deriving DecidableEq

mutual

/-- An expression, with the line it starts on. A dictionary's missing key stands for the entries of
another mapping, and `other` for a kind that has no constructor of its own. -/
inductive Expr where
  | name (id : String) (line : Nat)
  | attribute (value : Expr) (attr : String) (line : Nat)
  | call (func : Expr) (args : List Expr) (keywords : List Keyword) (line : Nat)
  | binOp (left : Expr) (op : String) (right : Expr) (line : Nat)
  | unaryOp (op : String) (operand : Expr) (line : Nat)
  | boolOp (op : String) (values : List Expr) (line : Nat)
  | compare (left : Expr) (ops : List String) (comparators : List Expr) (line : Nat)
  | ifExp (test body orelse : Expr) (line : Nat)
  | subscript (value slice : Expr) (line : Nat)
  | slice (lower upper step : Option Expr) (line : Nat)
  | joinedStr (values : List Expr) (line : Nat)
  | formattedValue (value : Expr) (line : Nat)
  | constant (value : Constant) (line : Nat)
  | tuple (elts : List Expr) (line : Nat)
  | list (elts : List Expr) (line : Nat)
  | set (elts : List Expr) (line : Nat)
  | dict (keys : List (Option Expr)) (values : List Expr) (line : Nat)
  | comprehension (kind : ComprehensionKind) (line : Nat)
  | lambda (line : Nat)
  | await (value : Expr) (line : Nat)
  | yield (value : Option Expr) (line : Nat)
  | yieldFrom (value : Expr) (line : Nat)
  | starred (value : Expr) (line : Nat)
  | namedExpr (target value : Expr) (line : Nat)
  | other (kind : String) (line : Nat)

/-- A keyword argument. Without a name it passes the entries of a mapping. -/
structure Keyword where
  arg : Option String
  value : Expr

end

def ComprehensionKind.kindName : ComprehensionKind → String
  | .list => "ListComp"
  | .set => "SetComp"
  | .dict => "DictComp"
  | .generator => "GeneratorExp"

namespace Expr

/-- What stands where the concrete tree has no expression. -/
def missing (line : Nat) : Expr :=
  .other "ERROR" line

def line : Expr → Nat
  | .name _ line | .attribute _ _ line | .call _ _ _ line | .binOp _ _ _ line | .unaryOp _ _ line
  | .boolOp _ _ line | .compare _ _ _ line | .ifExp _ _ _ line | .subscript _ _ line
  | .slice _ _ _ line | .joinedStr _ line | .formattedValue _ line | .constant _ line | .tuple _ line
  | .list _ line | .set _ line | .dict _ _ line | .comprehension _ line | .lambda line | .await _ line
  | .yield _ line | .yieldFrom _ line | .starred _ line | .namedExpr _ _ line | .other _ line => line

def kindName : Expr → String
  | .name .. => "Name"
  | .attribute .. => "Attribute"
  | .call .. => "Call"
  | .binOp .. => "BinOp"
  | .unaryOp .. => "UnaryOp"
  | .boolOp .. => "BoolOp"
  | .compare .. => "Compare"
  | .ifExp .. => "IfExp"
  | .subscript .. => "Subscript"
  | .slice .. => "Slice"
  | .joinedStr .. => "JoinedStr"
  | .formattedValue .. => "FormattedValue"
  | .constant .. => "Constant"
  | .tuple .. => "Tuple"
  | .list .. => "List"
  | .set .. => "Set"
  | .dict .. => "Dict"
  | .comprehension kind _ => kind.kindName
  | .lambda .. => "Lambda"
  | .await .. => "Await"
  | .yield .. => "Yield"
  | .yieldFrom .. => "YieldFrom"
  | .starred .. => "Starred"
  | .namedExpr .. => "NamedExpr"
  | .other kind _ => kind

/-- The expression that an expression takes its value from, where there is one such. -/
def valueLink? : Expr → Option Expr
  | .attribute value _ _ | .subscript value _ _ | .formattedValue value _ | .await value _
  | .yieldFrom value _ | .starred value _ | .namedExpr _ value _ => some value
  | .yield value _ => value
  | _ => none

/-- Whether the expression is a name or the attribute of one, the forms that an index refers by. -/
def isReference : Expr → Bool
  | .name .. | .attribute .. => true
  | _ => false

end Expr

end EntityGraph
