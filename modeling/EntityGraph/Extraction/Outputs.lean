import EntityGraph.Graph.Declaration
import EntityGraph.Program.Dump
import EntityGraph.Program.Stmt

/-!
# Outputs of functions

* `Expr.outputs` decomposes a returned value: tuples and boolean operations into their elements,
  subscripts and dictionaries into pairs, arithmetic into its operands; any other expression is
  described by its dump;
* `functionOutputs` are the outputs of the `return` statements directly in a body, each value without
  its outermost grouping.
-/

namespace EntityGraph

namespace Expr

mutual

def outputs : Expr → List Output
  | .name id _ => [.name id]
  | .tuple elts _ => groups elts
  | .subscript value index _ => [.pair (outputs value) (outputs index)]
  | .dict keys values _ => List.zipWith Output.pair (outputsOfKeys keys) (outputsOfAll values)
  | .boolOp _ values _ => groups values
  | .constant value _ => [.constant value]
  | .binOp left _ right _ => [.binOp (outputs left) (outputs right)]
  | expr => [.dumped expr.dump]

/-- One group for each expression. -/
def groups : List Expr → List Output
  | [] => []
  | expr :: rest => .group (outputs expr) :: groups rest

def outputsOfAll : List Expr → List (List Output)
  | [] => []
  | expr :: rest => outputs expr :: outputsOfAll rest

def outputsOfKeys : List (Option Expr) → List (List Output)
  | [] => []
  | some key :: rest => outputs key :: outputsOfKeys rest
  | none :: rest => [] :: outputsOfKeys rest

end

end Expr

/-- The outputs in a group, or the output itself. -/
def Output.opened : Output → List Output
  | .group items => items
  | output => [output]

/-- The value that a statement returns. -/
def Stmt.returned? : Stmt → Option Expr
  | .return value _ => value
  | _ => none

def functionOutputs (body : List Stmt) : List Output :=
  (body.filterMap Stmt.returned?).flatMap fun value => value.outputs.flatMap Output.opened

end EntityGraph
