import EntityGraph.Extraction.References
import EntityGraph.Graph.Entity
import EntityGraph.Program.Stmt

/-!
# Bindings of assignments

* `Expr.targets` opens a target: tuples, lists and starred targets are replaced by what is in them;
* `Stmt.binding?` is the binding of an assignment, whose targets share the references of its value.
-/

namespace EntityGraph

namespace Expr

mutual

/-- The targets in an expression that is assigned to. Forms that cannot be bound give none. -/
def targets : Expr → Except UnexpectedCallee (List Target)
  | .name id _ => return [.name id]
  | .tuple elts _ | .list elts _ => targetsOfAll elts
  | .starred value _ => targets value
  | .attribute value attr _ => return [.attribute value.ownerToken attr]
  | .subscript value index _ => do
    let base ← value.references
    if index.isReference then
      let references ← index.references
      return [.subscript base (some references)]
    else return [.subscript base none]
  | _ => return []

def targetsOfAll : List Expr → Except UnexpectedCallee (List Target)
  | [] => return []
  | expr :: rest => do
    let first ← targets expr
    let further ← targetsOfAll rest
    return first ++ further

end

end Expr

/-- The binding of these targets to the value, if there is anything to bind. -/
def Variable.of? (targets : List Expr) (value : Expr) (line : Nat) :
    Except UnexpectedCallee (Option Variable) := do
  let pointsTo ← value.references
  let bound ← Expr.targetsOfAll targets
  return if bound.isEmpty then none else some ⟨bound, pointsTo, line⟩

/-- The binding of an assignment; an annotation without a value binds nothing. -/
def Stmt.binding? : Stmt → Except UnexpectedCallee (Option Variable)
  | .assign targets value line => Variable.of? targets value line
  | .augAssign target _ value line => Variable.of? [target] value line
  | .annAssign target _ (some value) line => Variable.of? [target] value line
  | _ => return none

end EntityGraph
