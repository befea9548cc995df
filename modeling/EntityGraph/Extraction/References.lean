import EntityGraph.Graph.Reference
import EntityGraph.Program.Expr

/-!
# References of expressions

* `Expr.references` are the references of an expression, from left to right;
* `Expr.call?` is the call that an expression is, where its callee can be resolved by name;
* `Expr.ownerToken` is the dotted path of what a callee is an attribute of.

The one thing that can go wrong is a callee of a form that no call should have: `UnexpectedCallee`.
-/

namespace EntityGraph

/-- A callee that is neither named nor known to be out of reach, and the line it is on. -/
structure UnexpectedCallee where
  kind : String
  line : Nat
  deriving DecidableEq

/-! ## Owners -/

/-- The names and attributes along the value links of an expression, the innermost first. -/
def Expr.ownerNames : Expr → List String
  | .name id _ => [id]
  | .attribute value attr _ => value.ownerNames ++ [attr]
  | .subscript value _ _ | .formattedValue value _ | .await value _ | .yieldFrom value _
  | .starred value _ | .namedExpr _ value _ => value.ownerNames
  | .yield (some value) _ => value.ownerNames
  | _ => []

/-- What stands for an owner without any name. -/
def unknownOwner : String := "unknown"

def Expr.ownerToken (receiver : Expr) : String :=
  match receiver.ownerNames with
  | [] => unknownOwner
  | names => ".".intercalate names

/-! ## Calls and receivers -/

/-- The call of `func` with these references among its arguments. There is none if the callee is
itself a value that is computed, or sits in a faulty piece of source. -/
def Call.of? (func : Expr) (takenVar : List Reference) : Except UnexpectedCallee (Option Call) :=
  match func with
  | .attribute value attr line => .ok (some ⟨attr, line, some value.ownerToken, takenVar⟩)
  | .name id line => .ok (some ⟨id, line, none, takenVar⟩)
  | .subscript .. | .call .. | .binOp .. => .ok none
  | .other kind line => if kind = "ERROR" then .ok none else .error ⟨kind, line⟩
  | callee => .error ⟨callee.kindName, callee.line⟩

/-- The receiver `value` of an attribute, given its references. A call without references is absent. -/
def Receiver.of (value : Expr) : List Reference → Receiver
  | [single] => .one single
  | [] =>
    match value with
    | .call .. => .absent
    | _ => .many []
  | several => .many several

/-! ## References -/

namespace Expr

mutual

def references : Expr → Except UnexpectedCallee (List Reference)
  | .binOp left _ right _ => do
    let first ← references left
    let second ← references right
    return first ++ second
  | .unaryOp _ operand _ => references operand
  | .call func args keywords _ => do
    let positional ← referencesOfAll args
    let named ← referencesOfKeywords keywords
    let made ← Call.of? func (positional ++ named)
    return (made.map Reference.call).toList
  | .attribute value attr _ => do
    let owner ← references value
    return [.attribute (.of value owner) attr]
  | .name id _ => return [.name id]
  | .subscript value index _ => do
    let base ← references value
    if index.isReference then
      let further ← references index
      return base ++ further
    else return base
  | .joinedStr values _ => referencesOfSegments values
  | .ifExp test body orelse line => do
    let process ← references body
    let otherwise ← references orelse
    let condition ← references test
    return [.logic .ifExp (some condition) process (some otherwise) line]
  | expr => return [.unmodeled expr.kindName]

def referencesOfAll : List Expr → Except UnexpectedCallee (List Reference)
  | [] => return []
  | expr :: rest => do
    let first ← references expr
    let further ← referencesOfAll rest
    return first ++ further

def referencesOfKeywords : List Keyword → Except UnexpectedCallee (List Reference)
  | [] => return []
  | ⟨_, value⟩ :: rest => do
    let first ← references value
    let further ← referencesOfKeywords rest
    return first ++ further

/-- The references of what is interpolated; nothing else of a string refers to anything. -/
def referencesOfSegments : List Expr → Except UnexpectedCallee (List Reference)
  | [] => return []
  | .formattedValue value _ :: rest => do
    let first ← references value
    let further ← referencesOfSegments rest
    return first ++ further
  | _ :: rest => referencesOfSegments rest

end

/-- The call that the expression is; none if it is no call, or its callee cannot be resolved. -/
def call? : Expr → Except UnexpectedCallee (Option Call)
  | .call func args keywords _ => do
    let positional ← referencesOfAll args
    let named ← referencesOfKeywords keywords
    Call.of? func (positional ++ named)
  | _ => return none

end Expr

end EntityGraph
