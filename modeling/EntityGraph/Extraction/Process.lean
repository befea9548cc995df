import EntityGraph.Extraction.Bindings
import EntityGraph.Settings

/-!
# Processes of statement lists

* `Stmt.process` are the entities of one statement, `Stmt.processAll` those of a list, in order;
* `Stmt.guardBody?` is the body of an entry guard: `if <token> == "<literal>":` without an `else`;
* `walk` are the entities of a list, with the body of an entry guard in its place at the top level.

Statements that neither call, bind nor decide what runs give no entities, and neither do those inside
loops over elements, contexts and exception handlers.
-/

namespace EntityGraph

namespace Stmt

mutual

def process : Stmt → Except UnexpectedCallee (List Entity)
  | .branch test body orelse line => do
    let otherwise ← processAll orelse
    let condition ← test.references
    let inner ← processAll body
    return [.logic .ifThen (some condition) inner
      (if orelse.isEmpty then none else some otherwise) line]
  | .while test body _ line => do
    let condition ← test.references
    let inner ← processAll body
    return [.logic .whileLoop (some condition) inner none line]
  | .try body _ _ _ line => do
    let inner ← processAll body
    return [.logic .tryBlock none inner none line]
  | .expr value _ => do
    let made ← value.call?
    return (made.map Entity.call).toList
  | .return (some value) _ => do
    let references ← value.references
    return (references.filterMap Reference.call?).map Entity.call
  | stmt => do
    let bound ← stmt.binding?
    return (bound.map Entity.binding).toList

def processAll : List Stmt → Except UnexpectedCallee (List Entity)
  | [] => return []
  | stmt :: rest => do
    let first ← process stmt
    let further ← processAll rest
    return first ++ further

end

/-! ## Entry guards -/

def guardBody? (settings : Settings) : Stmt → Option (List Stmt)
  | .branch (.compare (.name id _) [op] [.constant (.str literal) _] _) body [] _ =>
    if id = settings.entryGuardToken ∧ op = "==" ∧ literal = settings.entryGuardLiteral then
      some body
    else none
  | _ => none

def isEntryGuard (settings : Settings) (stmt : Stmt) : Bool :=
  (stmt.guardBody? settings).isSome

/-- The entities of a statement at the top level. -/
def rootProcess (settings : Settings) (stmt : Stmt) : Except UnexpectedCallee (List Entity) :=
  match stmt.guardBody? settings with
  | some body => processAll body
  | none => process stmt

end Stmt

/-- The entities of the statements in order, at the top level or below it. -/
def walk (settings : Settings) (isRoot : Bool) : List Stmt → Except UnexpectedCallee (List Entity)
  | [] => return []
  | stmt :: rest => do
    let first ← if isRoot then stmt.rootProcess settings else stmt.process
    let further ← walk settings isRoot rest
    return first ++ further

end EntityGraph
