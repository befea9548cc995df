import EntityGraph.Proofs.Extraction.EntryGuard
import EntityGraph.Proofs.Extraction.Shape
import EntityGraph.Proofs.Graph.Order

/-!
# Processes in source order

The lines of a process are lines of its source, in the same order: those of the statements that run, and
those of the callees of the calls that a statement makes of its own. `Stmt.sourceLinesAll` lists them
from top to bottom.

* `Stmt.lines_process`, `lines_walk`: the lines of the entities, at every depth, are found among those of
  the statements, none moved before another;
* `walk_inOrder`: entities of statements whose lines do not decrease are in order at every depth.
-/

namespace EntityGraph

/-! ## Lines of the source -/

namespace Expr

mutual

/-- The lines of the callees of the calls among the operands of an expression and in the segments of a
string, from left to right. Calls elsewhere, in arguments or in tests, are no entities of their own. -/
def calleeLines : Expr → List Nat
  | .binOp left _ right _ => calleeLines left ++ calleeLines right
  | .unaryOp _ operand _ => calleeLines operand
  | .call func _ _ _ => [func.line]
  | .subscript value _ _ => calleeLines value
  | .joinedStr values _ => calleeLinesOfSegments values
  | _ => []

def calleeLinesOfSegments : List Expr → List Nat
  | [] => []
  | .formattedValue value _ :: rest => calleeLines value ++ calleeLinesOfSegments rest
  | _ :: rest => calleeLinesOfSegments rest

end

end Expr

namespace Stmt

mutual

/-- The line of a statement, followed by those of the callees in its value or of the statements that run
in it, from top to bottom: those of an `else` come last. -/
def sourceLines : Stmt → List Nat
  | .branch _ body orelse line => line :: (sourceLinesAll body ++ sourceLinesAll orelse)
  | .while _ body _ line | .try body _ _ _ line => line :: sourceLinesAll body
  | .expr value line | .return (some value) line => line :: value.calleeLines
  | stmt => [stmt.line]

def sourceLinesAll : List Stmt → List Nat
  | [] => []
  | stmt :: rest => sourceLines stmt ++ sourceLinesAll rest

end

end Stmt

/-! ## Lines of calls -/

/-- The lines of the calls among references, in order. -/
def Reference.callLines (references : List Reference) : List Nat :=
  (references.filterMap Reference.call?).map Call.line

theorem Reference.callLines_append (first second : List Reference) :
    callLines (first ++ second) = callLines first ++ callLines second := by
  rw [callLines, List.filterMap_append, List.map_append]
  rfl

theorem Reference.callLines_toList (made : Option Call) :
    callLines (made.map Reference.call).toList = (made.map Call.line).toList := by
  cases made <;> rfl

/-- A call is on the line of its callee. -/
theorem Call.of?_line (func : Expr) (takenVar : List Reference) :
    Ensures (fun made => (made.map Call.line).toList.Sublist [func.line]) (Call.of? func takenVar) := by
  intro made hmade
  cases made with
  | none => exact List.nil_sublist _
  | some call =>
    rw [← (Call.of?_eq_some hmade).2]
    exact List.Sublist.refl _

namespace Expr

/-- An index that is a reference is no call. -/
theorem callLines_of_isReference {e : Expr} (h : e.isReference = true) :
    Ensures (fun references => Reference.callLines references = []) e.references := by
  intro references hreferences
  obtain ⟨reference, rfl, hindex, -⟩ := references_of_isReference h references hreferences
  cases reference with
  | name | «attribute» => rfl
  | _ => exact hindex.elim

mutual

theorem callLines_references : ∀ e : Expr,
    Ensures (fun references => (Reference.callLines references).Sublist e.calleeLines) e.references
  | .binOp left _ right _ => by
    rw [references]
    refine (callLines_references left).bind fun first hfirst => ?_
    refine (callLines_references right).bind_pure fun second hsecond => ?_
    rw [Reference.callLines_append]
    exact hfirst.append hsecond
  | .unaryOp _ operand _ => by
    rw [references]
    exact callLines_references operand
  | .call func args keywords _ => by
    rw [references]
    refine .bind_of_forall fun positional => .bind_of_forall fun named => ?_
    refine (Call.of?_line func (positional ++ named)).bind_pure fun made hmade => ?_
    rw [Reference.callLines_toList, calleeLines]
    exact hmade
  | .attribute value attr _ => by
    rw [references]
    exact .bind_of_forall fun owner => .pure (List.nil_sublist _)
  | .name id _ => .pure (List.nil_sublist _)
  | .subscript value index _ => by
    rw [references]
    refine (callLines_references value).bind fun base hbase => ?_
    split
    · next hindex =>
      refine (callLines_of_isReference hindex).bind_pure fun further hfurther => ?_
      rw [Reference.callLines_append, hfurther, List.append_nil]
      exact hbase
    · exact .pure hbase
  | .joinedStr values _ => by
    rw [references]
    exact callLines_referencesOfSegments values
  | .ifExp test body orelse line => by
    rw [references]
    refine .bind_of_forall fun process => .bind_of_forall fun otherwise => ?_
    exact .bind_of_forall fun condition => .pure (List.nil_sublist _)
  | .boolOp .. | .compare .. | .slice .. | .formattedValue .. | .constant .. | .tuple .. | .list ..
  | .set .. | .dict .. | .comprehension .. | .lambda .. | .await .. | .yield .. | .yieldFrom ..
  | .starred .. | .namedExpr .. | .other .. => .pure (List.nil_sublist _)

theorem callLines_referencesOfSegments : ∀ segments : List Expr,
    Ensures (fun references => (Reference.callLines references).Sublist (calleeLinesOfSegments segments))
      (referencesOfSegments segments)
  | [] => .pure (List.nil_sublist _)
  | segment :: rest => by
    have hrest := callLines_referencesOfSegments rest
    match segment with
    | .formattedValue value _ =>
      refine (callLines_references value).bind fun first hfirst => ?_
      refine hrest.bind_pure fun further hfurther => ?_
      rw [Reference.callLines_append]
      exact hfirst.append hfurther
    | .name .. | .attribute .. | .call .. | .binOp .. | .unaryOp .. | .boolOp .. | .compare ..
    | .ifExp .. | .subscript .. | .slice .. | .joinedStr .. | .constant .. | .tuple .. | .list ..
    | .set .. | .dict .. | .comprehension .. | .lambda .. | .await .. | .yield .. | .yieldFrom ..
    | .starred .. | .namedExpr .. | .other .. => exact hrest

end

theorem call?_line (e : Expr) :
    Ensures (fun made => (made.map Call.line).toList.Sublist e.calleeLines) e.call? := by
  cases e with
  | call func args keywords line =>
    rw [calleeLines]
    exact .bind_of_forall fun positional => .bind_of_forall fun named => Call.of?_line func _
  | _ => exact .pure (List.nil_sublist _)

end Expr

/-! ## Lines of statements -/

/-- The lines of two processes, one after the other. -/
theorem Entity.lines_append {x y : Except UnexpectedCallee (List Entity)} {earlier later : List Nat}
    (hx : Ensures (fun entities => (linesAll entities).Sublist earlier) x)
    (hy : Ensures (fun entities => (linesAll entities).Sublist later) y) :
    Ensures (fun entities => (linesAll entities).Sublist (earlier ++ later))
      (do let first ← x; let further ← y; return first ++ further) := by
  refine hx.bind fun first hfirst => hy.bind_pure fun further hfurther => ?_
  rw [linesAll_append]
  exact hfirst.append hfurther

namespace Stmt

/-- The binding of a statement is on its line. -/
theorem lines_binding (stmt : Stmt) :
    Ensures (fun entities => (Entity.linesAll entities).Sublist [stmt.line])
      (do let bound ← stmt.binding?; return (bound.map Entity.binding).toList) := by
  intro entities hentities
  obtain ⟨bound, hbound, hreturn⟩ := bind_eq_ok.mp hentities
  cases hreturn
  cases bound with
  | none => exact List.nil_sublist _
  | some binding =>
    obtain ⟨targets, value, hbinding⟩ := binding?_eq_some hbound
    rw [← (Variable.of?_eq_some hbinding).2.2.2]
    exact List.Sublist.refl _

mutual

theorem lines_process : ∀ stmt : Stmt,
    Ensures (fun entities => (Entity.linesAll entities).Sublist stmt.sourceLines) stmt.process
  | .branch test body orelse line => by
    rw [process]
    refine (lines_processAll orelse).bind fun otherwise hotherwise => ?_
    refine .bind_of_forall fun condition => ?_
    refine (lines_processAll body).bind_pure fun inner hinner => ?_
    have helse : (Entity.linesIn (if orelse.isEmpty then none else some otherwise)).Sublist
        (sourceLinesAll orelse) := by
      split
      · exact List.nil_sublist _
      · exact hotherwise
    rw [Entity.linesAll_singleton, Entity.lines, sourceLines]
    exact (hinner.append helse).cons_cons line
  | .while test body orelse line => by
    rw [process]
    refine .bind_of_forall fun condition => ?_
    refine (lines_processAll body).bind_pure fun inner hinner => ?_
    rw [Entity.linesAll_singleton, Entity.lines, Entity.linesIn, List.append_nil, sourceLines]
    exact hinner.cons_cons line
  | .try body handlers orelse finalbody line => by
    rw [process]
    refine (lines_processAll body).bind_pure fun inner hinner => ?_
    rw [Entity.linesAll_singleton, Entity.lines, Entity.linesIn, List.append_nil, sourceLines]
    exact hinner.cons_cons line
  | .expr value line => by
    rw [process]
    refine value.call?_line.bind_pure fun made hmade => ?_
    have hlines : Entity.linesAll (made.map Entity.call).toList = (made.map Call.line).toList := by
      cases made <;> rfl
    rw [hlines, sourceLines]
    exact hmade.cons line
  | .return (some value) line => by
    rw [process]
    refine value.callLines_references.bind_pure fun references hreferences => ?_
    rw [Entity.linesAll_map_call, sourceLines]
    exact hreferences.cons line
  | .return none line => lines_binding (.return none line)
  | .assign targets value line => lines_binding (.assign targets value line)
  | .augAssign target op value line => lines_binding (.augAssign target op value line)
  | .annAssign target annotation value line =>
    lines_binding (.annAssign target annotation value line)
  | .functionDef .. | .classDef .. | .for .. | .with .. | .importModules .. | .importFrom ..
  | .other .. => .pure (List.nil_sublist _)

theorem lines_processAll : ∀ body : List Stmt,
    Ensures (fun entities => (Entity.linesAll entities).Sublist (sourceLinesAll body)) (processAll body)
  | [] => .pure (List.nil_sublist _)
  | stmt :: rest => by
    rw [processAll]
    exact Entity.lines_append (lines_process stmt) (lines_processAll rest)

end

end Stmt

/-! ## Lines of walks -/

section Walks

variable {settings : Settings}

/-- The lines of the body of an entry guard are among its own. -/
theorem Stmt.sourceLinesAll_guardBody {stmt : Stmt} {body : List Stmt}
    (h : stmt.guardBody? settings = some body) : (sourceLinesAll body).Sublist stmt.sourceLines := by
  unfold guardBody? at h
  split at h
  · split at h
    · cases h
      exact (List.sublist_append_left _ _).cons _
    · cases h
  · cases h

theorem Stmt.lines_rootProcess (stmt : Stmt) :
    Ensures (fun entities => (Entity.linesAll entities).Sublist stmt.sourceLines)
      (stmt.rootProcess settings) := by
  rw [rootProcess]
  cases hguard : stmt.guardBody? settings with
  | none => exact lines_process stmt
  | some body =>
    intro entities hentities
    exact (lines_processAll body entities hentities).trans (sourceLinesAll_guardBody hguard)

/-- The lines of a walk, at every depth, are lines of the statements, in their order. -/
theorem lines_walk (isRoot : Bool) (body : List Stmt) :
    Ensures (fun entities => (Entity.linesAll entities).Sublist (Stmt.sourceLinesAll body))
      (walk settings isRoot body) := by
  induction body with
  | nil => exact .pure (List.nil_sublist _)
  | cons stmt rest ih =>
    rw [walk]
    split
    · exact Entity.lines_append stmt.lines_rootProcess ih
    · exact Entity.lines_append stmt.lines_process ih

/-- If the lines of the statements and of the callees in them do not decrease from top to bottom, then
the entities of a walk are in order: those of its list and those of each list in a conditional do not
decrease in lines, none in a conditional is on a line before it, and none in an `else` on a line before
those in the process beside it. Lines that no entity can have, such as those of tests and of loops over
elements, do not matter. -/
theorem walk_inOrder {isRoot : Bool} {body : List Stmt} {entities : List Entity}
    (hlines : (Stmt.sourceLinesAll body).Pairwise (· ≤ ·))
    (hwalk : walk settings isRoot body = .ok entities) : Entity.InOrder entities :=
  Entity.inOrder_of_pairwise (hlines.sublist (lines_walk isRoot body entities hwalk))

/-- An entry guard on line 1 over `if r(x):` with `go()` and `wait()` in its branches, and then
`return first(x) + self.second(y)`. -/
def sampleGuarded : List Stmt :=
  [.branch (.compare (.name "__name__" 1) ["=="] [.constant (.str "main") 1] 1)
      [.branch (.call (.name "r" 2) [.name "x" 2] [] 2)
        [.expr (.call (.name "go" 3) [] [] 3) 3] [.expr (.call (.name "wait" 5) [] [] 5) 5] 2] [] 1,
    .return (some (.binOp (.call (.name "first" 6) [.name "x" 6] [] 6) "+"
      (.call (.attribute (.name "self" 7) "second" 7) [.name "y" 7] [] 7) 6)) 6]

theorem walk_inOrder_guarded : ∃ entities,
    walk .default true sampleGuarded = .ok entities ∧ entities.map Entity.line = [2, 6, 7] ∧
      (Stmt.sourceLinesAll sampleGuarded).Pairwise (· ≤ ·) ∧ Entity.InOrder entities := by
  have hlines : (Stmt.sourceLinesAll sampleGuarded).Pairwise (· ≤ ·) := by decide
  exact ⟨_, rfl, rfl, hlines, @walk_inOrder .default true sampleGuarded _ hlines rfl⟩

end Walks

end EntityGraph
