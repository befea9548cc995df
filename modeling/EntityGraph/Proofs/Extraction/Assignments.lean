import EntityGraph.Proofs.Concrete.Strings
import EntityGraph.Proofs.Extraction.Members
import EntityGraph.Proofs.Extraction.Success

/-!
# Assignments to several targets

An assignment binds all its targets to one value, whether they are chained (`a = b = v`) or nested
(`a, [b, *c] = v`). What it binds are the leaves of the targets, from left to right.

* `TargetLeaf`, `Expr.boundLeaves`: what can be bound, and what of it is in a target;
* `Expr.targets_eq_mapM`: what a target binds are its leaves, one by one;
* `Chained`: the targets and the value of assignments on one another's right-hand side;
* `ofAssignment_chained`: a chain is read as one assignment;
* `binding?_leaves`: the binding of an assignment, of a chain or of one tuple.
-/

namespace EntityGraph

open Concrete

/-! ## Leaves -/

/-- What can be bound: a name, an attribute of a value, or an element of one. -/
inductive TargetLeaf where
  | name (id : String)
  | attribute (value : Expr) (attr : String)
  | element (value index : Expr)

/-- What the leaf is bound as. An element is known by the references of its value, and of its index where
that is a name or an attribute. -/
def TargetLeaf.target : TargetLeaf → Except UnexpectedCallee Target
  | .name id => return .name id
  | .attribute value attr => return .attribute value.ownerToken attr
  | .element value index => do
    let base ← value.references
    if index.isReference then
      let further ← index.references
      return .subscript base (some further)
    else return .subscript base none

namespace Expr

/-- The leaf that an expression is. Calls, constants and the like cannot be bound. -/
def leaf? : Expr → Option TargetLeaf
  | .name id _ => some (.name id)
  | .attribute value attr _ => some (.attribute value attr)
  | .subscript value index _ => some (.element value index)
  | _ => none

/-- What can be bound in a target, from left to right. -/
def boundLeaves (target : Expr) : List TargetLeaf :=
  target.targetLeaves.filterMap leaf?

theorem filterMap_targetLeavesOfAll (targets : List Expr) :
    (targetLeavesOfAll targets).filterMap leaf? = targets.flatMap boundLeaves := by
  induction targets with
  | nil => rfl
  | cons target rest ih => rw [targetLeavesOfAll, List.filterMap_append, ih, List.flatMap_cons, boundLeaves]

mutual

/-- What a target binds are its leaves, each bound in its turn. -/
theorem targets_eq_mapM : ∀ e : Expr, e.targets = e.boundLeaves.mapM TargetLeaf.target
  | .tuple elts _ | .list elts _ => by
    rw [targets, boundLeaves, targetLeaves, filterMap_targetLeavesOfAll]
    exact targetsOfAll_eq_mapM elts
  | .starred value _ => by
    rw [targets, boundLeaves, targetLeaves]
    exact targets_eq_mapM value
  | .subscript value index _ => by
    show _ = [TargetLeaf.element value index].mapM TargetLeaf.target
    rw [targets, List.mapM_cons, List.mapM_nil, TargetLeaf.target]
    cases value.references with
    | error fault => rfl
    | ok base =>
      cases index.isReference with
      | false => rfl
      | true => cases index.references <;> rfl
  | .name .. | .attribute .. | .call .. | .binOp .. | .unaryOp .. | .boolOp .. | .compare ..
  | .ifExp .. | .slice .. | .joinedStr .. | .formattedValue .. | .constant .. | .set .. | .dict ..
  | .comprehension .. | .lambda .. | .await .. | .yield .. | .yieldFrom .. | .namedExpr ..
  | .other .. => rfl

theorem targetsOfAll_eq_mapM :
    ∀ exprs : List Expr, targetsOfAll exprs = (exprs.flatMap boundLeaves).mapM TargetLeaf.target
  | [] => rfl
  | expr :: rest => by
    rw [targetsOfAll, targets_eq_mapM expr, targetsOfAll_eq_mapM rest, List.flatMap_cons, List.mapM_append]

end

end Expr

/-! ## Chains -/

/-- The node is an assignment without an annotation, of these targets and this value: what is assigned
stands on its right-hand side, or is what the assignment there assigns to its own targets. -/
inductive Chained : Node → List Node → Node → Prop
  | last {node target value : Node} : node.label.kind = "assignment" →
    child? "type" node.children = none → child? "left" node.children = some target →
    child? "right" node.children = some value → value.label.kind ≠ "assignment" →
    Chained node [target] value
  | nested {node target inner value : Node} {targets : List Node} : node.label.kind = "assignment" →
    child? "type" node.children = none → child? "left" node.children = some target →
    child? "right" node.children = some inner → Chained inner targets value →
    Chained node (target :: targets) value

namespace Chained

variable {node value : Node} {targets : List Node}

theorem kind_eq (h : Chained node targets value) : node.label.kind = "assignment" := by
  cases h <;> assumption

theorem type_eq_none (h : Chained node targets value) : child? "type" node.children = none := by
  cases h <;> assumption

theorem assignedTargetsIn_eq (source : ByteArray) (h : Chained node targets value) :
    assignedTargetsIn source node = targets.map (Expr.ofNode source) := by
  induction h with
  | last hkind _ hleft hright hvalue =>
    -- The value is no assignment, and adds no targets.
    have hnone : assignedTargetsIn source _ = [] := if_neg hvalue
    rw [assignedTargetsIn, if_pos hkind, Expr.ofField?_eq, hleft, assignedTargets_eq, hright,
      Option.map_some, Option.map_some, Option.getD_some, Option.getD_some, hnone]
    rfl
  | nested hkind _ hleft hright _ ih =>
    rw [assignedTargetsIn, if_pos hkind, Expr.ofField?_eq, hleft, assignedTargets_eq, hright,
      Option.map_some, Option.map_some, Option.getD_some, Option.getD_some, ih]
    rfl

theorem assignedValueIn?_eq (source : ByteArray) (h : Chained node targets value) :
    assignedValueIn? source node = some (Expr.ofNode source value) := by
  induction h with
  | last hkind _ _ hright hvalue =>
    rw [assignedValueIn?, if_pos hkind, assignedValue?_eq, hright, Option.bind_some, assignedValueIn?,
      if_neg hvalue]
  | nested hkind _ _ hright _ ih =>
    rw [assignedValueIn?, if_pos hkind, assignedValue?_eq, hright, Option.bind_some, ih]

end Chained

/-- A chain of assignments is read as one, with all targets in order and the value at the end. -/
theorem ofAssignment_chained (source : ByteArray) {node value : Node} {targets : List Node}
    (h : Chained node targets value) :
    Stmt.ofAssignment source node =
      .assign (targets.map (Expr.ofNode source)) (Expr.ofNode source value) node.label.line := by
  have htargets := h.assignedTargetsIn_eq source
  have hvalue := h.assignedValueIn?_eq source
  rw [assignedTargetsIn, if_pos h.kind_eq] at htargets
  rw [assignedValueIn?, if_pos h.kind_eq] at hvalue
  rw [Stmt.ofAssignment, Expr.ofField?_eq source "type", h.type_eq_none, hvalue, ← htargets]
  rfl

theorem ofNode_expression (source : ByteArray) {label : Label} {children : List Node} {node : Node}
    (hkind : label.kind = "expression_statement") (hitems : items children = [node])
    (hnode : node.label.kind = "assignment") :
    Stmt.ofNode source ⟨label, children⟩ = Stmt.ofAssignment source node := by
  rw [Stmt.ofNode, hkind]
  show Stmt.ofExpressions source label.line children = _
  rw [Stmt.ofExpressions, hitems]
  simp only [hnode]

/-! ## Bindings -/

/-- Targets are opened one after the other, as the elements of a tuple are. -/
theorem Stmt.binding?_assign (targets : List Expr) (value : Expr) (line : Nat) :
    (Stmt.assign targets value line).binding? = do
      let pointsTo ← value.references
      let bound ← (targets.flatMap Expr.boundLeaves).mapM TargetLeaf.target
      return if bound.isEmpty then none else some ⟨bound, pointsTo, line⟩ := by
  rw [binding?, Variable.of?, Expr.targetsOfAll_eq_mapM]

theorem Stmt.binding?_assign_eq_ok {targets : List Expr} {value : Expr} {line : Nat}
    {found : Option Variable} :
    (Stmt.assign targets value line).binding? = .ok found ↔
      ∃ pointsTo bound, value.references = .ok pointsTo ∧
        List.Forall₂ (fun leaf target => leaf.target = .ok target)
          (targets.flatMap Expr.boundLeaves) bound ∧
        found =
          if (targets.flatMap Expr.boundLeaves).isEmpty then none else some ⟨bound, pointsTo, line⟩ := by
  have hempty {leaves : List TargetLeaf} {bound : List Target}
      (h : List.Forall₂ (fun leaf target => leaf.target = .ok target) leaves bound) :
      bound.isEmpty = leaves.isEmpty := by
    cases h <;> rfl
  rw [binding?_assign]
  simp only [bind_eq_ok, pure_eq_ok, mapM_eq_ok]
  constructor
  · rintro ⟨pointsTo, hvalue, bound, hbound, rfl⟩
    exact ⟨pointsTo, bound, hvalue, hbound, by rw [hempty hbound]⟩
  · rintro ⟨pointsTo, bound, hvalue, hbound, rfl⟩
    exact ⟨pointsTo, hvalue, bound, hbound, by rw [hempty hbound]⟩

theorem Stmt.binding?_tuple (targets : List Expr) (value : Expr) (line tupleLine : Nat) :
    (Stmt.assign [.tuple targets tupleLine] value line).binding? =
      (Stmt.assign targets value line).binding? := by
  have hleaves : (Expr.tuple targets tupleLine).boundLeaves = targets.flatMap Expr.boundLeaves := by
    rw [Expr.boundLeaves, Expr.targetLeaves, Expr.filterMap_targetLeavesOfAll]
  rw [binding?_assign, binding?_assign, List.flatMap_singleton, hleaves]

/-- A chain of assignments, each the right-hand side of the one before it, is read as one assignment of
its value to all targets in their order. An assignment succeeds exactly if the references of its value
and all leaves of its targets do. Then the leaves in their order share these references, and there is no
binding exactly if there are no leaves. One tuple of the targets gives the same, be it a fault. -/
theorem binding?_leaves (source : ByteArray) :
    (∀ (label : Label) (children : List Node) (node value : Node) (targets : List Node),
      label.kind = "expression_statement" → items children = [node] → Chained node targets value →
        Stmt.ofNode source ⟨label, children⟩ =
          .assign (targets.map (Expr.ofNode source)) (Expr.ofNode source value) node.label.line) ∧
    ∀ (targets : List Expr) (value : Expr) (line : Nat),
      (∀ found, (Stmt.assign targets value line).binding? = .ok found ↔
        ∃ pointsTo bound, value.references = .ok pointsTo ∧
          List.Forall₂ (fun leaf target => leaf.target = .ok target)
            (targets.flatMap Expr.boundLeaves) bound ∧
          found =
            if (targets.flatMap Expr.boundLeaves).isEmpty then none else some ⟨bound, pointsTo, line⟩) ∧
      ∀ tupleLine, (Stmt.assign [.tuple targets tupleLine] value line).binding? =
        (Stmt.assign targets value line).binding? := by
  refine ⟨fun label children node value targets hkind hitems hchain => ?_, fun targets value line =>
    ⟨fun found => Stmt.binding?_assign_eq_ok, Stmt.binding?_tuple targets value line⟩⟩
  rw [ofNode_expression source hkind hitems hchain.kind_eq, ofAssignment_chained source hchain]

namespace Concrete

/-- The targets in `a = (b, [*c, d.e]) = f[i] = v`. -/
def sampleTargets : List Node :=
  [samplePart "identifier" (some "left") 0 1 [],
    samplePart "tuple_pattern" (some "left") 4 18
      [samplePart "identifier" none 5 6 [],
        samplePart "list_pattern" none 8 17
          [samplePart "list_splat_pattern" none 9 11 [samplePart "identifier" none 10 11 []],
            samplePart "attribute" none 13 16
              [samplePart "identifier" (some "object") 13 14 [],
                samplePart "identifier" (some "attribute") 15 16 []]]],
    samplePart "subscript" (some "left") 21 25
      [samplePart "identifier" (some "value") 21 22 [],
        samplePart "identifier" (some "subscript") 23 24 []]]

/-- The value in `a = (b, [*c, d.e]) = f[i] = v`. -/
def sampleValue : Node :=
  samplePart "identifier" (some "right") 28 29 []

/-- The assignment of the value to these targets, each in an assignment of its own. -/
def sampleChain : List Node → Node
  | [] => sampleValue
  | target :: rest => samplePart "assignment" (some "right") 0 29 [target, sampleChain rest]

theorem sampleChain_chained : Chained (sampleChain sampleTargets) sampleTargets sampleValue :=
  .nested rfl rfl rfl rfl (.nested rfl rfl rfl rfl (.last rfl rfl rfl rfl (by decide)))

end Concrete

theorem binding?_leaves_chain : ∃ targets value,
    Stmt.ofNode "a = (b, [*c, d.e]) = f[i] = v".toUTF8
        (samplePart "expression_statement" none 0 29 [sampleChain sampleTargets]) =
      .assign targets value 1 ∧
    (Stmt.assign targets value 1).binding? =
      .ok (some ⟨[.name "a", .name "b", .name "c", .attribute "d" "e",
        .subscript [.name "f"] (some [.name "i"])], [.name "v"], 1⟩) := by
  have hall := binding?_leaves "a = (b, [*c, d.e]) = f[i] = v".toUTF8
  refine ⟨_, _, hall.1 _ _ _ _ _ rfl rfl sampleChain_chained, ((hall.2 _ _ 1).1 _).mpr ?_⟩
  refine ⟨_, _, rfl, ?_, rfl⟩
  exact .cons rfl (.cons rfl (.cons rfl (.cons rfl (.cons rfl .nil))))

end EntityGraph
