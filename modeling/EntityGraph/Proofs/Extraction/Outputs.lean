import EntityGraph.Proofs.Concrete.WellFormed
import Mathlib.Data.List.Basic

/-!
# Leaves of outputs

The outputs of a function are returned values, taken apart. Nothing of a value is lost or moved on the
way: read from left to right, its outputs have the leaves of the value.

* `OutputLeaf`, `Output.leaves`, `Expr.outputLeaves`: what is not taken apart any further, and where it
  is found in an output and in an expression;
* `leavesAll_outputs`: the leaves of the outputs of an expression are those of the expression;
* `Expr.elements?`, `Expr.ungrouped`: the elements of a value that is grouped by element, and its outputs
  out of these groups;
* `functionOutputs_leaves`: the leaves of the outputs of a function, and the grouping that is left;
* `leavesAll_functionOutputs_ofNode`: a function that is read from a source always keeps its leaves.
-/

namespace EntityGraph

/-! ## Leaves -/

/-- What is not taken apart any further: a name, a constant, or the dump of an expression. -/
inductive OutputLeaf where
  | name (id : String)
  | constant (value : Constant)
  | dumped (dump : String)

namespace Output

mutual

/-- The leaves of an output, from left to right through groups, pairs and operations. -/
def leaves : Output → List OutputLeaf
  | .name id => [.name id]
  | .constant value => [.constant value]
  | .dumped dump => [.dumped dump]
  | .group items => leavesAll items
  | .pair first second => leavesAll first ++ leavesAll second
  | .binOp left right => leavesAll left ++ leavesAll right

def leavesAll : List Output → List OutputLeaf
  | [] => []
  | output :: rest => leaves output ++ leavesAll rest

end

theorem leavesAll_eq_flatMap (outputs : List Output) : leavesAll outputs = outputs.flatMap leaves := by
  induction outputs with
  | nil => rw [leavesAll, List.flatMap_nil]
  | cons output rest ih => rw [leavesAll, ih, List.flatMap_cons]

theorem leavesAll_flatMap {α : Type} (f : α → List Output) (xs : List α) :
    leavesAll (xs.flatMap f) = xs.flatMap fun x => leavesAll (f x) := by
  simp only [leavesAll_eq_flatMap, List.flatMap_assoc]

theorem leavesAll_map {α : Type} (f : α → Output) (xs : List α) :
    leavesAll (xs.map f) = xs.flatMap fun x => leaves (f x) := by
  rw [leavesAll_eq_flatMap, List.flatMap_map]

/-- Opening a group keeps its leaves. -/
theorem leavesAll_opened (output : Output) : leavesAll output.opened = output.leaves := by
  cases output with
  | group items => rw [opened, leaves]
  | _ => exact List.append_nil _

end Output

/-- The lists of two rows in turn, and then what one row has more than the other. -/
def alternated {α : Type} : List (List α) → List (List α) → List α
  | [], seconds => seconds.flatten
  | firsts, [] => firsts.flatten
  | first :: firsts, second :: seconds => first ++ second ++ alternated firsts seconds

namespace Expr

mutual

/-- The leaves of an expression that is returned, from left to right. Tuples and boolean operations are
taken apart into their elements, subscripts into value and index, arithmetic into its operands, and
dictionaries into keys and values, entry by entry. -/
def outputLeaves : Expr → List OutputLeaf
  | .name id _ => [.name id]
  | .constant value _ => [.constant value]
  | .tuple elts _ | .boolOp _ elts _ => (leavesOfEach elts).flatten
  | .subscript value index _ => outputLeaves value ++ outputLeaves index
  | .dict keys values _ => alternated (leavesOfKeys keys) (leavesOfEach values)
  | .binOp left _ right _ => outputLeaves left ++ outputLeaves right
  | expr => [.dumped expr.dump]

def leavesOfEach : List Expr → List (List OutputLeaf)
  | [] => []
  | expr :: rest => outputLeaves expr :: leavesOfEach rest

/-- A missing key has no leaves. -/
def leavesOfKeys : List (Option Expr) → List (List OutputLeaf)
  | [] => []
  | some key :: rest => outputLeaves key :: leavesOfKeys rest
  | none :: rest => [] :: leavesOfKeys rest

end

/-! ## Outputs of expressions -/

theorem groups_eq_map (exprs : List Expr) : groups exprs = exprs.map fun expr => .group expr.outputs := by
  induction exprs with
  | nil => rw [groups, List.map_nil]
  | cons expr rest ih => rw [groups, ih, List.map_cons]

/-- A dictionary has as many keys as values. -/
def IsPaired : Expr → Prop
  | .dict keys values _ => keys.length = values.length
  | _ => True

/-- Every dictionary in the expression has as many keys as values. -/
def DictsPaired (e : Expr) : Prop :=
  ∀ part : Expr, part.OccursIn e → part.IsPaired

theorem dictsPaired_iff {e : Expr} :
    e.DictsPaired ↔ e.IsPaired ∧ ∀ child ∈ e.children, child.DictsPaired :=
  forall_occursIn_iff

/-- What is read from a source is proper, so that its dictionaries are paired. -/
theorem Proper.dictsPaired {e : Expr} (h : e.Proper) : e.DictsPaired := by
  intro part hpart
  have hfit := (h.wellFormed part hpart).partsFit
  cases part with
  | dict keys values line => exact hfit
  | _ => trivial

theorem leavesAll_zipWith_pair {firsts seconds : List (List Output)}
    (h : firsts.length = seconds.length) :
    Output.leavesAll (List.zipWith .pair firsts seconds) =
      alternated (firsts.map Output.leavesAll) (seconds.map Output.leavesAll) := by
  induction firsts generalizing seconds with
  | nil =>
    obtain rfl := List.length_eq_zero_iff.mp h.symm
    rfl
  | cons first firsts ih =>
    cases seconds with
    | nil => cases h
    | cons second seconds =>
      rw [List.zipWith_cons_cons, Output.leavesAll, Output.leaves, ih (Nat.succ.inj h)]
      rfl

mutual

/-- The leaves of the outputs of an expression are its own, by induction on the expression. -/
theorem leavesAll_outputs : ∀ e : Expr, e.DictsPaired → Output.leavesAll e.outputs = e.outputLeaves
  | .name .., _ | .constant .., _ => rfl
  | .tuple elts _, h | .boolOp _ elts _, h => by
    have helts := map_leavesAll_outputs elts (dictsPaired_iff.mp h).2
    rw [outputs, groups_eq_map, Output.leavesAll_map, outputLeaves, ← helts, ← List.flatMap_def]
    simp only [Output.leaves]
  | .subscript value index _, h => by
    obtain ⟨hvalue, hrest⟩ := List.forall_mem_cons.mp (dictsPaired_iff.mp h).2
    have hindex := List.forall_mem_singleton.mp hrest
    rw [outputs, Output.leavesAll, Output.leaves, leavesAll_outputs value hvalue,
      leavesAll_outputs index hindex, outputLeaves]
    exact List.append_nil _
  | .binOp left _ right _, h => by
    obtain ⟨hleft, hrest⟩ := List.forall_mem_cons.mp (dictsPaired_iff.mp h).2
    have hright := List.forall_mem_singleton.mp hrest
    rw [outputs, Output.leavesAll, Output.leaves, leavesAll_outputs left hleft,
      leavesAll_outputs right hright, outputLeaves]
    exact List.append_nil _
  | .dict keys values line, h => by
    obtain ⟨hpaired, hchildren⟩ := dictsPaired_iff.mp h
    obtain ⟨hkeys, hvalues⟩ := List.forall_mem_append.mp hchildren
    -- The rows of keys and of values end together, so that no entry is cut off.
    have hlength : (outputsOfKeys keys).length = (outputsOfAll values).length := by
      rw [outputsOfKeys_eq_map, outputsOfAll_eq_map, List.length_map, List.length_map]
      exact hpaired
    rw [outputs, leavesAll_zipWith_pair hlength, map_leavesAll_outputsOfKeys keys hkeys,
      outputsOfAll_eq_map, List.map_map, outputLeaves, ← map_leavesAll_outputs values hvalues]
    rfl
  | .attribute .., _ | .call .., _ | .unaryOp .., _ | .compare .., _ | .ifExp .., _ | .slice .., _
  | .joinedStr .., _ | .formattedValue .., _ | .list .., _ | .set .., _ | .comprehension .., _
  | .lambda .., _ | .await .., _ | .yield .., _ | .yieldFrom .., _ | .starred .., _ | .namedExpr .., _
  | .other .., _ => rfl

theorem map_leavesAll_outputs : ∀ exprs : List Expr, (∀ e ∈ exprs, e.DictsPaired) →
    exprs.map (fun e => Output.leavesAll e.outputs) = leavesOfEach exprs
  | [], _ => rfl
  | expr :: rest, h => by
    obtain ⟨hexpr, hrest⟩ := List.forall_mem_cons.mp h
    rw [List.map_cons, leavesAll_outputs expr hexpr, map_leavesAll_outputs rest hrest, leavesOfEach]

theorem map_leavesAll_outputsOfKeys : ∀ keys : List (Option Expr),
    (∀ key ∈ keys.filterMap id, key.DictsPaired) →
      (outputsOfKeys keys).map Output.leavesAll = leavesOfKeys keys
  | [], _ => rfl
  | some key :: rest, h => by
    obtain ⟨hkey, hrest⟩ := List.forall_mem_cons.mp h
    rw [outputsOfKeys, List.map_cons, leavesAll_outputs key hkey, map_leavesAll_outputsOfKeys rest hrest,
      leavesOfKeys]
  | none :: rest, h => by
    rw [outputsOfKeys, List.map_cons, map_leavesAll_outputsOfKeys rest h, leavesOfKeys]
    rfl

end

/-! ## Grouping -/

/-- The elements of a value whose outputs are grouped by element. -/
def elements? : Expr → Option (List Expr)
  | .tuple elts _ | .boolOp _ elts _ => some elts
  | _ => none

theorem outputs_of_elements? {value : Expr} {elts : List Expr} (h : value.elements? = some elts) :
    value.outputs = elts.map fun elt => .group elt.outputs := by
  cases value with
  | tuple | boolOp =>
    cases h
    rw [outputs, groups_eq_map]
  | _ => cases h

/-- A value without elements has no groups on top. -/
theorem ne_group_of_elements? {value : Expr} (h : value.elements? = none) :
    ∀ output ∈ value.outputs, ∀ items, output ≠ .group items := by
  cases value with
  | tuple | boolOp => cases h
  | dict keys values line =>
    rw [outputs, ← List.map_uncurry_zip_eq_zipWith]
    exact List.forall_mem_map.mpr fun entry _ items => Output.noConfusion
  | _ => exact List.forall_mem_singleton.mpr fun items => Output.noConfusion

/-- The outputs of a value, those of its elements out of their groups. -/
def ungrouped (value : Expr) : List Output :=
  match value.elements? with
  | some elts => elts.flatMap outputs
  | none => value.outputs

theorem flatMap_opened_outputs (value : Expr) : value.outputs.flatMap Output.opened = value.ungrouped := by
  rw [ungrouped]
  cases helements : value.elements? with
  | some elts =>
    rw [outputs_of_elements? helements, List.flatMap_map]
    rfl
  | none =>
    have hopened : ∀ output ∈ value.outputs, output.opened = [output] := by
      intro output houtput
      have hne := ne_group_of_elements? helements output houtput
      cases output with
      | group items => exact absurd rfl (hne items)
      | _ => rfl
    rw [List.flatMap_congr hopened]
    exact List.flatMap_singleton' _

end Expr

theorem leavesAll_functionOutputs {body : List Stmt}
    (h : ∀ value ∈ body.filterMap Stmt.returned?, value.DictsPaired) :
    Output.leavesAll (functionOutputs body) =
      (body.filterMap Stmt.returned?).flatMap Expr.outputLeaves := by
  rw [functionOutputs, Output.leavesAll_flatMap]
  refine List.flatMap_congr fun value hvalue => ?_
  calc Output.leavesAll (value.outputs.flatMap Output.opened)
      = value.outputs.flatMap fun output => Output.leavesAll output.opened :=
        Output.leavesAll_flatMap _ _
    _ = value.outputs.flatMap Output.leaves := by simp only [Output.leavesAll_opened]
    _ = Output.leavesAll value.outputs := (Output.leavesAll_eq_flatMap _).symm
    _ = value.outputLeaves := Expr.leavesAll_outputs value (h value hvalue)

/-- The outputs of a function have the leaves of the values that it returns directly in its body, in order
and each one once, if every dictionary in these values has as many keys as values. The elements of a tuple
or of a boolean operation that is returned are grouped one by one, and these groups are what is opened:
groups in the outputs of an element stay, and other values have no groups on top. -/
theorem functionOutputs_leaves {body : List Stmt}
    (h : ∀ value ∈ body.filterMap Stmt.returned?, value.DictsPaired) :
    Output.leavesAll (functionOutputs body) =
        (body.filterMap Stmt.returned?).flatMap Expr.outputLeaves ∧
      functionOutputs body = (body.filterMap Stmt.returned?).flatMap Expr.ungrouped ∧
      ∀ value : Expr,
        (∀ elts, value.elements? = some elts →
          value.outputs = elts.map fun elt => .group elt.outputs) ∧
        (value.elements? = none → ∀ output ∈ value.outputs, ∀ items, output ≠ .group items) := by
  refine ⟨leavesAll_functionOutputs h, ?_, fun value =>
    ⟨fun elts => Expr.outputs_of_elements?, Expr.ne_group_of_elements?⟩⟩
  rw [functionOutputs]
  exact List.flatMap_congr fun value _ => value.flatMap_opened_outputs

/-- The statement `return a, (b, {k: v, **m})`. -/
def sampleReturn : Stmt :=
  .return (some (.tuple [.name "a" 1, .tuple [.name "b" 1, .dict [some (.name "k" 1), none]
    [.name "v" 1, .name "m" 1] 1] 1] 1)) 1

theorem functionOutputs_leaves_entries :
    functionOutputs [sampleReturn] =
      [.name "a", .group [.name "b"], .group [.pair [.name "k"] [.name "v"], .pair [] [.name "m"]]] ∧
    Output.leavesAll (functionOutputs [sampleReturn]) =
      [.name "a", .name "b", .name "k", .name "v", .name "m"] := by
  have hname : ∀ id, (Expr.name id 1).DictsPaired := fun id =>
    Expr.dictsPaired_iff.mpr ⟨trivial, List.forall_mem_nil _⟩
  have hdict : (Expr.dict [some (.name "k" 1), none] [.name "v" 1, .name "m" 1] 1).DictsPaired :=
    Expr.dictsPaired_iff.mpr ⟨rfl, by simp [Expr.children, hname]⟩
  have hinner : (Expr.tuple [.name "b" 1, .dict [some (.name "k" 1), none]
      [.name "v" 1, .name "m" 1] 1] 1).DictsPaired :=
    Expr.dictsPaired_iff.mpr ⟨trivial, by simp [Expr.children, hname, hdict]⟩
  have hreturned : ∀ value ∈ [sampleReturn].filterMap Stmt.returned?, value.DictsPaired :=
    List.forall_mem_singleton.mpr
      (Expr.dictsPaired_iff.mpr ⟨trivial, by simp [Expr.children, hname, hinner]⟩)
  exact ⟨rfl, (functionOutputs_leaves hreturned).1⟩

/-! ## Functions of a source -/

theorem Stmt.mem_exprs_of_returned? {stmt : Stmt} {value : Expr} (h : stmt.returned? = some value) :
    value ∈ stmt.exprs := by
  cases stmt with
  | «return» found line => exact Option.mem_toList.mpr h
  | _ => cases h

/-- In what a proper function returns, every dictionary has as many keys as values. -/
theorem Stmt.Proper.dictsPaired_returned {header : FunctionHeader} {body : List Stmt}
    (h : (functionDef header body).Proper) :
    ∀ value ∈ body.filterMap Stmt.returned?, value.DictsPaired := by
  intro value hvalue
  obtain ⟨stmt, hstmt, hreturned⟩ := List.mem_filterMap.mp hvalue
  have hbelow : stmt ∈ (functionDef header body).preorder :=
    List.mem_cons_of_mem _ (subset_preorderAll body hstmt)
  exact ((h stmt hbelow).2 value (mem_exprs_of_returned? hreturned)).dictsPaired

/-- Whatever concrete tree a function is read from, its outputs have the leaves of what it returns. -/
theorem leavesAll_functionOutputs_ofNode {source : ByteArray} {node : Concrete.Node}
    {header : FunctionHeader} {body : List Stmt}
    (h : Stmt.ofNode source node = .functionDef header body) :
    Output.leavesAll (functionOutputs body) =
      (body.filterMap Stmt.returned?).flatMap Expr.outputLeaves :=
  leavesAll_functionOutputs (h ▸ Stmt.ofNode_proper source node).dictsPaired_returned

end EntityGraph
