import EntityGraph.Extraction.Outputs

/-!
# Well-formed programs

What holds of the typed expressions and statements that stand for a source, which their types leave
open.

* `Expr.OccursIn`: the expressions in an expression, at every depth;
* `Expr.WellFormed`, `Stmt.WellFormed`: what holds of a single expression and a single statement;
* `Expr.Proper`: an expression that can stand anywhere, with everything in it well-formed;
* `Stmt.Proper`: a statement with everything in and below it well-formed;
* `Expr.outputs_dict`: the outputs of a dictionary with as many keys as values.
-/

namespace EntityGraph

/-! ## Expressions in expressions -/

namespace Expr

/-- The expressions directly in an expression. -/
def children : Expr → List Expr
  | .attribute value _ _ | .unaryOp _ value _ | .formattedValue value _ | .await value _
  | .yieldFrom value _ | .starred value _ => [value]
  | .binOp left _ right _ | .subscript left right _ | .namedExpr left right _ => [left, right]
  | .call func args keywords _ => func :: (args ++ keywords.map Keyword.value)
  | .boolOp _ elts _ | .joinedStr elts _ | .tuple elts _ | .list elts _ | .set elts _ => elts
  | .compare left _ comparators _ => left :: comparators
  | .ifExp test body orelse _ => [test, body, orelse]
  | .slice lower upper step _ => lower.toList ++ upper.toList ++ step.toList
  | .dict keys values _ => keys.filterMap id ++ values
  | .yield value _ => value.toList
  | .name .. | .constant .. | .comprehension .. | .lambda .. | .other .. => []

/-- The first expression is the second, or in it at some depth. -/
inductive OccursIn (part : Expr) : Expr → Prop
  | self : OccursIn part part
  | inside {child whole : Expr} : child ∈ whole.children → OccursIn part child → OccursIn part whole

theorem forall_occursIn_iff {P : Expr → Prop} {e : Expr} :
    (∀ part : Expr, part.OccursIn e → P part) ↔
      P e ∧ ∀ child ∈ e.children, ∀ part : Expr, part.OccursIn child → P part := by
  constructor
  · exact fun h => ⟨h e .self, fun child hc part hp => h part (.inside hc hp)⟩
  · rintro ⟨hself, hbelow⟩ part hpart
    cases hpart with
    | self => exact hself
    | inside hc hp => exact hbelow _ hc part hp

/-! ## Well-formed expressions -/

def isJoinedStr : Expr → Bool
  | .joinedStr .. => true
  | _ => false

def isFormattedValue : Expr → Bool
  | .formattedValue .. => true
  | _ => false

/-- Whether a string can be joined of the expression and others: a piece of text or an interpolation. -/
def isSegment : Expr → Bool
  | .constant (.str _) _ | .formattedValue .. => true
  | _ => false

/-- What holds of the parts of an expression by its kind. -/
def PartsFit : Expr → Prop
  | .dict keys values _ => keys.length = values.length
  | .boolOp op values _ =>
    2 ≤ values.length ∧ ∀ inner line, values.head? ≠ some (.boolOp op inner line)
  | .joinedStr values _ => ∀ value ∈ values, value.isSegment = true
  | _ => True

/-- The line is one of a source, the parts fit the kind, and only strings interpolate. -/
structure WellFormed (e : Expr) : Prop where
  line_pos : 1 ≤ e.line
  partsFit : e.PartsFit
  isJoinedStr_of_formattedValue :
    (∃ child ∈ e.children, child.isFormattedValue = true) → e.isJoinedStr = true

/-- The expression is no interpolation, and it and everything in it is well-formed. -/
structure Proper (e : Expr) : Prop where
  not_formattedValue : e.isFormattedValue = false
  wellFormed : ∀ part : Expr, part.OccursIn e → part.WellFormed

/-- Proper parts are well-formed together if the kind of the whole lets them be. -/
theorem wellFormed_of_children {e : Expr} (hline : 1 ≤ e.line) (hfit : e.PartsFit)
    (hchildren : ∀ child ∈ e.children, child.Proper) :
    ∀ part : Expr, part.OccursIn e → part.WellFormed := by
  refine forall_occursIn_iff.mpr ⟨⟨hline, hfit, ?_⟩, fun child hc => (hchildren child hc).wellFormed⟩
  rintro ⟨child, hc, hformatted⟩
  rw [(hchildren child hc).not_formattedValue] at hformatted
  cases hformatted

theorem Proper.of_children {e : Expr} (hline : 1 ≤ e.line) (hfit : e.PartsFit)
    (hself : e.isFormattedValue = false) (hchildren : ∀ child ∈ e.children, child.Proper) : e.Proper :=
  ⟨hself, wellFormed_of_children hline hfit hchildren⟩

/-- The parts of a proper expression that is no string are proper. -/
theorem Proper.child {e child : Expr} (h : e.Proper) (hjoined : e.isJoinedStr = false)
    (hc : child ∈ e.children) : child.Proper where
  not_formattedValue := by
    refine Bool.eq_false_iff.mpr fun hformatted => ?_
    have hstring := (h.wellFormed e .self).isJoinedStr_of_formattedValue ⟨child, hc, hformatted⟩
    rw [hjoined] at hstring
    cases hstring
  wellFormed part hp := h.wellFormed part (.inside hc hp)

theorem missing_proper {line : Nat} (h : 1 ≤ line) : (missing line).Proper :=
  .of_children h trivial rfl (List.forall_mem_nil _)

/-- A string of segments is proper if what they interpolate is. -/
theorem joinedStr_proper {values : List Expr} {line : Nat} (hline : 1 ≤ line)
    (h : ∀ value ∈ values, value.isSegment = true ∧
      ∀ part : Expr, part.OccursIn value → part.WellFormed) :
    (joinedStr values line).Proper where
  not_formattedValue := rfl
  wellFormed := forall_occursIn_iff.mpr
    ⟨⟨hline, fun value hv => (h value hv).1, fun _ => rfl⟩, fun value hv => (h value hv).2⟩

/-! ## Outputs of dictionaries -/

/-- The output that an entry of a dictionary gives. -/
def entryOutput (entry : Option Expr × Expr) : Output :=
  .pair ((entry.1.map outputs).getD []) entry.2.outputs

theorem outputsOfAll_eq_map (exprs : List Expr) : outputsOfAll exprs = exprs.map outputs := by
  induction exprs with
  | nil => rw [outputsOfAll, List.map_nil]
  | cons expr rest ih => rw [outputsOfAll, ih, List.map_cons]

theorem outputsOfKeys_eq_map (keys : List (Option Expr)) :
    outputsOfKeys keys = keys.map fun key => (key.map outputs).getD [] := by
  induction keys with
  | nil => rw [outputsOfKeys, List.map_nil]
  | cons key rest ih => cases key <;> rw [outputsOfKeys, ih, List.map_cons] <;> rfl

/-- A dictionary with as many keys as values is a list of entries, each of which gives an output. -/
theorem outputs_dict {keys : List (Option Expr)} {values : List Expr}
    (h : keys.length = values.length) (line : Nat) :
    ∃ entries : List (Option Expr × Expr), keys = entries.map Prod.fst ∧ values = entries.map Prod.snd ∧
      (dict keys values line).outputs = entries.map entryOutput := by
  refine ⟨keys.zip values, ?_, ?_, ?_⟩
  · exact (List.map_fst_zip (Nat.le_of_eq h)).symm
  · exact (List.map_snd_zip (Nat.le_of_eq h.symm)).symm
  · rw [outputs, outputsOfAll_eq_map, outputsOfKeys_eq_map, List.zipWith_map, List.zip, List.map_zipWith]
    rfl

end Expr

/-! ## Well-formed statements -/

namespace Stmt

/-- The expressions directly in a statement, those of its handlers included. -/
def exprs : Stmt → List Expr
  | .functionDef header _ => header.decorators
  | .classDef header _ => header.decorators ++ header.bases ++ header.keywords.map Keyword.value
  | .assign targets value _ => targets ++ [value]
  | .augAssign target _ value _ => [target, value]
  | .annAssign target annotation value _ => target :: annotation :: value.toList
  | .expr value _ => [value]
  | .return value _ => value.toList
  | .branch test _ _ _ | .while test _ _ _ => [test]
  | .for target iter _ _ _ _ => [target, iter]
  | .try _ handlers _ _ _ => handlers.filterMap Handler.kind
  | .with items _ _ _ => items
  | .importModules .. | .importFrom .. | .other .. => []

/-- What holds of the parts of a statement by its kind. -/
def PartsFit : Stmt → Prop
  | .assign targets _ _ => targets ≠ []
  | .try _ handlers _ _ _ => ∀ handler ∈ handlers, 1 ≤ handler.line
  | _ => True

/-- The line is one of a source, the parts fit the kind, and no expression of the statement is an
interpolation outside a string. -/
structure WellFormed (stmt : Stmt) : Prop where
  line_pos : 1 ≤ stmt.line
  partsFit : stmt.PartsFit
  not_formattedValue : ∀ e ∈ stmt.exprs, e.isFormattedValue = false

/-! ## Statements below statements -/

theorem mem_preorder_self (stmt : Stmt) : stmt ∈ stmt.preorder := by
  cases stmt <;> simp [preorder]

theorem subset_preorderAll (body : List Stmt) : body ⊆ preorderAll body := by
  induction body with
  | nil => exact List.Subset.refl _
  | cons stmt rest ih =>
    rw [preorderAll, List.cons_subset]
    exact ⟨List.mem_append_left _ (mem_preorder_self stmt), List.subset_append_of_subset_right _ ih⟩

theorem preorderAll_eq_flatMap (body : List Stmt) : preorderAll body = body.flatMap preorder := by
  induction body with
  | nil => rw [preorderAll, List.flatMap_nil]
  | cons stmt rest ih => rw [preorderAll, ih, List.flatMap_cons]

theorem preorderHandlers_eq_flatMap (handlers : List Handler) :
    preorderHandlers handlers = (handlers.map Handler.body).flatMap preorderAll := by
  induction handlers with
  | nil => rw [preorderHandlers, List.map_nil, List.flatMap_nil]
  | cons handler rest ih =>
    obtain ⟨kind, name, body, line⟩ := handler
    rw [preorderHandlers, ih, List.map_cons, List.flatMap_cons]

theorem preorder_eq (stmt : Stmt) : stmt.preorder = stmt :: stmt.blocks.flatMap preorderAll := by
  cases stmt <;> simp [preorder, blocks, preorderHandlers_eq_flatMap]

/-- The statement and all statements below it are well-formed, and so are the expressions in them. -/
def Proper (stmt : Stmt) : Prop :=
  ∀ inner ∈ stmt.preorder, inner.WellFormed ∧ ∀ e ∈ inner.exprs, e.Proper

/-- A statement of proper expressions and blocks is proper if its kind lets it be. -/
theorem Proper.of_blocks {stmt : Stmt} (hline : 1 ≤ stmt.line) (hfit : stmt.PartsFit)
    (hexprs : ∀ e ∈ stmt.exprs, e.Proper)
    (hblocks : ∀ block ∈ stmt.blocks, ∀ inner ∈ block, inner.Proper) : stmt.Proper := by
  intro inner hinner
  rw [preorder_eq, List.mem_cons, List.mem_flatMap] at hinner
  obtain rfl | ⟨block, hb, hinner⟩ := hinner
  · exact ⟨⟨hline, hfit, fun e he => (hexprs e he).not_formattedValue⟩, hexprs⟩
  · rw [preorderAll_eq_flatMap] at hinner
    obtain ⟨top, ht, hinner⟩ := List.mem_flatMap.mp hinner
    exact hblocks block hb top ht inner hinner

/-- A statement without blocks is proper if its expressions are and its kind lets it be. -/
theorem Proper.of_exprs {stmt : Stmt} (hline : 1 ≤ stmt.line) (hfit : stmt.PartsFit)
    (hblocks : stmt.blocks = []) (hexprs : ∀ e ∈ stmt.exprs, e.Proper) : stmt.Proper :=
  .of_blocks hline hfit hexprs fun _ hb => absurd hb (hblocks ▸ List.not_mem_nil)

end Stmt

/-- The expression is in a statement of the list, or of a block below it, at some depth. -/
def Expr.OccursInAny (e : Expr) (body : List Stmt) : Prop :=
  ∃ stmt ∈ Stmt.preorderAll body, ∃ whole ∈ stmt.exprs, e.OccursIn whole

end EntityGraph
