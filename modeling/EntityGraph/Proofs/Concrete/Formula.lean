import EntityGraph.Proofs.Concrete.Strings
import Mathlib.Data.List.Flatten

/-!
# Boolean operations

Boolean operations are written as operations of two operands and read as operations of several: the left
operand is opened again and again, as long as it is an operation with the same operator. Parentheses, and
the other wrappers, make no difference.

* `Formula`: a tree of boolean operations, with its operands (`Formula.operands`) and the parts that one
  operator joins on the left (`Formula.chain`);
* `IsFormula`: a node is this formula, with wrappers around its parts;
* `Expr.expanded`: an expression with all its boolean operations opened;
* `ofNode_chain`: the operation that a formula is read as;
* `ofNode_chain_named`: parentheses are not the only wrappers.
-/

namespace EntityGraph

namespace Concrete

/-! ## Formulas -/

/-- The kinds of node that stand for the first item in them: parentheses, an expression with a name for
its value, and an annotation. -/
def wrapperKinds : List String :=
  ["parenthesized_expression", "as_pattern", "type"]

theorem Phrase.ofKind_eq_wrapper_iff {kind : String} :
    Phrase.ofKind kind = .wrapper ↔ kind ∈ wrapperKinds := by
  constructor
  · intro h
    unfold Phrase.ofKind at h
    split at h <;> first | decide | cases h
  · intro h
    simp only [wrapperKinds, List.mem_cons, List.not_mem_nil, or_false] at h
    rcases h with rfl | rfl | rfl <;> rfl

theorem Phrase.ofKind_eq_boolean_iff {kind : String} :
    Phrase.ofKind kind = .boolean ↔ kind = "boolean_operator" := by
  constructor
  · intro h
    unfold Phrase.ofKind at h
    split at h <;> first | rfl | cases h
  · rintro rfl
    rfl

/-- A tree of boolean operations, down to operands that are none. Each part has the node it comes from,
without the wrappers around it. -/
inductive Formula where
  | operand (node : Node)
  | operation (node : Node) (op : String) (left right : Formula)

namespace Formula

def node : Formula → Node
  | .operand node | .operation node _ _ _ => node

/-- The parts that `op` joins: an operation with this operator is opened on its left, as often as there is
one. Its right part and any other formula are kept whole. -/
def chain (op : String) : Formula → List Formula
  | .operand node => [.operand node]
  | .operation node inner left right =>
    if inner = op then left.chain op ++ [right] else [.operation node inner left right]

/-- The operands of all operations, from left to right. -/
def operands : Formula → List Node
  | .operand node => [node]
  | .operation _ _ left right => left.operands ++ right.operands

end Formula

/-- The node is the formula, with nodes of the kinds `wrappers` around any of its parts. Operations have
their operator and their two sides, the left one first, and whatever else stands among these. -/
inductive IsFormula (source : ByteArray) (wrappers : List String) : Node → Formula → Prop
  | operation {label : Label} {children : List Node} {op : String} {left right : Node}
    {leftFormula rightFormula : Formula} : label.kind = "boolean_operator" →
    text? source "operator" children = some op → child? "left" children = some left →
    child? "right" children = some right → [left, right].Sublist children →
    IsFormula source wrappers left leftFormula → IsFormula source wrappers right rightFormula →
    IsFormula source wrappers ⟨label, children⟩
      (.operation ⟨label, children⟩ op leftFormula rightFormula)
  | wrapped {label : Label} {children : List Node} {inner : Node} {formula : Formula} :
    label.kind ∈ wrappers → (items children).head? = some inner →
    IsFormula source wrappers inner formula → IsFormula source wrappers ⟨label, children⟩ formula
  | operand {label : Label} {children : List Node} : label.kind ≠ "boolean_operator" →
    (label.kind ∈ wrappers → items children = []) →
    IsFormula source wrappers ⟨label, children⟩ (.operand ⟨label, children⟩)

theorem IsFormula.sides {source : ByteArray} {wrappers : List String} {node inner : Node} {op : String}
    {left right : Formula} (h : IsFormula source wrappers node (.operation inner op left right)) :
    inner.label.kind = "boolean_operator" ∧ text? source "operator" inner.children = some op ∧
      ∃ leftNode rightNode, child? "left" inner.children = some leftNode ∧
        child? "right" inner.children = some rightNode ∧
        IsFormula source wrappers leftNode left ∧ IsFormula source wrappers rightNode right := by
  generalize hformula : Formula.operation inner op left right = formula at h
  induction h with
  | operation hkind hop hleft hright _ hleftFormula hrightFormula =>
    cases hformula
    exact ⟨hkind, hop, _, _, hleft, hright, hleftFormula, hrightFormula⟩
  | wrapped _ _ _ ih => exact ih hformula
  | operand => cases hformula

/-! ### Order of the source -/

theorem preorderAll_eq_flatMap (children : List Node) :
    preorderAll children = children.flatMap Node.preorder := by
  induction children with
  | nil => rfl
  | cons child rest ih => rw [preorderAll, List.flatMap_cons, ih]

/-- Children in their order have their preorders within that of the whole. -/
theorem sublist_preorder {label : Label} {chosen children : List Node} (h : chosen.Sublist children) :
    ((chosen.flatMap Node.preorder).map Prod.fst).Sublist
      ((Node.preorder ⟨label, children⟩).map Prod.fst) := by
  rw [Node.preorder, preorderAll_eq_flatMap]
  exact ((h.flatMap Node.preorder).cons _).map Prod.fst

variable {source : ByteArray} {wrappers : List String} {node : Node} {formula : Formula}

/-- The operands of a formula come in the order of the source. -/
theorem IsFormula.sublist_preorder (h : IsFormula source wrappers node formula) :
    (formula.operands.map Node.label).Sublist (node.preorder.map Prod.fst) := by
  induction h with
  | operation _ _ _ _ hsides _ _ ihleft ihright =>
    refine List.Sublist.trans ?_ (Concrete.sublist_preorder hsides)
    rw [Formula.operands, List.map_append, List.flatMap_cons, List.flatMap_singleton, List.map_append]
    exact ihleft.append ihright
  | wrapped _ hinner _ ih =>
    have hmem := mem_of_mem_items (List.mem_of_head? hinner)
    refine ih.trans ?_
    rw [← List.flatMap_singleton Node.preorder]
    exact Concrete.sublist_preorder (List.singleton_sublist.mpr hmem)
  | operand => exact List.singleton_sublist.mpr List.mem_cons_self

end Concrete

open Concrete

/-! ## Readings -/

namespace Expr

mutual

/-- The expression with all boolean operations opened, those among their operands too. -/
def expanded : Expr → List Expr
  | .boolOp _ values _ => expandedAll values
  | e => [e]

def expandedAll : List Expr → List Expr
  | [] => []
  | e :: rest => e.expanded ++ expandedAll rest

end

theorem expandedAll_append (first second : List Expr) :
    expandedAll (first ++ second) = expandedAll first ++ expandedAll second := by
  induction first with
  | nil => rfl
  | cons e rest ih => rw [List.cons_append, expandedAll, expandedAll, ih, List.append_assoc]

/-- To open an operand first makes no difference. -/
theorem expandedAll_openLeft (op : String) (left : Expr) :
    expandedAll (openLeft op left) = left.expanded := by
  cases left with
  | boolOp inner values line =>
    rw [openLeft, expanded]
    split
    · rfl
    · rw [expandedAll, expandedAll, expanded, List.append_nil]
  | _ => rfl

variable {source : ByteArray} {label : Label} {children : List Node}

theorem ofNode_operation {left right : Node} {op : String} (hkind : label.kind = "boolean_operator")
    (hop : Concrete.text? source "operator" children = some op)
    (hleft : child? "left" children = some left) (hright : child? "right" children = some right) :
    ofNode source ⟨label, children⟩ =
      .boolOp op (openLeft op (ofNode source left) ++ [ofNode source right]) label.line := by
  rw [ofNode, Phrase.ofKind_eq_boolean_iff.mpr hkind]
  show boolOp ((Concrete.text? source "operator" children).getD "") _ _ = _
  rw [ofField?_eq, ofField?_eq, hop, hleft, hright]
  rfl

theorem ofNode_wrapped (hkind : label.kind ∈ wrapperKinds) :
    ofNode source ⟨label, children⟩ =
      ((items children).head?.map (ofNode source)).getD (missing label.line) := by
  rw [ofNode, Phrase.ofKind_eq_wrapper_iff.mpr hkind, ← ofFirst?_eq]

/-- What is no operation, and no wrapper around anything, is read as no operation. -/
theorem ofNode_ne_boolOp (hkind : label.kind ≠ "boolean_operator")
    (hitems : label.kind ∈ wrapperKinds → items children = []) (op : String) (values : List Expr)
    (line : Nat) : ofNode source ⟨label, children⟩ ≠ .boolOp op values line := by
  have hboolean : Phrase.ofKind label.kind ≠ .boolean :=
    fun h => hkind (Phrase.ofKind_eq_boolean_iff.mp h)
  have hwrapper : Phrase.ofKind label.kind = .wrapper → items children = [] :=
    fun h => hitems (Phrase.ofKind_eq_wrapper_iff.mp h)
  rw [ofNode]
  generalize Phrase.ofKind label.kind = phrase at hboolean hwrapper ⊢
  cases phrase with
  | boolean => exact absurd rfl hboolean
  | wrapper =>
    rw [ofFirst?_eq, hwrapper rfl]
    rintro ⟨⟩
  | comparison | yield | strings =>
    dsimp only
    split <;> rintro ⟨⟩
  | string =>
    dsimp only
    split
    · rintro ⟨⟩
    · split <;> rintro ⟨⟩
  | _ => rintro ⟨⟩

theorem openLeft_of_ne {e : Expr} (h : ∀ op values line, e ≠ .boolOp op values line) (op : String) :
    openLeft op e = [e] := by
  cases e with
  | boolOp inner values line => exact absurd rfl (h inner values line)
  | _ => rfl

theorem expanded_of_ne {e : Expr} (h : ∀ op values line, e ≠ .boolOp op values line) :
    e.expanded = [e] := by
  cases e with
  | boolOp inner values line => exact absurd rfl (h inner values line)
  | _ => rfl

variable {node : Node} {formula : Formula}

/-- Wrappers leave no trace. -/
theorem ofNode_formula (h : IsFormula source wrapperKinds node formula) :
    ofNode source formula.node = ofNode source node := by
  induction h with
  | operation => rfl
  | wrapped hkind hinner _ ih =>
    rw [ih, ofNode_wrapped hkind, hinner]
    rfl
  | operand => rfl

/-- The operands that an outer operation `op` takes over from a formula on its left. -/
theorem openLeft_ofNode (h : IsFormula source wrapperKinds node formula) (op : String) :
    openLeft op (ofNode source node) = (formula.chain op).map fun part => ofNode source part.node := by
  induction h with
  | @operation label children inner left right leftFormula rightFormula hkind hop hleft hright _ _
      hrightFormula ihleft _ =>
    rw [Formula.chain, ofNode_operation hkind hop hleft hright, openLeft]
    split
    · next heq =>
      -- What the inner operation has taken over on its own left is what the outer one would.
      subst heq
      rw [ihleft, List.map_append, List.map_singleton, ofNode_formula hrightFormula]
    · rw [List.map_singleton, Formula.node, ofNode_operation hkind hop hleft hright]
  | wrapped hkind hinner _ ih =>
    rw [ofNode_wrapped hkind, hinner]
    exact ih
  | operand hkind hitems => exact openLeft_of_ne (ofNode_ne_boolOp hkind hitems) op

/-- However operations are merged, opening all of them gives the operands. -/
theorem expanded_ofNode (h : IsFormula source wrapperKinds node formula) :
    (ofNode source node).expanded = formula.operands.map (ofNode source) := by
  induction h with
  | operation hkind hop hleft hright _ _ _ ihleft ihright =>
    rw [ofNode_operation hkind hop hleft hright, expanded, expandedAll_append, expandedAll_openLeft,
      expandedAll, expandedAll, List.append_nil, ihleft, ihright, Formula.operands, List.map_append]
  | wrapped hkind hinner _ ih =>
    rw [ofNode_wrapped hkind, hinner]
    exact ih
  | operand hkind hitems => exact expanded_of_ne (ofNode_ne_boolOp hkind hitems)

end Expr

open EntityGraph.Expr

/-- A formula that is an operation is read as an operation with the same operator. Its operands are the
parts that this operator joins on the left, then the part on the right. Opened throughout, it gives the
operands of the formula, and these come in the order of the source. -/
theorem ofNode_chain {source : ByteArray} {node inner : Node} {op : String} {left right : Formula}
    (h : IsFormula source wrapperKinds node (.operation inner op left right)) :
    ofNode source node =
        .boolOp op ((left.chain op ++ [right]).map fun part => ofNode source part.node)
          inner.label.line ∧
      (ofNode source node).expanded = (left.operands ++ right.operands).map (ofNode source) ∧
      ((left.operands ++ right.operands).map Node.label).Sublist (node.preorder.map Prod.fst) := by
  refine ⟨?_, expanded_ofNode h, h.sublist_preorder⟩
  obtain ⟨label, children⟩ := inner
  obtain ⟨hkind, hop, leftNode, rightNode, hleft, hright, hleftFormula, hrightFormula⟩ := h.sides
  have hnode : ofNode source ⟨label, children⟩ = ofNode source node := ofNode_formula h
  rw [← hnode, ofNode_operation hkind hop hleft hright, openLeft_ofNode hleftFormula, List.map_append,
    List.map_singleton, ofNode_formula hrightFormula]

namespace Concrete

/-- A name of one letter. -/
def sampleLetter (field : Option String) (start : Nat) : Node :=
  samplePart "identifier" field start (start + 1) []

/-- The operands with `and` between them. -/
def sampleAnd (field : Option String) (left right : Node) : Node :=
  let stop := left.label.stop
  samplePart "boolean_operator" field left.label.start right.label.stop
    [left, ⟨⟨"and", some "operator", false, false, false, stop + 1, stop + 4, 0⟩, []⟩, right]

/-- The node in parentheses. -/
def sampleGroup (field : Option String) (inner : Node) : Node :=
  let start := inner.label.start
  let stop := inner.label.stop
  samplePart "parenthesized_expression" field (start - 1) (stop + 1)
    [⟨⟨"(", none, false, false, false, start - 1, start, 0⟩, []⟩, inner,
      ⟨⟨")", none, false, false, false, stop, stop + 1, 0⟩, []⟩]

/-- The operation `a and b`, with the `a` at `start`. -/
def samplePair (start : Nat) : Node :=
  sampleAnd none (sampleLetter (some "left") start) (sampleLetter (some "right") (start + 6))

/-- The formula of `samplePair`. -/
def samplePairFormula (start : Nat) : Formula :=
  .operation (samplePair start) "and" (.operand (sampleLetter (some "left") start))
    (.operand (sampleLetter (some "right") (start + 6)))

section Samples

variable {source : ByteArray} {wrappers : List String}

theorem isFormula_sampleLetter (h : "identifier" ∉ wrappers) (field : Option String) (start : Nat) :
    IsFormula source wrappers (sampleLetter field start) (.operand (sampleLetter field start)) :=
  .operand (show "identifier" ≠ "boolean_operator" by decide) fun hmem => absurd hmem h

theorem sublist_sides (left token right : Node) : [left, right].Sublist [left, token, right] :=
  ((List.Sublist.refl [right]).cons token).cons_cons left

theorem isFormula_samplePair (h : "identifier" ∉ wrappers) {start : Nat}
    (hop : text? source "operator" (samplePair start).children = some "and") :
    IsFormula source wrappers (samplePair start) (samplePairFormula start) :=
  .operation rfl hop rfl rfl (sublist_sides _ _ _) (isFormula_sampleLetter h _ _)
    (isFormula_sampleLetter h _ _)

end Samples

/-- The line `(a and b) and (c and d)`. -/
def sampleGrouped : Node :=
  sampleAnd none (sampleGroup (some "left") (samplePair 1)) (sampleGroup (some "right") (samplePair 15))

theorem sampleGrouped_isFormula :
    IsFormula "(a and b) and (c and d)".toUTF8 wrapperKinds sampleGrouped
      (.operation sampleGrouped "and" (samplePairFormula 1) (samplePairFormula 15)) :=
  .operation rfl rfl rfl rfl (sublist_sides _ _ _)
    (.wrapped (by decide) rfl (isFormula_samplePair (by decide) rfl))
    (.wrapped (by decide) rfl (isFormula_samplePair (by decide) rfl))

end Concrete

/-- The left operand is opened, the right one is not. -/
theorem ofNode_chain_grouped :
    IsFormula "(a and b) and (c and d)".toUTF8 wrapperKinds sampleGrouped
        (.operation sampleGrouped "and" (samplePairFormula 1) (samplePairFormula 15)) ∧
      ofNode "(a and b) and (c and d)".toUTF8 sampleGrouped =
        .boolOp "and" [.name "a" 1, .name "b" 1, .boolOp "and" [.name "c" 1, .name "d" 1] 1] 1 ∧
      (ofNode "(a and b) and (c and d)".toUTF8 sampleGrouped).expanded =
        [.name "a" 1, .name "b" 1, .name "c" 1, .name "d" 1] :=
  have hall := ofNode_chain sampleGrouped_isFormula
  ⟨sampleGrouped_isFormula, hall.1, hall.2.1⟩

namespace Concrete

/-- The part `(a and b) as c` of the line `((a and b) as c) and d`. -/
def sampleAlias : Node :=
  samplePart "as_pattern" none 1 15
    [sampleGroup none (samplePair 2), ⟨⟨"as", none, false, false, false, 11, 13, 0⟩, []⟩,
      samplePart "as_pattern_target" (some "alias") 14 15 [sampleLetter none 14]]

/-- The line `((a and b) as c) and d`. -/
def sampleNamed : Node :=
  sampleAnd none (sampleGroup (some "left") sampleAlias) (sampleLetter (some "right") 21)

/-- The formula of `sampleNamed` if only parentheses are wrappers. -/
def sampleNamedFormula : Formula :=
  .operation sampleNamed "and" (.operand sampleAlias) (.operand (sampleLetter (some "right") 21))

end Concrete

/-- An operation that is given a name is opened like one in parentheses: these are not all that operations
are seen through. -/
theorem ofNode_chain_named :
    IsFormula "((a and b) as c) and d".toUTF8 ["parenthesized_expression"] sampleNamed
        sampleNamedFormula ∧
      ofNode "((a and b) as c) and d".toUTF8 sampleNamed =
        .boolOp "and" [.name "a" 1, .name "b" 1, .name "d" 1] 1 ∧
      ofNode "((a and b) as c) and d".toUTF8 sampleNamed ≠
        .boolOp "and" ((sampleNamedFormula.chain "and").map fun part =>
          ofNode "((a and b) as c) and d".toUTF8 part.node) 1 := by
  refine ⟨?_, rfl, fun h => ?_⟩
  · exact .operation rfl rfl rfl rfl (sublist_sides _ _ _)
      (.wrapped (by decide) rfl (.operand (by decide) (by decide)))
      (isFormula_sampleLetter (by decide) _ _)
  · have hlength : [Expr.name "a" 1, .name "b" 1, .name "d" 1].length = 2 :=
      congrArg List.length (Expr.boolOp.inj h).2.1
    cases hlength

end EntityGraph
