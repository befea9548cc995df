import EntityGraph.Extraction.References
import EntityGraph.Proofs.Concrete.Strings

/-!
# Operations over names

An expression of names, operators and parentheses refers to its names, each time it has one, from left to
right. What joins the names, how they are grouped and where comments stand makes no difference.

* `operands`: the children of an operation without its tokens and stray nodes;
* `IsOperation`: a node is such an expression;
* `Node.identifiers`: the identifiers below a node, in the order of the source;
* `references_operation`: the references of an operation are its identifiers.
-/

namespace EntityGraph

namespace Concrete

/-! ## Operands -/

/-- Whether the node is a token that is no operand: a parenthesis, or what tells the operator. -/
def Node.isToken (node : Node) : Bool :=
  !node.label.named && node.children.isEmpty &&
    (node.label.field = none || node.label.field = some "operator")

/-- The children that are neither stray nor tokens. -/
def operands (children : List Node) : List Node :=
  children.filter fun child => !child.label.isStray && !child.isToken

/-- The expression of a node has nothing but identifiers, with operators and parentheses around them.
Tokens and stray nodes can stand anywhere among the operands. -/
inductive IsOperation : Node → Prop
  | identifier {label : Label} {children : List Node} : label.kind = "identifier" → label.named →
    operands children = [] → IsOperation ⟨label, children⟩
  | binary {label : Label} {children : List Node} {left right : Node} : label.kind = "binary_operator" →
    operands children = [left, right] → left.label.field = some "left" →
    right.label.field = some "right" → IsOperation left → IsOperation right →
    IsOperation ⟨label, children⟩
  | unary {label : Label} {children : List Node} {argument : Node} :
    label.kind = "unary_operator" ∨ label.kind = "not_operator" → operands children = [argument] →
    argument.label.field = some "argument" → IsOperation argument → IsOperation ⟨label, children⟩
  | parenthesized {label : Label} {children : List Node} {inner : Node} :
    label.kind = "parenthesized_expression" → operands children = [inner] → inner.label.isItem →
    IsOperation inner → IsOperation ⟨label, children⟩

/-- A child with the field of an operand is found among the operands. -/
theorem child?_operands {field : String} (h : field ≠ "operator") (children : List Node) :
    child? field (operands children) = child? field children := by
  rw [child?, child?, operands, List.find?_filter]
  congr 1
  funext child
  by_cases hfield : child.label.field = some field
  · simp [hfield, h, Label.isStray, Node.isToken]
  · simp [hfield]

theorem items_operands (children : List Node) : items (operands children) = items children := by
  rw [items, items, operands, List.filter_filter]
  refine List.filter_congr fun child _ => ?_
  cases hitem : child.label.isItem with
  | false => rfl
  | true =>
    obtain ⟨hnamed, hextra⟩ : child.label.named ∧ child.label.extra = false := by
      simpa [Label.isItem] using hitem
    simp [Label.isStray, Node.isToken, hnamed, hextra]

/-! ## Identifiers -/

def Label.isIdentifier (label : Label) : Bool :=
  label.named && label.kind = "identifier"

/-- The identifiers of a tree from left to right, those in stray nodes left out. -/
def Node.identifiers (node : Node) : List Label :=
  (node.withoutExtras.preorder.map Prod.fst).filter Label.isIdentifier

theorem preorderAll_withoutExtrasAll (children : List Node) :
    preorderAll (withoutExtrasAll children) =
      (children.filter (!·.label.isStray)).flatMap fun child => child.withoutExtras.preorder := by
  induction children with
  | nil => rfl
  | cons child rest ih =>
    rw [withoutExtrasAll, List.filter_cons]
    cases child.label.isStray with
    | true => exact ih
    | false => exact congrArg (child.withoutExtras.preorder ++ ·) ih

theorem identifiers_eq (label : Label) (children : List Node) :
    Node.identifiers ⟨label, children⟩ =
      [label].filter Label.isIdentifier ++
        (children.filter (!·.label.isStray)).flatMap Node.identifiers := by
  rw [Node.identifiers, Node.withoutExtras, Node.preorder, List.map_cons, preorderAll_withoutExtrasAll,
    List.map_flatMap, ← List.singleton_append, List.filter_append, List.filter_flatMap]
  rfl

theorem identifiers_of_isToken {node : Node} (h : node.isToken) : node.identifiers = [] := by
  obtain ⟨label, children⟩ := node
  obtain ⟨⟨hnamed, rfl⟩, -⟩ : (label.named = false ∧ children = []) ∧ _ := by
    simpa [Node.isToken] using h
  rw [identifiers_eq, List.filter_cons_of_neg (by simp [Label.isIdentifier, hnamed])]
  rfl

/-- What is below a node are the identifiers of its operands: tokens have none. -/
theorem flatMap_operands (children : List Node) :
    (operands children).flatMap Node.identifiers =
      (children.filter (!·.label.isStray)).flatMap Node.identifiers := by
  induction children with
  | nil => rfl
  | cons child rest ih =>
    rw [operands, List.filter_cons, List.filter_cons, ← operands]
    cases hstray : child.label.isStray with
    | true => exact ih
    | false =>
      cases htoken : child.isToken with
      | true =>
        -- Only the right side keeps the token, which has no identifiers.
        show _ = List.flatMap Node.identifiers (child :: _)
        rw [List.flatMap_cons, identifiers_of_isToken htoken]
        exact ih
      | false => exact congrArg (child.identifiers ++ ·) ih

theorem identifiers_of_identifier {label : Label} (hkind : label.kind = "identifier")
    (hnamed : label.named) {children : List Node} (hoperands : operands children = []) :
    Node.identifiers ⟨label, children⟩ = [label] := by
  rw [identifiers_eq, ← flatMap_operands, hoperands,
    List.filter_cons_of_pos (by simp [Label.isIdentifier, hkind, hnamed])]
  rfl

theorem identifiers_of_ne {label : Label} (hkind : label.kind ≠ "identifier") (children : List Node) :
    Node.identifiers ⟨label, children⟩ = (operands children).flatMap Node.identifiers := by
  rw [identifiers_eq, ← flatMap_operands, List.filter_cons_of_neg (by simp [Label.isIdentifier, hkind])]
  rfl

end Concrete

open Concrete

namespace Expr

variable (source : ByteArray) {label : Label} {children : List Node}

/-! ## References -/

theorem ofField?_operands {field : String} (h : field ≠ "operator") {operand : Node}
    (hoperand : child? field (operands children) = some operand) (line : Nat) :
    (ofField? source field children).getD (missing line) = ofNode source operand := by
  rw [ofField?_eq, ← child?_operands h, hoperand]
  rfl

theorem ofNode_binary {left right : Node} (hkind : label.kind = "binary_operator")
    (hoperands : operands children = [left, right]) (hleft : left.label.field = some "left")
    (hright : right.label.field = some "right") :
    ∃ op, ofNode source ⟨label, children⟩ =
      .binOp (ofNode source left) op (ofNode source right) label.line := by
  have hl : child? "left" (operands children) = some left := by
    rw [hoperands, child?_cons, if_pos hleft]
  have hr : child? "right" (operands children) = some right := by
    rw [hoperands, child?_cons, if_neg (by rw [hleft]; decide), child?_cons, if_pos hright]
  refine ⟨(Concrete.text? source "operator" children).getD "", ?_⟩
  rw [← ofField?_operands source (by decide) hl label.line,
    ← ofField?_operands source (by decide) hr label.line, ofNode, hkind]
  rfl

theorem ofNode_unary {argument : Node}
    (hkind : label.kind = "unary_operator" ∨ label.kind = "not_operator")
    (hoperands : operands children = [argument]) (hargument : argument.label.field = some "argument") :
    ∃ op, ofNode source ⟨label, children⟩ = .unaryOp op (ofNode source argument) label.line := by
  have ha : child? "argument" (operands children) = some argument := by
    rw [hoperands, child?_cons, if_pos hargument]
  rw [← ofField?_operands source (by decide) ha label.line]
  rcases hkind with hkind | hkind
  · refine ⟨(Concrete.text? source "operator" children).getD "", ?_⟩
    rw [ofNode, hkind]
    rfl
  · refine ⟨"not", ?_⟩
    rw [ofNode, hkind]
    rfl

theorem ofNode_parenthesized {inner : Node} (hkind : label.kind = "parenthesized_expression")
    (hoperands : operands children = [inner]) (hinner : inner.label.isItem) :
    ofNode source ⟨label, children⟩ = ofNode source inner := by
  have hitems : items children = [inner] := by
    rw [← items_operands, hoperands, items_cons, if_pos hinner]
    rfl
  rw [ofNode, hkind]
  show (ofFirst? source children).getD (missing label.line) = _
  rw [ofFirst?_eq, hitems]
  rfl

end Expr

/-- The references of an expression of names, operators and parentheses are its identifiers, by their text
in the source and in its order, wherever comments stand. -/
theorem references_operation (source : ByteArray) {node : Node} (h : IsOperation node) :
    (Expr.ofNode source node).references =
      .ok (node.identifiers.map fun identifier => .name (identifier.text source)) := by
  induction h with
  | identifier hkind hnamed hoperands =>
    rw [identifiers_of_identifier hkind hnamed hoperands, Expr.ofNode, hkind]
    rfl
  | @binary label children left right hkind hoperands hleft hright _ _ ihleft ihright =>
    obtain ⟨op, hnode⟩ := Expr.ofNode_binary source hkind hoperands hleft hright
    -- The left operand stands before the right one, and so do its identifiers.
    rw [hnode, Expr.references, ihleft, ihright, identifiers_of_ne (by rw [hkind]; decide), hoperands,
      List.flatMap_cons, List.flatMap_singleton, List.map_append]
    rfl
  | @unary label children argument hkind hoperands hargument _ ih =>
    have hne : label.kind ≠ "identifier" := by rcases hkind with hkind | hkind <;> rw [hkind] <;> decide
    obtain ⟨op, hnode⟩ := Expr.ofNode_unary source hkind hoperands hargument
    rw [hnode, Expr.references, ih, identifiers_of_ne hne, hoperands, List.flatMap_singleton]
  | @parenthesized label children inner hkind hoperands hinner _ ih =>
    -- Parentheses leave no trace: the expression is the inner one.
    rw [Expr.ofNode_parenthesized source hkind hoperands hinner, ih,
      identifiers_of_ne (by rw [hkind]; decide), hoperands, List.flatMap_singleton]

namespace Concrete

/-- A token of this kind. -/
def sampleToken (kind : String) (field : Option String) (start : Nat) : Node :=
  ⟨⟨kind, field, false, false, false, start, start + 1, 0⟩, []⟩

/-- The expression `-a * (b # x` and, on a second line, `+ c)`. -/
def sampleOperation : Node :=
  samplePart "binary_operator" none 0 16
    [samplePart "unary_operator" (some "left") 0 2
      [sampleToken "-" (some "operator") 0, samplePart "identifier" (some "argument") 1 2 []],
    sampleToken "*" (some "operator") 3,
    samplePart "parenthesized_expression" (some "right") 5 16
      [sampleToken "(" none 5,
      samplePart "binary_operator" none 6 15
        [samplePart "identifier" (some "left") 6 7 [],
        ⟨⟨"comment", none, true, true, false, 8, 11, 0⟩, []⟩,
        sampleToken "+" (some "operator") 12,
        samplePart "identifier" (some "right") 14 15 []],
      sampleToken ")" none 15]]

theorem sampleOperation_isOperation : IsOperation sampleOperation :=
  .binary rfl rfl rfl rfl (.unary (.inl rfl) rfl rfl (.identifier rfl rfl rfl))
    (.parenthesized rfl rfl rfl
      (.binary rfl rfl rfl rfl (.identifier rfl rfl rfl) (.identifier rfl rfl rfl)))

end Concrete

theorem references_operation_commented : IsOperation sampleOperation ∧
    (Expr.ofNode "-a * (b # x\n+ c)".toUTF8 sampleOperation).references =
      .ok [.name "a", .name "b", .name "c"] :=
  ⟨sampleOperation_isOperation, references_operation _ sampleOperation_isOperation⟩

end EntityGraph
