import EntityGraph.Concrete.Stmt

/-!
# Readers of children

The readers of the children of a node are written as recursions over the children. Each is the reading
of the items, of the first child with a field, or of all children with a field: the equations here say
of which, and how each child is read.

* `Node.induction`, `Node.strongInduction`: what holds of all nodes, from what holds below them;
* `ofItems_eq`, `ofFirst?_eq`, `ofField?_eq`, `ofFields_eq`: the four common readers;
* `argumentsOf_eq` to `ofEntries_eq`: the readers of calls, strings and dictionaries;
* `Stmt.block_eq` to `Stmt.lastFinally?_eq`: the readers of statements.
-/

namespace EntityGraph

open Concrete

variable (source : ByteArray)

namespace Concrete

/-! ## Nodes below nodes -/

mutual

/-- What holds of a node if it holds of its children holds of all nodes. -/
theorem Node.induction {P : Node → Prop}
    (step : ∀ node : Node, (∀ child ∈ node.children, P child) → P node) : ∀ node, P node
  | ⟨label, children⟩ => step ⟨label, children⟩ (Node.inductionAll step children)

theorem Node.inductionAll {P : Node → Prop}
    (step : ∀ node : Node, (∀ child ∈ node.children, P child) → P node) :
    ∀ children : List Node, ∀ child ∈ children, P child
  | [] => fun _ h => absurd h List.not_mem_nil
  | node :: rest =>
    List.forall_mem_cons.mpr ⟨Node.induction step node, Node.inductionAll step rest⟩

end

/-- The node is one of the children, or below one of them. -/
inductive Under (node : Node) : List Node → Prop
  | listed {children : List Node} : node ∈ children → Under node children
  | inside {child : Node} {children : List Node} :
    child ∈ children → Under node child.children → Under node children

/-- What holds of a node if it holds of all nodes below it holds of all nodes. -/
theorem Node.strongInduction {P : Node → Prop}
    (step : ∀ node : Node, (∀ inner, Under inner node.children → P inner) → P node) (node : Node) :
    P node := by
  have hbelow : ∀ node : Node, ∀ inner, Under inner node.children → P inner := by
    refine Node.induction fun node ih inner hinner => ?_
    cases hinner with
    | listed hmem => exact step inner (ih inner hmem)
    | inside hchild hbelow => exact ih _ hchild inner hbelow
  exact step node (hbelow node)

/-! ## Places among children -/

theorem mem_of_mem_items {node : Node} {children : List Node} (h : node ∈ items children) :
    node ∈ children :=
  (List.mem_filter.mp h).1

theorem mem_of_child? {field : String} {node : Node} {children : List Node}
    (h : child? field children = some node) : node ∈ children :=
  List.mem_of_find?_eq_some h

theorem items_cons (node : Node) (rest : List Node) :
    items (node :: rest) = if node.label.isItem then node :: items rest else items rest :=
  List.filter_cons

theorem child?_cons (field : String) (node : Node) (rest : List Node) :
    child? field (node :: rest) =
      if node.label.field = some field then some node else child? field rest := by
  rw [child?, List.find?_cons]
  by_cases h : node.label.field = some field <;> simp [h, child?]

theorem childrenAt_cons (field : String) (node : Node) (rest : List Node) :
    childrenAt field (node :: rest) =
      if node.label.field = some field then node :: childrenAt field rest else childrenAt field rest := by
  rw [childrenAt, List.filter_cons]
  by_cases h : node.label.field = some field <;> simp [h, childrenAt]

end Concrete

/-! ## Expressions -/

namespace Expr

theorem ofItems_eq (children : List Node) :
    ofItems source children = (items children).map (ofNode source) := by
  induction children with
  | nil => rfl
  | cons node rest ih =>
    rw [ofItems, items_cons, ih]
    split <;> rfl

theorem ofFirst?_eq (children : List Node) :
    ofFirst? source children = (items children).head?.map (ofNode source) := by
  induction children with
  | nil => rfl
  | cons node rest ih =>
    rw [ofFirst?, items_cons, ih]
    split <;> rfl

theorem ofField?_eq (field : String) (children : List Node) :
    ofField? source field children = (child? field children).map (ofNode source) := by
  induction children with
  | nil => rfl
  | cons node rest ih =>
    rw [ofField?, child?_cons, ih]
    split <;> rfl

theorem ofFields_eq (field : String) (children : List Node) :
    ofFields source field children = (childrenAt field children).map (ofNode source) := by
  induction children with
  | nil => rfl
  | cons node rest ih =>
    rw [ofFields, childrenAt_cons, ih]
    split <;> rfl

/-- The positional arguments that a node with the arguments of a call holds. -/
def argumentsIn (node : Node) : List Expr :=
  if node.label.kind = "generator_expression" then [ofNode source node]
  else positional source node.children

/-- The keyword arguments that a node with the arguments of a call holds. -/
def keywordsIn (node : Node) : List Keyword :=
  if node.label.kind = "generator_expression" then [] else keywords source node.children

theorem argumentsOf_eq (children : List Node) :
    argumentsOf source children = ((child? "arguments" children).map (argumentsIn source)).getD [] := by
  induction children with
  | nil => rfl
  | cons node rest ih =>
    obtain ⟨label, inner⟩ := node
    rw [argumentsOf, child?_cons, ih]
    split <;> rfl

theorem keywordsOf_eq (children : List Node) :
    keywordsOf source children = ((child? "arguments" children).map (keywordsIn source)).getD [] := by
  induction children with
  | nil => rfl
  | cons node rest ih =>
    obtain ⟨label, inner⟩ := node
    rw [keywordsOf, child?_cons, ih]
    split <;> rfl

/-- Whether an argument is passed by position. -/
def isPositional (node : Node) : Bool :=
  node.label.kind ≠ "keyword_argument" && node.label.kind ≠ "dictionary_splat"

theorem positional_eq (children : List Node) :
    positional source children = ((items children).filter isPositional).map (ofNode source) := by
  induction children with
  | nil => rfl
  | cons node rest ih =>
    rw [positional, items_cons, ih, Bool.and_assoc]
    cases hi : node.label.isItem with
    | false => rfl
    | true =>
      rw [if_pos rfl, List.filter_cons]
      cases hp : isPositional node <;> simp_all [isPositional]

/-- The keyword argument that a node in the arguments of a call is. -/
def keyword? (node : Node) : Option Keyword :=
  if node.label.kind = "keyword_argument" then
    some ⟨text? source "name" node.children,
      (ofField? source "value" node.children).getD (missing node.label.line)⟩
  else if node.label.kind = "dictionary_splat" then
    some ⟨none, (ofFirst? source node.children).getD (missing node.label.line)⟩
  else none

theorem keywords_eq (children : List Node) :
    keywords source children = (items children).filterMap (keyword? source) := by
  induction children with
  | nil => rfl
  | cons node rest ih =>
    obtain ⟨label, inner⟩ := node
    simp only [keywords, items_cons, ih]
    cases hi : label.isItem with
    | false => rfl
    | true =>
      by_cases h₁ : label.kind = "keyword_argument"
      · simp [keyword?, h₁]
      by_cases h₂ : label.kind = "dictionary_splat" <;> simp [keyword?, h₁, h₂]

/-- The segment of a string that starts on `line` that a node is. -/
def segment? (line : Nat) (node : Node) : Option Expr :=
  if node.label.kind = "string_content" then some (.constant (.str (node.label.text source)) line)
  else if node.label.kind = "interpolation" then
    some (.formattedValue
      (((ofField? source "expression" node.children).or (ofFirst? source node.children)).getD
        (missing node.label.line)) node.label.line)
  else none

theorem segments_eq (line : Nat) (children : List Node) :
    segments source line children = (items children).filterMap (segment? source line) := by
  induction children with
  | nil => rfl
  | cons node rest ih =>
    obtain ⟨label, inner⟩ := node
    simp only [segments, items_cons, ih]
    cases hi : label.isItem with
    | false => rfl
    | true =>
      by_cases h₁ : label.kind = "string_content"
      · simp [segment?, h₁]
      by_cases h₂ : label.kind = "interpolation" <;> simp [segment?, h₁, h₂]

theorem segmentsOfStrings_eq (children : List Node) :
    segmentsOfStrings source children =
      (stringParts children).flatMap fun node => segments source node.label.line node.children := by
  induction children with
  | nil => rfl
  | cons node rest ih =>
    obtain ⟨label, inner⟩ := node
    simp only [segmentsOfStrings, stringParts, items_cons, ih]
    cases hi : label.isItem with
    | false => rfl
    | true =>
      by_cases h : label.kind = "string" <;> simp [h]

/-- The entry of a dictionary that a node is. -/
def pairOf? (node : Node) : Option (Option Expr × Expr) :=
  if node.label.kind = "pair" then
    some (some ((ofField? source "key" node.children).getD (missing node.label.line)),
      (ofField? source "value" node.children).getD (missing node.label.line))
  else if node.label.kind = "dictionary_splat" then
    some (none, (ofFirst? source node.children).getD (missing node.label.line))
  else none

theorem ofEntries_eq (children : List Node) :
    ofEntries source children = (items children).filterMap (pairOf? source) := by
  induction children with
  | nil => rfl
  | cons node rest ih =>
    obtain ⟨label, inner⟩ := node
    simp only [ofEntries, items_cons, ih]
    cases hi : label.isItem with
    | false => rfl
    | true =>
      by_cases h₁ : label.kind = "pair"
      · simp [pairOf?, h₁]
      by_cases h₂ : label.kind = "dictionary_splat" <;> simp [pairOf?, h₁, h₂]

end Expr

/-! ## Statements -/

/-- The targets of the assignment that a right-hand side is, with those on its own right-hand side. -/
def assignedTargetsIn (node : Node) : List Expr :=
  if node.label.kind = "assignment" then
    (Expr.ofField? source "left" node.children).getD (.missing node.label.line) ::
      assignedTargets source node.children
  else []

theorem assignedTargets_eq (children : List Node) :
    assignedTargets source children =
      ((child? "right" children).map (assignedTargetsIn source)).getD [] := by
  induction children with
  | nil =>
    rw [assignedTargets]
    rfl
  | cons node rest ih =>
    obtain ⟨label, inner⟩ := node
    rw [assignedTargets, child?_cons, ih]
    split <;> rfl

/-- The value at the end of the chain that a right-hand side begins. -/
def assignedValueIn? (node : Node) : Option Expr :=
  if node.label.kind = "assignment" then assignedValue? source node.children
  else some (Expr.ofNode source node)

theorem assignedValue?_eq (children : List Node) :
    assignedValue? source children = (child? "right" children).bind (assignedValueIn? source) := by
  induction children with
  | nil =>
    rw [assignedValue?]
    rfl
  | cons node rest ih =>
    obtain ⟨label, inner⟩ := node
    rw [assignedValue?, child?_cons, ih]
    split <;> rfl

namespace Stmt

theorem block_eq (children : List Node) :
    block source children = (items children).map (ofNode source) := by
  induction children with
  | nil => rfl
  | cons node rest ih =>
    rw [block, items_cons, ih]
    split <;> rfl

/-- The items of a node, each read as a statement. -/
def blockIn (node : Node) : List Stmt :=
  block source node.children

theorem blockAt_eq (field : String) (children : List Node) :
    blockAt source field children = ((child? field children).map (blockIn source)).getD [] := by
  induction children with
  | nil => rfl
  | cons node rest ih =>
    obtain ⟨label, inner⟩ := node
    rw [blockAt, child?_cons, ih]
    split <;> rfl

/-- The function or class that a node defines. -/
def definitionIn? (decorators : List Expr) (node : Node) : Option Stmt :=
  match Statement.ofKind node.label.kind with
  | .functionDefinition =>
    some (.functionDef (.ofNode source decorators node.label node.children)
      (blockAt source "body" node.children))
  | .classDefinition =>
    some (.classDef (.ofNode source decorators node.label node.children)
      (blockAt source "body" node.children))
  | _ => none

theorem definition?_eq (decorators : List Expr) (children : List Node) :
    definition? source decorators children =
      (child? "definition" children).bind (definitionIn? source decorators) := by
  induction children with
  | nil => rfl
  | cons node rest ih =>
    obtain ⟨label, inner⟩ := node
    rw [definition?, child?_cons, ih]
    split <;> rfl

theorem elseBlock_eq (children : List Node) :
    elseBlock source children =
      ((child? "alternative" children).map fun node => blockAt source "body" node.children).getD [] := by
  induction children with
  | nil => rfl
  | cons node rest ih =>
    obtain ⟨label, inner⟩ := node
    rw [elseBlock, child?_cons, ih]
    split <;> rfl

/-- The chain of the alternatives of a conditional. An alternative that is no `elif` ends it. -/
def chainOf : List Node → List Stmt
  | [] => []
  | node :: rest =>
    if node.label.kind = "elif_clause" then
      [.branch ((Expr.ofField? source "condition" node.children).getD (.missing node.label.line))
        (blockAt source "consequence" node.children) (chainOf rest) node.label.line]
    else blockAt source "body" node.children

theorem elseChain_eq (children : List Node) :
    elseChain source children = chainOf source (childrenAt "alternative" children) := by
  induction children with
  | nil => rfl
  | cons node rest ih =>
    obtain ⟨label, inner⟩ := node
    rw [elseChain, childrenAt_cons, ih]
    split <;> rfl

theorem itemBlock_eq (children : List Node) :
    itemBlock source children =
      (((items children).find? (·.label.kind = "block")).map (blockIn source)).getD [] := by
  induction children with
  | nil => rfl
  | cons node rest ih =>
    obtain ⟨label, inner⟩ := node
    simp only [itemBlock, items_cons, ih]
    cases hi : label.isItem with
    | false => rfl
    | true => by_cases h : label.kind = "block" <;> simp [h, blockIn]

/-- The exception handler that a node is. -/
def handler? (node : Node) : Option Handler :=
  if node.label.kind = "except_clause" ∨ node.label.kind = "except_group_clause" then
    let (kind, name) := handledOf source node.children
    some ⟨kind, name, itemBlock source node.children, node.label.line⟩
  else none

theorem handlers_eq (children : List Node) :
    handlers source children = (items children).filterMap (handler? source) := by
  induction children with
  | nil => rfl
  | cons node rest ih =>
    obtain ⟨label, inner⟩ := node
    simp only [handlers, items_cons, ih]
    cases hi : label.isItem with
    | false => rfl
    | true =>
      by_cases h : label.kind = "except_clause" ∨ label.kind = "except_group_clause" <;>
        simp [handler?, h]

theorem getLast?_map_or {α β : Type} (f : α → β) (x : α) (xs : List α) :
    (xs.getLast?.map f).or (some (f x)) = (x :: xs).getLast?.map f := by
  rw [List.getLast?_cons]
  cases xs.getLast? <;> rfl

theorem lastElse?_eq (children : List Node) :
    lastElse? source children =
      ((items children).filter (·.label.kind = "else_clause")).getLast?.map
        fun node => blockAt source "body" node.children := by
  induction children with
  | nil => rfl
  | cons node rest ih =>
    obtain ⟨label, inner⟩ := node
    simp only [lastElse?, items_cons, ih]
    cases hi : label.isItem with
    | false => simp
    | true =>
      by_cases h : label.kind = "else_clause"
      · rw [if_pos rfl, List.filter_cons_of_pos (by simpa using h), ← getLast?_map_or]
        simp [h]
      · simp [h]

theorem lastFinally?_eq (children : List Node) :
    lastFinally? source children =
      ((items children).filter (·.label.kind = "finally_clause")).getLast?.map
        fun node => itemBlock source node.children := by
  induction children with
  | nil => rfl
  | cons node rest ih =>
    obtain ⟨label, inner⟩ := node
    simp only [lastFinally?, items_cons, ih]
    cases hi : label.isItem with
    | false => simp
    | true =>
      by_cases h : label.kind = "finally_clause"
      · rw [if_pos rfl, List.filter_cons_of_pos (by simpa using h), ← getLast?_map_or]
        simp [h]
      · simp [h]

end Stmt

end EntityGraph
