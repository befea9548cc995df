import EntityGraph.Extraction.Module
import EntityGraph.Proofs.Concrete.Children
import Mathlib.Data.List.Basic
import Mathlib.Logic.Relation

/-!
# Extra nodes

What a source is read as does not depend on stray nodes: nodes that are extra and that no field names,
such as comments. `Inserts` puts one such node, with all below it, somewhere into a tree.

* `filter_withoutExtrasAll`: what a reader selects from the children is there without stray nodes;
* `Expr.ofNode_withoutExtras`, `Stmt.ofNode_withoutExtras`: a node is read as without stray nodes;
* `moduleOf_eq_of_eqvGen_inserts`: trees that differ by stray nodes are read as the same module.
-/

namespace EntityGraph

open Concrete

namespace Concrete

/-! ## Children without stray nodes -/

@[simp] theorem Node.label_withoutExtras (node : Node) : node.withoutExtras.label = node.label := by
  cases node
  rfl

@[simp] theorem Node.children_withoutExtras (node : Node) :
    node.withoutExtras.children = withoutExtrasAll node.children := by
  cases node
  rfl

/-- A test that no stray node passes selects the same children. -/
theorem filter_withoutExtrasAll {test : Label → Bool}
    (htest : ∀ label, label.isStray = true → test label = false) (children : List Node) :
    (withoutExtrasAll children).filter (fun node => test node.label) =
      (children.filter fun node => test node.label).map Node.withoutExtras := by
  induction children with
  | nil => rfl
  | cons node rest ih =>
    rw [withoutExtrasAll]
    by_cases hs : node.label.isStray = true
    · rw [if_pos hs, List.filter_cons_of_neg (by simp [htest _ hs]), ih]
    · rw [if_neg hs, List.filter_cons, List.filter_cons, Node.label_withoutExtras, ih]
      split <;> rfl

theorem find?_withoutExtrasAll {test : Label → Bool}
    (htest : ∀ label, label.isStray = true → test label = false) (children : List Node) :
    (withoutExtrasAll children).find? (fun node => test node.label) =
      (children.find? fun node => test node.label).map Node.withoutExtras := by
  rw [← List.head?_filter, ← List.head?_filter, filter_withoutExtrasAll htest, List.head?_map]

theorem items_withoutExtrasAll (children : List Node) :
    items (withoutExtrasAll children) = (items children).map Node.withoutExtras := by
  refine filter_withoutExtrasAll (fun label h => ?_) children
  simp only [Label.isStray, Bool.and_eq_true] at h
  simp [Label.isItem, h.1]

theorem parts_withoutExtrasAll (children : List Node) :
    parts (withoutExtrasAll children) = (parts children).map Node.withoutExtras := by
  refine @filter_withoutExtrasAll (fun label => !label.extra) (fun label h => ?_) children
  simp only [Label.isStray, Bool.and_eq_true] at h
  simp [h.1]

theorem field_ne_of_isStray {label : Label} (h : label.isStray = true) (field : String) :
    decide (label.field = some field) = false := by
  simp only [Label.isStray, Bool.and_eq_true, Option.isNone_iff_eq_none] at h
  simp [h.2]

theorem child?_withoutExtrasAll (field : String) (children : List Node) :
    child? field (withoutExtrasAll children) = (child? field children).map Node.withoutExtras :=
  find?_withoutExtrasAll (fun _ h => field_ne_of_isStray h field) children

theorem childrenAt_withoutExtrasAll (field : String) (children : List Node) :
    childrenAt field (withoutExtrasAll children) = (childrenAt field children).map Node.withoutExtras :=
  filter_withoutExtrasAll (fun _ h => field_ne_of_isStray h field) children

theorem hasPart_withoutExtrasAll (kind : String) (children : List Node) :
    hasPart kind (withoutExtrasAll children) = hasPart kind children := by
  simp only [hasPart, parts_withoutExtrasAll, List.any_map, Function.comp_def, Node.label_withoutExtras]

/-! ### Readers that read each child alike -/

section Readers

variable {α : Type} {children : List Node}

theorem map_items_withoutExtrasAll {read : Node → α}
    (h : ∀ child ∈ children, read child.withoutExtras = read child) :
    (items (withoutExtrasAll children)).map read = (items children).map read := by
  rw [items_withoutExtrasAll, List.map_map]
  exact List.map_congr_left fun child hc => h child (List.mem_filter.mp hc).1

theorem filterMap_items_withoutExtrasAll {read : Node → Option α}
    (h : ∀ child ∈ children, read child.withoutExtras = read child) :
    (items (withoutExtrasAll children)).filterMap read = (items children).filterMap read := by
  rw [items_withoutExtrasAll, List.filterMap_map]
  exact List.filterMap_congr fun child hc => h child (List.mem_filter.mp hc).1

theorem getLast?_items_withoutExtrasAll {read : Node → α}
    (h : ∀ child ∈ children, read child.withoutExtras = read child) (kind : String) :
    ((items (withoutExtrasAll children)).filter (·.label.kind = kind)).getLast?.map read =
      ((items children).filter (·.label.kind = kind)).getLast?.map read := by
  simp only [items_withoutExtrasAll, List.filter_map, List.getLast?_map, Option.map_map,
    Function.comp_def, Node.label_withoutExtras]
  refine Option.map_congr fun child hc => h child ?_
  exact (List.mem_filter.mp (List.mem_filter.mp (List.mem_of_getLast? hc)).1).1

theorem map_child?_withoutExtrasAll {read : Node → α}
    (h : ∀ child ∈ children, read child.withoutExtras = read child) (field : String) :
    (child? field (withoutExtrasAll children)).map read = (child? field children).map read := by
  rw [child?_withoutExtrasAll, Option.map_map]
  exact Option.map_congr fun child hc => h child (List.mem_of_find?_eq_some hc)

theorem bind_child?_withoutExtrasAll {read : Node → Option α}
    (h : ∀ child ∈ children, read child.withoutExtras = read child) (field : String) :
    (child? field (withoutExtrasAll children)).bind read = (child? field children).bind read := by
  rw [child?_withoutExtrasAll, Option.bind_map]
  exact Option.bind_congr fun child hc => h child (List.mem_of_find?_eq_some hc)

theorem map_childrenAt_withoutExtrasAll {read : Node → α}
    (h : ∀ child ∈ children, read child.withoutExtras = read child) (field : String) :
    (childrenAt field (withoutExtrasAll children)).map read = (childrenAt field children).map read := by
  rw [childrenAt_withoutExtrasAll, List.map_map]
  exact List.map_congr_left fun child hc => h child (List.mem_filter.mp hc).1

end Readers

variable (source : ByteArray)

theorem text?_withoutExtrasAll (field : String) (children : List Node) :
    text? source field (withoutExtrasAll children) = text? source field children := by
  simp only [text?, child?_withoutExtrasAll, Option.map_map, Function.comp_def, Node.label_withoutExtras]

theorem firstText?_withoutExtrasAll (children : List Node) :
    firstText? source (withoutExtrasAll children) = firstText? source children := by
  simp only [firstText?, items_withoutExtrasAll, List.head?_map, Option.map_map, Function.comp_def,
    Node.label_withoutExtras]

end Concrete

/-! ## Strings -/

section Strings

variable (source : ByteArray)

theorem stringLetters_withoutExtrasAll (children : List Node) :
    stringLetters source (withoutExtrasAll children) = stringLetters source children := by
  simp only [stringLetters, parts_withoutExtrasAll, List.find?_map, Function.comp_def,
    Node.label_withoutExtras]
  cases (parts children).find? (·.label.kind = "string_start") <;> simp

theorem literalText_withoutExtrasAll (children : List Node) :
    literalText source (withoutExtrasAll children) = literalText source children := by
  simp only [literalText, items_withoutExtrasAll, List.filter_map, List.map_map, Function.comp_def,
    Node.label_withoutExtras]

theorem stringParts_withoutExtrasAll (children : List Node) :
    stringParts (withoutExtrasAll children) = (stringParts children).map Node.withoutExtras := by
  simp only [stringParts, items_withoutExtrasAll, List.filter_map, Function.comp_def,
    Node.label_withoutExtras]

theorem any_isFormatted_withoutExtrasAll (children : List Node) :
    (stringParts (withoutExtrasAll children)).any (isFormatted source ·.children) =
      (stringParts children).any (isFormatted source ·.children) := by
  simp only [stringParts_withoutExtrasAll, List.any_map, Function.comp_def, Node.children_withoutExtras,
    isFormatted, stringLetters_withoutExtrasAll]

end Strings

/-! ## Expressions -/

namespace Expr

variable (source : ByteArray)

/-- Each reader of expressions reads the children as it does without stray nodes among and below
them. -/
structure ReadsAlike (children : List Node) : Prop where
  items : ofItems source (withoutExtrasAll children) = ofItems source children
  first : ofFirst? source (withoutExtrasAll children) = ofFirst? source children
  field : ∀ field, ofField? source field (withoutExtrasAll children) = ofField? source field children
  fields : ∀ field, ofFields source field (withoutExtrasAll children) = ofFields source field children
  arguments : argumentsOf source (withoutExtrasAll children) = argumentsOf source children
  keywords : keywordsOf source (withoutExtrasAll children) = keywordsOf source children
  inPlace : positional source (withoutExtrasAll children) = positional source children
  byName : Expr.keywords source (withoutExtrasAll children) = Expr.keywords source children
  bound : ∀ colons,
    slicePart? source colons (withoutExtrasAll children) = slicePart? source colons children
  segments : ∀ line, segments source line (withoutExtrasAll children) = segments source line children
  strings : segmentsOfStrings source (withoutExtrasAll children) = segmentsOfStrings source children
  entries : ofEntries source (withoutExtrasAll children) = ofEntries source children

variable {source}

theorem ReadsAlike.ofNode {node : Node} (h : ReadsAlike source node.children) :
    Expr.ofNode source node.withoutExtras = Expr.ofNode source node := by
  obtain ⟨label, children⟩ := node
  rw [Node.withoutExtras, Expr.ofNode, Expr.ofNode]
  cases Phrase.ofKind label.kind
  case strings =>
    rw [any_isFormatted_withoutExtrasAll, h.strings, stringParts_withoutExtrasAll]
    simp only [List.map_map, Function.comp_def, Node.children_withoutExtras,
      literalText_withoutExtrasAll]
  all_goals
    simp only [h.items, h.first, h.field, h.fields, h.arguments, h.keywords, h.bound, h.segments,
      h.entries, text?_withoutExtrasAll, hasPart_withoutExtrasAll, childrenAt_withoutExtrasAll,
      stringLetters_withoutExtrasAll, literalText_withoutExtrasAll, List.map_map, Function.comp_def,
      Node.label_withoutExtras]

theorem slicePart?_withoutExtrasAll {children : List Node}
    (h : ∀ child ∈ children, Expr.ofNode source child.withoutExtras = Expr.ofNode source child)
    (colons : Nat) :
    slicePart? source colons (withoutExtrasAll children) = slicePart? source colons children := by
  induction children generalizing colons with
  | nil => rfl
  | cons node rest ih =>
    have hrest := ih fun child hc => h child (List.mem_cons_of_mem _ hc)
    rw [withoutExtrasAll]
    by_cases hs : node.label.isStray = true
    · have hextra : node.label.extra = true := by
        simp only [Label.isStray, Bool.and_eq_true] at hs
        exact hs.1
      rw [if_pos hs, hrest]
      cases colons <;> simp [slicePart?, hextra]
    · rw [if_neg hs]
      cases colons <;>
        simp only [slicePart?, Node.label_withoutExtras, hrest, h node List.mem_cons_self]

/-- Readers read alike if they do below each child. -/
theorem readsAlike_of_children {children : List Node}
    (h : ∀ child ∈ children, ReadsAlike source child.children) : ReadsAlike source children := by
  have hnode : ∀ child ∈ children, Expr.ofNode source child.withoutExtras = Expr.ofNode source child :=
    fun child hc => (h child hc).ofNode
  exact {
    items := by rw [ofItems_eq, ofItems_eq, map_items_withoutExtrasAll hnode]
    first := by
      rw [ofFirst?_eq, ofFirst?_eq, ← List.head?_map, ← List.head?_map, map_items_withoutExtrasAll hnode]
    field := fun field => by rw [ofField?_eq, ofField?_eq, map_child?_withoutExtrasAll hnode]
    fields := fun field => by rw [ofFields_eq, ofFields_eq, map_childrenAt_withoutExtrasAll hnode]
    arguments := by
      rw [argumentsOf_eq, argumentsOf_eq, map_child?_withoutExtrasAll]
      intro child hc
      simp only [argumentsIn, Node.label_withoutExtras, Node.children_withoutExtras, hnode child hc,
        (h child hc).inPlace]
    keywords := by
      rw [keywordsOf_eq, keywordsOf_eq, map_child?_withoutExtrasAll]
      intro child hc
      simp only [keywordsIn, Node.label_withoutExtras, Node.children_withoutExtras, (h child hc).byName]
    inPlace := by
      have htest : isPositional ∘ Node.withoutExtras = isPositional := by
        funext child
        simp only [Function.comp_apply, isPositional, Node.label_withoutExtras]
      rw [positional_eq, positional_eq, items_withoutExtrasAll, List.filter_map, List.map_map, htest]
      exact List.map_congr_left fun child hc =>
        hnode child (List.mem_filter.mp (List.mem_filter.mp hc).1).1
    byName := by
      rw [keywords_eq, keywords_eq, filterMap_items_withoutExtrasAll]
      intro child hc
      simp only [keyword?, Node.label_withoutExtras, Node.children_withoutExtras,
        text?_withoutExtrasAll, (h child hc).field, (h child hc).first]
    bound := slicePart?_withoutExtrasAll hnode
    segments := fun line => by
      rw [segments_eq, segments_eq, filterMap_items_withoutExtrasAll]
      intro child hc
      simp only [segment?, Node.label_withoutExtras, Node.children_withoutExtras, (h child hc).field,
        (h child hc).first]
    strings := by
      rw [segmentsOfStrings_eq, segmentsOfStrings_eq, stringParts_withoutExtrasAll, List.flatMap_map]
      refine List.flatMap_congr fun child hc => ?_
      have hmem : child ∈ children := (List.mem_filter.mp (List.mem_filter.mp hc).1).1
      rw [Node.label_withoutExtras, Node.children_withoutExtras, (h child hmem).segments]
    entries := by
      rw [ofEntries_eq, ofEntries_eq, filterMap_items_withoutExtrasAll]
      intro child hc
      simp only [pairOf?, Node.label_withoutExtras, Node.children_withoutExtras, (h child hc).field,
        (h child hc).first] }

/-- Stray nodes do not matter at any depth, by induction on the tree. -/
theorem readsAlike (children : List Node) : ReadsAlike source children :=
  readsAlike_of_children fun child _ =>
    child.induction (P := fun node => ReadsAlike source node.children) fun _ => readsAlike_of_children

theorem ofNode_withoutExtras (node : Node) :
    Expr.ofNode source node.withoutExtras = Expr.ofNode source node :=
  (readsAlike node.children).ofNode

end Expr

/-! ## Parts of statements -/

section Parts

variable (source : ByteArray)

theorem annotated_withoutExtras (node : Node) :
    annotated node.withoutExtras = (annotated node).withoutExtras := by
  simp only [annotated, Node.label_withoutExtras, Node.children_withoutExtras, items_withoutExtrasAll]
  cases items node.children with
  | nil => split <;> rfl
  | cons inner rest =>
    simp only [List.map_cons, Node.label_withoutExtras]
    split
    · split <;> rfl
    · rfl

theorem Parameter.ofNode_withoutExtras (node : Node) :
    Parameter.ofNode source node.withoutExtras = Parameter.ofNode source node := by
  rw [Parameter.ofNode, Parameter.ofNode, annotated_withoutExtras]
  obtain ⟨label, children⟩ := annotated node
  simp only [Node.withoutExtras, firstText?_withoutExtrasAll, text?_withoutExtrasAll]

theorem Parameters.ofItems_withoutExtrasAll (children : List Node) :
    Parameters.ofItems source (withoutExtrasAll children) = Parameters.ofItems source children := by
  rw [Parameters.ofItems, Parameters.ofItems, items_withoutExtrasAll, List.map_map]
  exact congrArg Parameters.ofList
    (List.map_congr_left fun node _ => Parameter.ofNode_withoutExtras source node)

theorem FunctionHeader.ofNode_withoutExtrasAll (decorators : List Expr) (label : Label)
    (children : List Node) : FunctionHeader.ofNode source decorators label (withoutExtrasAll children) =
      FunctionHeader.ofNode source decorators label children := by
  simp only [FunctionHeader.ofNode, text?_withoutExtrasAll, child?_withoutExtrasAll,
    hasPart_withoutExtrasAll]
  cases child? "parameters" children with
  | none => rfl
  | some list =>
    simp only [Option.map_some, Node.children_withoutExtras, Parameters.ofItems_withoutExtrasAll]

theorem ClassHeader.ofNode_withoutExtrasAll (decorators : List Expr) (label : Label)
    (children : List Node) : ClassHeader.ofNode source decorators label (withoutExtrasAll children) =
      ClassHeader.ofNode source decorators label children := by
  have harguments :
      items (((child? "superclasses" (withoutExtrasAll children)).map Node.children).getD []) =
        (items (((child? "superclasses" children).map Node.children).getD [])).map
          Node.withoutExtras := by
    rw [child?_withoutExtrasAll]
    cases child? "superclasses" children with
    | none => rfl
    | some list =>
      simp only [Option.map_some, Option.getD_some, Node.children_withoutExtras, items_withoutExtrasAll]
  simp only [ClassHeader.ofNode, text?_withoutExtrasAll, harguments, List.filter_map, List.map_map,
    Function.comp_def, Node.label_withoutExtras, Node.children_withoutExtras,
    Expr.ofNode_withoutExtras, (Expr.readsAlike _).field]

theorem decoratorsOf_withoutExtrasAll (children : List Node) :
    decoratorsOf source (withoutExtrasAll children) = decoratorsOf source children := by
  simp only [decoratorsOf, items_withoutExtrasAll, List.filter_map, List.filterMap_map,
    Function.comp_def, Node.label_withoutExtras, Node.children_withoutExtras, (Expr.readsAlike _).first]

theorem contextsOf_withoutExtrasAll (children : List Node) :
    contextsOf source (withoutExtrasAll children) = contextsOf source children := by
  simp only [contextsOf, items_withoutExtrasAll, List.filter_map, List.flatMap_map, List.filterMap_map,
    Function.comp_def, Node.label_withoutExtras, Node.children_withoutExtras, (Expr.readsAlike _).field]

theorem handledOf_withoutExtrasAll (children : List Node) :
    handledOf source (withoutExtrasAll children) = handledOf source children := by
  have hfound : (items (withoutExtrasAll children)).filter (·.label.kind ≠ "block") =
      ((items children).filter (·.label.kind ≠ "block")).map Node.withoutExtras := by
    simp only [items_withoutExtrasAll, List.filter_map, Function.comp_def, Node.label_withoutExtras]
  rw [handledOf, handledOf, hfound]
  generalize List.filter _ (items children) = found
  rcases found with _ | ⟨kind, _ | ⟨name, rest⟩⟩
  · rfl
  · simp only [List.map_cons, List.map_nil, Node.label_withoutExtras, Node.children_withoutExtras,
      items_withoutExtrasAll, List.getElem?_map, Option.map_map, Function.comp_def,
      Expr.ofNode_withoutExtras, (Expr.readsAlike _).first]
  · simp only [List.map_cons, Node.label_withoutExtras, Expr.ofNode_withoutExtras]

theorem Alias.ofNode_withoutExtras (node : Node) :
    Alias.ofNode source node.withoutExtras = Alias.ofNode source node := by
  simp only [Alias.ofNode, Node.label_withoutExtras, Node.children_withoutExtras, text?_withoutExtrasAll]

theorem aliasesOf_withoutExtrasAll (children : List Node) :
    aliasesOf source (withoutExtrasAll children) = aliasesOf source children := by
  simp only [aliasesOf, childrenAt_withoutExtrasAll, List.map_map, Function.comp_def,
    Alias.ofNode_withoutExtras]

theorem importedModule_withoutExtrasAll (children : List Node) :
    importedModule source (withoutExtrasAll children) = importedModule source children := by
  simp only [importedModule, child?_withoutExtrasAll]
  cases child? "module_name" children with
  | none => rfl
  | some name =>
    simp only [Option.map_some, Node.label_withoutExtras, Node.children_withoutExtras,
      items_withoutExtrasAll, List.partition_eq_filter_filter, List.filter_map, List.getLast?_map,
      Option.map_map, Function.comp_def]

theorem Stmt.ofImportFrom_withoutExtrasAll (line : Nat) (children : List Node) :
    Stmt.ofImportFrom source line (withoutExtrasAll children) =
      Stmt.ofImportFrom source line children := by
  simp only [Stmt.ofImportFrom, importedModule_withoutExtrasAll, hasPart_withoutExtrasAll,
    aliasesOf_withoutExtrasAll]

/-! ### Assignments -/

theorem assignedTargets_withoutExtrasAll (children : List Node) :
    assignedTargets source (withoutExtrasAll children) = assignedTargets source children := by
  have step : ∀ children : List Node, (∀ child ∈ children,
      assignedTargets source (withoutExtrasAll child.children) = assignedTargets source child.children) →
      assignedTargets source (withoutExtrasAll children) = assignedTargets source children := by
    intro children h
    rw [assignedTargets_eq, assignedTargets_eq, map_child?_withoutExtrasAll]
    intro child hc
    simp only [assignedTargetsIn, Node.label_withoutExtras, Node.children_withoutExtras,
      (Expr.readsAlike _).field, h child hc]
  exact step children fun child _ => child.induction fun node => step node.children

theorem assignedValue?_withoutExtrasAll (children : List Node) :
    assignedValue? source (withoutExtrasAll children) = assignedValue? source children := by
  have step : ∀ children : List Node, (∀ child ∈ children,
      assignedValue? source (withoutExtrasAll child.children) = assignedValue? source child.children) →
      assignedValue? source (withoutExtrasAll children) = assignedValue? source children := by
    intro children h
    rw [assignedValue?_eq, assignedValue?_eq, bind_child?_withoutExtrasAll]
    intro child hc
    simp only [assignedValueIn?, Node.label_withoutExtras, Node.children_withoutExtras,
      Expr.ofNode_withoutExtras, h child hc]
  exact step children fun child _ => child.induction fun node => step node.children

theorem Stmt.ofAssignment_withoutExtras (node : Node) :
    Stmt.ofAssignment source node.withoutExtras = Stmt.ofAssignment source node := by
  simp only [Stmt.ofAssignment, Node.label_withoutExtras, Node.children_withoutExtras,
    (Expr.readsAlike _).field, assignedTargets_withoutExtrasAll, assignedValue?_withoutExtrasAll]

theorem Stmt.ofExpressions_withoutExtrasAll (line : Nat) (children : List Node) :
    Stmt.ofExpressions source line (withoutExtrasAll children) =
      Stmt.ofExpressions source line children := by
  rw [Stmt.ofExpressions, Stmt.ofExpressions, items_withoutExtrasAll, (Expr.readsAlike children).items]
  rcases items children with _ | ⟨node, _ | ⟨next, rest⟩⟩
  · rfl
  · simp only [List.map_cons, List.map_nil, Node.label_withoutExtras, Node.children_withoutExtras,
      Stmt.ofAssignment_withoutExtras, (Expr.readsAlike _).field, text?_withoutExtrasAll,
      Expr.ofNode_withoutExtras]
  · rfl

end Parts

/-! ## Statements -/

namespace Stmt

variable (source : ByteArray)

/-- Each reader of statements reads the children as it does without stray nodes among and below them. -/
structure ReadsAlike (children : List Node) : Prop where
  block : block source (withoutExtrasAll children) = block source children
  blockAt : ∀ field, blockAt source field (withoutExtrasAll children) = blockAt source field children
  definition : ∀ decorators, definition? source decorators (withoutExtrasAll children) =
    definition? source decorators children
  chain : elseChain source (withoutExtrasAll children) = elseChain source children
  otherwise : elseBlock source (withoutExtrasAll children) = elseBlock source children
  itemBlock : itemBlock source (withoutExtrasAll children) = itemBlock source children
  handlers : handlers source (withoutExtrasAll children) = handlers source children
  lastElse : lastElse? source (withoutExtrasAll children) = lastElse? source children
  lastFinally : lastFinally? source (withoutExtrasAll children) = lastFinally? source children

variable {source}

theorem ReadsAlike.ofNode {node : Node} (h : ReadsAlike source node.children) :
    Stmt.ofNode source node.withoutExtras = Stmt.ofNode source node := by
  obtain ⟨label, children⟩ := node
  rw [Node.withoutExtras, Stmt.ofNode, Stmt.ofNode]
  cases Statement.ofKind label.kind <;>
    simp only [h.blockAt, h.definition, h.chain, h.otherwise, h.handlers, h.lastElse, h.lastFinally,
      FunctionHeader.ofNode_withoutExtrasAll, ClassHeader.ofNode_withoutExtrasAll,
      decoratorsOf_withoutExtrasAll, contextsOf_withoutExtrasAll, aliasesOf_withoutExtrasAll,
      ofExpressions_withoutExtrasAll, ofImportFrom_withoutExtrasAll, hasPart_withoutExtrasAll,
      (Expr.readsAlike _).first, (Expr.readsAlike _).field]

theorem chainOf_withoutExtras {alternatives : List Node}
    (h : ∀ node ∈ alternatives, ReadsAlike source node.children) :
    chainOf source (alternatives.map Node.withoutExtras) = chainOf source alternatives := by
  induction alternatives with
  | nil => rfl
  | cons node rest ih =>
    have hrest := ih fun child hc => h child (List.mem_cons_of_mem _ hc)
    rw [List.map_cons, chainOf, chainOf]
    simp only [Node.label_withoutExtras, Node.children_withoutExtras, hrest,
      (h node List.mem_cons_self).blockAt, (Expr.readsAlike _).field]

theorem readsAlike_of_children {children : List Node}
    (h : ∀ child ∈ children, ReadsAlike source child.children) : ReadsAlike source children where
  block := by
    rw [block_eq, block_eq, map_items_withoutExtrasAll]
    exact fun child hc => (h child hc).ofNode
  blockAt := fun field => by
    rw [blockAt_eq, blockAt_eq, map_child?_withoutExtrasAll]
    intro child hc
    simp only [blockIn, Node.children_withoutExtras, (h child hc).block]
  definition := fun decorators => by
    rw [definition?_eq, definition?_eq, bind_child?_withoutExtrasAll]
    intro child hc
    simp only [definitionIn?, Node.label_withoutExtras, Node.children_withoutExtras,
      FunctionHeader.ofNode_withoutExtrasAll, ClassHeader.ofNode_withoutExtrasAll, (h child hc).blockAt]
  chain := by
    rw [elseChain_eq, elseChain_eq, childrenAt_withoutExtrasAll]
    exact chainOf_withoutExtras fun child hc => h child (List.mem_filter.mp hc).1
  otherwise := by
    rw [elseBlock_eq, elseBlock_eq, map_child?_withoutExtrasAll]
    intro child hc
    rw [Node.children_withoutExtras, (h child hc).blockAt]
  itemBlock := by
    rw [itemBlock_eq, itemBlock_eq, items_withoutExtrasAll, List.find?_map, Option.map_map]
    congr 1
    simp only [Function.comp_def, Node.label_withoutExtras]
    refine Option.map_congr fun child hc => ?_
    have hmem : child ∈ children := (List.mem_filter.mp (List.mem_of_find?_eq_some hc)).1
    simp only [blockIn, Node.children_withoutExtras, (h child hmem).block]
  handlers := by
    rw [handlers_eq, handlers_eq, filterMap_items_withoutExtrasAll]
    intro child hc
    simp only [handler?, Node.label_withoutExtras, Node.children_withoutExtras,
      handledOf_withoutExtrasAll, (h child hc).itemBlock]
  lastElse := by
    rw [lastElse?_eq, lastElse?_eq, getLast?_items_withoutExtrasAll]
    intro child hc
    rw [Node.children_withoutExtras, (h child hc).blockAt]
  lastFinally := by
    rw [lastFinally?_eq, lastFinally?_eq, getLast?_items_withoutExtrasAll]
    intro child hc
    rw [Node.children_withoutExtras, (h child hc).itemBlock]

theorem readsAlike (children : List Node) : ReadsAlike source children :=
  readsAlike_of_children fun child _ =>
    child.induction (P := fun node => ReadsAlike source node.children) fun _ => readsAlike_of_children

theorem ofNode_withoutExtras (node : Node) :
    Stmt.ofNode source node.withoutExtras = Stmt.ofNode source node :=
  (readsAlike node.children).ofNode

end Stmt

theorem moduleOf_withoutExtras (source : ByteArray) (root : Node) :
    moduleOf source root.withoutExtras = moduleOf source root := by
  rw [moduleOf, moduleOf, Node.children_withoutExtras, (Stmt.readsAlike root.children).block]

/-! ## Trees that differ by stray nodes -/

/-- The second tree is the first with one stray node, and all below it, put among the children of some
node. -/
inductive Concrete.Inserts : Node → Node → Prop
  | here (label : Label) (before after : List Node) {stray : Node} :
    stray.label.isStray = true → Inserts ⟨label, before ++ after⟩ ⟨label, before ++ stray :: after⟩
  | inside (label : Label) (before after : List Node) {inner outer : Node} :
    Inserts inner outer → Inserts ⟨label, before ++ inner :: after⟩ ⟨label, before ++ outer :: after⟩

namespace Concrete

theorem withoutExtrasAll_append (first second : List Node) :
    withoutExtrasAll (first ++ second) = withoutExtrasAll first ++ withoutExtrasAll second := by
  induction first with
  | nil => rfl
  | cons node rest ih =>
    rw [List.cons_append, withoutExtrasAll, withoutExtrasAll, ih]
    split <;> rfl

theorem withoutExtrasAll_cons_of_isStray {stray : Node} (h : stray.label.isStray = true)
    (rest : List Node) : withoutExtrasAll (stray :: rest) = withoutExtrasAll rest := by
  rw [withoutExtrasAll, if_pos h]

theorem Inserts.label_eq {inner outer : Node} (h : Inserts inner outer) : inner.label = outer.label := by
  cases h <;> rfl

theorem Inserts.withoutExtras_eq {inner outer : Node} (h : Inserts inner outer) :
    inner.withoutExtras = outer.withoutExtras := by
  induction h with
  | here label before after hstray =>
    rw [Node.withoutExtras, Node.withoutExtras, withoutExtrasAll_append, withoutExtrasAll_append,
      withoutExtrasAll_cons_of_isStray hstray]
  | inside label before after hinner ih =>
    rw [Node.withoutExtras, Node.withoutExtras, withoutExtrasAll_append, withoutExtrasAll_append,
      withoutExtrasAll, withoutExtrasAll, ih, hinner.label_eq]

end Concrete

/-- Trees that differ only by stray nodes, put in or left out at any places, are read as the same
module, from which the same graph is extracted. -/
theorem moduleOf_eq_of_eqvGen_inserts {source : ByteArray} {first second : Node}
    (h : Relation.EqvGen Inserts first second) :
    moduleOf source first = moduleOf source second ∧
      ∀ settings files root path, File.ofModule settings files root path (moduleOf source first) =
        File.ofModule settings files root path (moduleOf source second) := by
  have hbare : first.withoutExtras = second.withoutExtras := by
    induction h with
    | rel _ _ hstep => exact hstep.withoutExtras_eq
    | refl _ => rfl
    | symm _ _ _ ih => exact ih.symm
    | trans _ _ _ _ _ ih₁ ih₂ => exact ih₁.trans ih₂
  have hmodule : moduleOf source first = moduleOf source second := by
    rw [← moduleOf_withoutExtras source first, ← moduleOf_withoutExtras source second, hbare]
  exact ⟨hmodule, fun _ _ _ _ => by rw [hmodule]⟩

namespace Concrete

/-- A node of the one line `x # y`, with its range. -/
def sampleNode (kind : String) (start stop : Nat) (extra : Bool) (children : List Node) : Node :=
  ⟨⟨kind, none, true, extra, false, start, stop, 0⟩, children⟩

def sampleComment : Node :=
  sampleNode "comment" 2 5 true []

def sampleName : Node :=
  sampleNode "identifier" 0 1 false []

def sampleStatement (further : List Node) : Node :=
  sampleNode "expression_statement" 0 1 false (sampleName :: further)

/-- The tree of `x # y` with the comment after the statement. -/
def commentAfter : Node :=
  sampleNode "module" 0 5 false [sampleStatement [], sampleComment]

/-- The tree of `x # y` with the comment in the statement. -/
def commentInside : Node :=
  sampleNode "module" 0 5 false [sampleStatement [sampleComment]]

end Concrete

theorem moduleOf_comment_moved :
    moduleOf "x # y".toUTF8 commentAfter = moduleOf "x # y".toUTF8 commentInside ∧
    ∀ settings files root path,
      File.ofModule settings files root path (moduleOf "x # y".toUTF8 commentAfter) =
        File.ofModule settings files root path (moduleOf "x # y".toUTF8 commentInside) :=
  moduleOf_eq_of_eqvGen_inserts <| .trans _ _ _
    (.symm _ _ <| .rel _ _ <| .here _ [sampleStatement []] [] rfl)
    (.rel _ _ <| .inside _ [] [] <| .here _ [sampleName] [] rfl)

end EntityGraph
