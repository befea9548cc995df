import EntityGraph.Proofs.Concrete.Children
import EntityGraph.Proofs.Program.WellFormed

/-!
# What concrete trees are read as is well-formed

Whatever a concrete tree looks like, also one with parts missing or out of place, the statements and
expressions read from it are well-formed.

* `Expr.ofNode_proper`: every node is read as a proper expression;
* `Stmt.ofNode_proper`: every node is read as a proper statement;
* `moduleOf_wellFormed`: both for a whole module, and what it means for the outputs of dictionaries.
-/

namespace EntityGraph

open Concrete

theorem Concrete.Label.line_pos (label : Label) : 1 ≤ label.line :=
  Nat.le_add_left 1 label.row

/-- What holds of all that is read from a node that is found holds of all that is read. -/
theorem forall_mem_getD_map {α β : Type} {P : β → Prop} {found : Option α} {read : α → List β}
    (h : ∀ a ∈ found, ∀ b ∈ read a, P b) : ∀ b ∈ (found.map read).getD [], P b := by
  cases found with
  | none => exact List.forall_mem_nil _
  | some a => exact h a rfl

/-! ## Expressions -/

namespace Expr

theorem getD_missing_proper {found : Option Expr} (h : ∀ e ∈ found, e.Proper) {line : Nat}
    (hline : 1 ≤ line) : (found.getD (missing line)).Proper := by
  cases found with
  | none => exact missing_proper hline
  | some e => exact h e rfl

theorem openLeft_proper {op : String} {left : Expr} (h : left.Proper) :
    ∀ e ∈ openLeft op left, e.Proper := by
  intro e he
  cases left with
  | boolOp inner values line =>
    rw [openLeft] at he
    split at he
    · exact h.child rfl he
    · rw [List.mem_singleton.mp he]
      exact h
  | _ =>
    rw [List.mem_singleton.mp he]
    exact h

/-- The first operand of an opened operation is no operation with the same operator: that of an inner
operation is not, as the inner operation is well-formed. -/
theorem openLeft_head? {op : String} {left : Expr} (h : left.WellFormed) :
    ∃ first rest, openLeft op left = first :: rest ∧ ∀ inner line, first ≠ .boolOp op inner line := by
  cases left with
  | boolOp inner values line =>
    rw [openLeft]
    split
    · next heq =>
      subst heq
      obtain ⟨hlength, hhead⟩ := h.partsFit
      obtain _ | ⟨first, rest⟩ := values
      · simp at hlength
      · exact ⟨first, rest, rfl, fun inner line heq => hhead inner line (congrArg some heq)⟩
    · next hne =>
      refine ⟨_, [], rfl, fun inner line heq => hne ?_⟩
      cases heq
      rfl
  | _ => exact ⟨_, [], rfl, fun _ _ heq => by cases heq⟩

theorem boolOp_proper {op : String} {left right : Expr} {line : Nat} (hline : 1 ≤ line)
    (hleft : left.Proper) (hright : right.Proper) :
    (boolOp op (openLeft op left ++ [right]) line).Proper := by
  obtain ⟨first, rest, hopen, hfirst⟩ := @openLeft_head? op left (hleft.wellFormed left .self)
  have hfit : (boolOp op (openLeft op left ++ [right]) line).PartsFit := by
    rw [hopen]
    refine ⟨by simp, fun inner line heq => ?_⟩
    exact hfirst inner line (Option.some.inj heq)
  refine .of_children hline hfit rfl ?_
  exact List.forall_mem_append.mpr ⟨openLeft_proper hleft, List.forall_mem_singleton.mpr hright⟩

/-! ### Readers of children -/

variable (source : ByteArray)

/-- All nodes among and below the children are read as proper expressions. -/
def ReadsProper (children : List Node) : Prop :=
  ∀ node, Under node children → (ofNode source node).Proper

namespace ReadsProper

variable {source} {children : List Node} (h : ReadsProper source children)
include h

theorem inside {node : Node} (hn : node ∈ children) : ReadsProper source node.children :=
  fun inner hinner => h inner (.inside hn hinner)

theorem items : ∀ e ∈ ofItems source children, e.Proper := by
  intro e he
  rw [ofItems_eq] at he
  obtain ⟨node, hn, rfl⟩ := List.mem_map.mp he
  exact h node (.listed (List.mem_filter.mp hn).1)

theorem first : ∀ e ∈ ofFirst? source children, e.Proper := by
  intro e he
  rw [ofFirst?_eq] at he
  obtain ⟨node, hn, rfl⟩ := Option.map_eq_some_iff.mp he
  exact h node (.listed (List.mem_filter.mp (List.mem_of_head? hn)).1)

theorem field (field : String) : ∀ e ∈ ofField? source field children, e.Proper := by
  intro e he
  rw [ofField?_eq] at he
  obtain ⟨node, hn, rfl⟩ := Option.map_eq_some_iff.mp he
  exact h node (.listed (mem_of_child? hn))

theorem fields (field : String) : ∀ e ∈ ofFields source field children, e.Proper := by
  intro e he
  rw [ofFields_eq] at he
  obtain ⟨node, hn, rfl⟩ := List.mem_map.mp he
  exact h node (.listed (List.mem_filter.mp hn).1)

theorem inPlace : ∀ e ∈ positional source children, e.Proper := by
  intro e he
  rw [positional_eq] at he
  obtain ⟨node, hn, rfl⟩ := List.mem_map.mp he
  exact h node (.listed (List.mem_filter.mp (List.mem_filter.mp hn).1).1)

theorem arguments : ∀ e ∈ argumentsOf source children, e.Proper := by
  rw [argumentsOf_eq]
  refine forall_mem_getD_map fun node hn => ?_
  rw [argumentsIn]
  split
  · exact List.forall_mem_singleton.mpr (h node (.listed (mem_of_child? hn)))
  · exact (h.inside (mem_of_child? hn)).inPlace

theorem byName : ∀ keyword ∈ keywords source children, keyword.value.Proper := by
  intro keyword hk
  rw [keywords_eq] at hk
  obtain ⟨node, hn, hkeyword⟩ := List.mem_filterMap.mp hk
  have hinside := h.inside (mem_of_mem_items hn)
  rw [keyword?] at hkeyword
  split at hkeyword
  · cases hkeyword
    exact getD_missing_proper (hinside.field "value") node.label.line_pos
  · split at hkeyword
    · cases hkeyword
      exact getD_missing_proper hinside.first node.label.line_pos
    · cases hkeyword

theorem keywords : ∀ keyword ∈ keywordsOf source children, keyword.value.Proper := by
  rw [keywordsOf_eq]
  refine forall_mem_getD_map fun node hn => ?_
  rw [keywordsIn]
  split
  · exact List.forall_mem_nil _
  · exact (h.inside (mem_of_child? hn)).byName

theorem bound (colons : Nat) : ∀ e ∈ slicePart? source colons children, e.Proper := by
  -- The induction drops the children one by one, and looks below none of them.
  have hmem : ∀ node ∈ children, (ofNode source node).Proper := fun node hn => h node (.listed hn)
  clear h
  induction children generalizing colons with
  | nil => cases colons <;> rintro _ ⟨⟩
  | cons node rest ih =>
    have hrest (colons : Nat) := ih colons fun other ho => hmem other (List.mem_cons_of_mem _ ho)
    cases colons with
    | zero =>
      rw [slicePart?]
      split
      · exact hrest 0
      · split
        · rintro _ ⟨⟩
        · split
          · intro e he
            rcases Option.or_eq_some_iff.mp he with he | ⟨-, he⟩
            · exact hrest 0 e he
            · cases he
              exact hmem node List.mem_cons_self
          · exact hrest 0
    | succ colons =>
      rw [slicePart?]
      split
      · exact hrest colons
      · exact hrest (colons + 1)

/-- The segments of strings are text, or interpolate something proper. -/
theorem segments {line : Nat} (hline : 1 ≤ line) : ∀ segment ∈ segments source line children,
    segment.isSegment = true ∧ ∀ part : Expr, part.OccursIn segment → part.WellFormed := by
  intro segment hs
  rw [segments_eq] at hs
  obtain ⟨node, hn, hsegment⟩ := List.mem_filterMap.mp hs
  have hinside := h.inside (mem_of_mem_items hn)
  rw [segment?] at hsegment
  split at hsegment
  · cases hsegment
    exact ⟨rfl, wellFormed_of_children hline trivial (List.forall_mem_nil _)⟩
  · split at hsegment
    · cases hsegment
      refine ⟨rfl, wellFormed_of_children node.label.line_pos trivial ?_⟩
      refine List.forall_mem_singleton.mpr (getD_missing_proper ?_ node.label.line_pos)
      intro e he
      rcases Option.or_eq_some_iff.mp he with he | ⟨-, he⟩
      · exact hinside.field "expression" e he
      · exact hinside.first e he
    · cases hsegment

theorem strings : ∀ segment ∈ segmentsOfStrings source children,
    segment.isSegment = true ∧ ∀ part : Expr, part.OccursIn segment → part.WellFormed := by
  intro segment hs
  rw [segmentsOfStrings_eq] at hs
  obtain ⟨node, hn, hsegment⟩ := List.mem_flatMap.mp hs
  have hmem : node ∈ children := (List.mem_filter.mp (List.mem_filter.mp hn).1).1
  exact (h.inside hmem).segments node.label.line_pos segment hsegment

theorem entries : ∀ entry ∈ ofEntries source children,
    (∀ key ∈ entry.1, Expr.Proper key) ∧ entry.2.Proper := by
  intro entry he
  rw [ofEntries_eq] at he
  obtain ⟨node, hn, hentry⟩ := List.mem_filterMap.mp he
  have hinside := h.inside (mem_of_mem_items hn)
  have hfield (field : String) :=
    getD_missing_proper (hinside.field field) node.label.line_pos
  rw [pairOf?] at hentry
  split at hentry
  · cases hentry
    refine ⟨?_, hfield "value"⟩
    rintro _ ⟨⟩
    exact hfield "key"
  · split at hentry
    · cases hentry
      refine ⟨?_, getD_missing_proper hinside.first node.label.line_pos⟩
      rintro _ ⟨⟩
    · cases hentry

end ReadsProper

/-! ### Nodes -/

variable {source}

/-- A node is read as a proper expression if the nodes below it are. -/
theorem ReadsProper.ofNode {node : Node} (h : ReadsProper source node.children) :
    (ofNode source node).Proper := by
  obtain ⟨label, children⟩ := node
  have hline := label.line_pos
  have hfield (field : String) := getD_missing_proper (h.field field) hline
  have hfirst := getD_missing_proper h.first hline
  have hitems := h.items
  have hoption {found : Option Expr} (hfound : ∀ e ∈ found, e.Proper) :
      ∀ child ∈ found.toList, child.Proper :=
    fun child hc => hfound child (Option.mem_toList.mp hc)
  have hnone : ∀ child ∈ ([] : List Expr), child.Proper := List.forall_mem_nil _
  have hone {a : Expr} (ha : a.Proper) : ∀ child ∈ [a], child.Proper :=
    List.forall_mem_singleton.mpr ha
  have htwo {a b : Expr} (ha : a.Proper) (hb : b.Proper) : ∀ child ∈ [a, b], child.Proper :=
    List.forall_mem_cons.mpr ⟨ha, hone hb⟩
  rw [Expr.ofNode]
  cases Phrase.ofKind label.kind with
  | name => exact .of_children hline trivial rfl hnone
  | «attribute» => exact .of_children hline trivial rfl (hone (hfield "object"))
  | call =>
    refine .of_children hline trivial rfl (List.forall_mem_cons.mpr ⟨hfield "function", ?_⟩)
    exact List.forall_mem_append.mpr ⟨h.arguments, List.forall_mem_map.mpr h.keywords⟩
  | binary => exact .of_children hline trivial rfl (htwo (hfield "left") (hfield "right"))
  | unary => exact .of_children hline trivial rfl (hone (hfield "argument"))
  | not => exact .of_children hline trivial rfl (hone (hfield "argument"))
  | boolean => exact boolOp_proper hline (hfield "left") (hfield "right")
  | comparison =>
    dsimp only
    split
    · exact .of_children hline trivial rfl (hone (missing_proper hline))
    · next left comparators heq =>
      rw [heq] at hitems
      exact .of_children hline trivial rfl hitems
  | conditional =>
    have hoperand (i : Nat) : ((ofItems source children)[i]?.getD (missing label.line)).Proper :=
      getD_missing_proper (fun e he => hitems e (List.mem_of_getElem? he)) hline
    refine .of_children hline trivial rfl (List.forall_mem_cons.mpr ⟨hoperand 1, ?_⟩)
    exact htwo (hoperand 0) (hoperand 2)
  | subscript =>
    refine .of_children hline trivial rfl (htwo (hfield "value") ?_)
    have hindices := h.fields "subscript"
    split
    · next single heq => exact hindices single (heq ▸ List.mem_cons_self)
    · exact .of_children hline trivial rfl hindices
  | slice =>
    have hpart (colons : Nat) := hoption (h.bound colons)
    refine .of_children hline trivial rfl ?_
    refine List.forall_mem_append.mpr ⟨List.forall_mem_append.mpr ⟨hpart 0, hpart 1⟩, hpart 2⟩
  | string =>
    dsimp only
    split
    · exact joinedStr_proper hline (h.segments hline)
    · split <;> exact .of_children hline trivial rfl hnone
  | strings =>
    dsimp only
    split
    · exact joinedStr_proper hline h.strings
    · exact .of_children hline trivial rfl hnone
  | number => exact .of_children hline trivial rfl hnone
  | constant value => exact .of_children hline trivial rfl hnone
  | tuple => exact .of_children hline trivial rfl hitems
  | list => exact .of_children hline trivial rfl hitems
  | set => exact .of_children hline trivial rfl hitems
  | dictionary =>
    have hfit : ((ofEntries source children).map (·.1)).length =
        ((ofEntries source children).map (·.2)).length := by
      rw [List.length_map, List.length_map]
    refine .of_children hline hfit rfl (List.forall_mem_append.mpr ⟨fun key hk => ?_, ?_⟩)
    · obtain ⟨_, hkey, rfl⟩ := List.mem_filterMap.mp hk
      obtain ⟨entry, he, hentry⟩ := List.mem_map.mp hkey
      exact (h.entries entry he).1 key hentry
    · exact List.forall_mem_map.mpr fun entry he => (h.entries entry he).2
  | comprehension kind => exact .of_children hline trivial rfl hnone
  | lambda => exact .of_children hline trivial rfl hnone
  | await => exact .of_children hline trivial rfl (hone hfirst)
  | yield =>
    dsimp only
    split
    · next value _ heq => exact .of_children hline trivial rfl (hone (h.first value heq))
    · exact .of_children hline trivial rfl (hoption h.first)
  | splat => exact .of_children hline trivial rfl (hone hfirst)
  | named => exact .of_children hline trivial rfl (htwo (hfield "name") (hfield "value"))
  | wrapper => exact hfirst
  | other => exact .of_children hline trivial rfl hnone

/-- Every node is read as a proper expression, by induction on the tree. -/
theorem ofNode_proper (source : ByteArray) (node : Node) : (ofNode source node).Proper :=
  node.strongInduction fun _ => ReadsProper.ofNode

theorem readsProper (source : ByteArray) (children : List Node) : ReadsProper source children :=
  fun node _ => ofNode_proper source node

end Expr

/-! ## Expressions of statements -/

section Parts

variable (source : ByteArray)

theorem ofField?_getD_proper (field : String) (children : List Node) (label : Label) :
    ((Expr.ofField? source field children).getD (.missing label.line)).Proper :=
  Expr.getD_missing_proper ((Expr.readsProper source children).field field) label.line_pos

theorem assignedTargets_proper (children : List Node) :
    ∀ e ∈ assignedTargets source children, e.Proper := by
  have step : ∀ children : List Node,
      (∀ child ∈ children, ∀ e ∈ assignedTargets source child.children, e.Proper) →
      ∀ e ∈ assignedTargets source children, e.Proper := by
    intro children h
    rw [assignedTargets_eq]
    refine forall_mem_getD_map fun node hn => ?_
    have htarget := ofField?_getD_proper source "left" node.children node.label
    rw [assignedTargetsIn]
    split
    · exact List.forall_mem_cons.mpr ⟨htarget, h node (mem_of_child? hn)⟩
    · exact List.forall_mem_nil _
  exact step children fun child _ => child.induction fun node => step node.children

theorem assignedValue?_proper (children : List Node) :
    ∀ e ∈ assignedValue? source children, e.Proper := by
  have step : ∀ children : List Node,
      (∀ child ∈ children, ∀ e ∈ assignedValue? source child.children, e.Proper) →
      ∀ e ∈ assignedValue? source children, e.Proper := by
    intro children h e he
    rw [assignedValue?_eq] at he
    obtain ⟨node, hn, hvalue⟩ := Option.bind_eq_some_iff.mp he
    rw [assignedValueIn?] at hvalue
    split at hvalue
    · exact h node (mem_of_child? hn) e hvalue
    · cases hvalue
      exact Expr.ofNode_proper source node
  exact step children fun child _ => child.induction fun node => step node.children

theorem decoratorsOf_proper (children : List Node) :
    ∀ e ∈ decoratorsOf source children, e.Proper := by
  intro e he
  obtain ⟨decorator, -, hfirst⟩ := List.mem_filterMap.mp he
  exact (Expr.readsProper source decorator.children).first e hfirst

theorem contextsOf_proper (children : List Node) : ∀ e ∈ contextsOf source children, e.Proper := by
  intro e he
  obtain ⟨clause, -, hclause⟩ := List.mem_flatMap.mp he
  obtain ⟨item, -, hvalue⟩ := List.mem_filterMap.mp hclause
  exact (Expr.readsProper source item.children).field "value" e hvalue

theorem handledOf_proper (children : List Node) :
    ∀ e ∈ (handledOf source children).1, e.Proper := by
  intro e he
  rw [handledOf] at he
  split at he
  · cases he
  · next pattern _ =>
    split at he
    · exact (Expr.readsProper source pattern.children).first e he
    · cases he
      exact Expr.ofNode_proper source pattern
  · next kind _ _ _ =>
    cases he
    exact Expr.ofNode_proper source kind

end Parts

/-! ## Statements -/

namespace Stmt

variable {source : ByteArray}

theorem ofAssignment_proper (node : Node) : (ofAssignment source node).Proper := by
  have hline := node.label.line_pos
  have hreads := Expr.readsProper source node.children
  have htarget := ofField?_getD_proper source "left" node.children node.label
  rw [ofAssignment]
  split
  · next annotation hannotation =>
    refine .of_exprs hline trivial rfl (List.forall_mem_cons.mpr ⟨htarget, ?_⟩)
    refine List.forall_mem_cons.mpr ⟨hreads.field "type" annotation hannotation, fun e he => ?_⟩
    exact hreads.field "right" e (Option.mem_toList.mp he)
  · refine .of_exprs hline (List.cons_ne_nil _ _) rfl (List.forall_mem_cons.mpr ⟨htarget, ?_⟩)
    have hvalue := Expr.getD_missing_proper (assignedValue?_proper source node.children) hline
    exact List.forall_mem_append.mpr
      ⟨assignedTargets_proper source node.children, List.forall_mem_singleton.mpr hvalue⟩

theorem ofExpressions_proper {line : Nat} (hline : 1 ≤ line) (children : List Node) :
    (ofExpressions source line children).Proper := by
  have hexpr {e : Expr} (he : e.Proper) : (Stmt.expr e line).Proper :=
    .of_exprs hline trivial rfl (List.forall_mem_singleton.mpr he)
  rw [ofExpressions]
  split
  · next node _ =>
    split
    · exact ofAssignment_proper node
    · have hfield (field : String) := ofField?_getD_proper source field node.children node.label
      refine .of_exprs node.label.line_pos trivial rfl (List.forall_mem_cons.mpr ⟨hfield "left", ?_⟩)
      exact List.forall_mem_singleton.mpr (hfield "right")
    · exact hexpr (Expr.ofNode_proper source node)
  · exact hexpr (.of_children hline trivial rfl (Expr.readsProper source children).items)

/-! ### Definitions -/

theorem functionDef_proper {decorators : List Expr} {label : Label} {children : List Node}
    {body : List Stmt} (hdecorators : ∀ e ∈ decorators, e.Proper) (hbody : ∀ stmt ∈ body, stmt.Proper) :
    (functionDef (.ofNode source decorators label children) body).Proper :=
  .of_blocks label.line_pos trivial hdecorators (List.forall_mem_singleton.mpr hbody)

theorem classDef_proper {decorators : List Expr} {label : Label} {children : List Node}
    {body : List Stmt} (hdecorators : ∀ e ∈ decorators, e.Proper) (hbody : ∀ stmt ∈ body, stmt.Proper) :
    (classDef (.ofNode source decorators label children) body).Proper := by
  refine .of_blocks label.line_pos trivial ?_ (List.forall_mem_singleton.mpr hbody)
  refine List.forall_mem_append.mpr ⟨List.forall_mem_append.mpr ⟨hdecorators, ?_⟩, ?_⟩
  · exact List.forall_mem_map.mpr fun base _ => Expr.ofNode_proper source base
  · refine List.forall_mem_map.mpr (List.forall_mem_map.mpr fun argument _ => ?_)
    exact ofField?_getD_proper source "value" argument.children argument.label

/-! ### Readers of children -/

variable (source)

/-- All nodes among and below the children are read as proper statements. -/
def ReadsProper (children : List Node) : Prop :=
  ∀ node, Under node children → (ofNode source node).Proper

namespace ReadsProper

variable {source} {children : List Node} (h : ReadsProper source children)
include h

theorem inside {node : Node} (hn : node ∈ children) : ReadsProper source node.children :=
  fun inner hinner => h inner (.inside hn hinner)

theorem block : ∀ stmt ∈ block source children, stmt.Proper := by
  intro stmt hs
  rw [block_eq] at hs
  obtain ⟨node, hn, rfl⟩ := List.mem_map.mp hs
  exact h node (.listed (List.mem_filter.mp hn).1)

theorem blockAt (field : String) : ∀ stmt ∈ blockAt source field children, stmt.Proper := by
  rw [blockAt_eq]
  exact forall_mem_getD_map fun node hn => (h.inside (mem_of_child? hn)).block

theorem itemBlock : ∀ stmt ∈ itemBlock source children, stmt.Proper := by
  rw [itemBlock_eq]
  refine forall_mem_getD_map fun node hn => ?_
  exact (h.inside (mem_of_mem_items (List.mem_of_find?_eq_some hn))).block

theorem definition {decorators : List Expr} (hdecorators : ∀ e ∈ decorators, e.Proper) :
    ∀ stmt ∈ definition? source decorators children, stmt.Proper := by
  intro stmt hs
  rw [definition?_eq] at hs
  obtain ⟨node, hn, hdefinition⟩ := Option.bind_eq_some_iff.mp hs
  have hbody := (h.inside (mem_of_child? hn)).blockAt "body"
  rw [definitionIn?] at hdefinition
  split at hdefinition
  · cases hdefinition
    exact functionDef_proper hdecorators hbody
  · cases hdefinition
    exact classDef_proper hdecorators hbody
  · cases hdefinition

theorem otherwise : ∀ stmt ∈ elseBlock source children, stmt.Proper := by
  rw [elseBlock_eq]
  exact forall_mem_getD_map fun node hn => (h.inside (mem_of_child? hn)).blockAt "body"

/-- The alternatives of a conditional, by induction on them. -/
theorem chain : ∀ stmt ∈ elseChain source children, stmt.Proper := by
  have halternatives : ∀ node ∈ childrenAt "alternative" children, ReadsProper source node.children :=
    fun node hn => h.inside (List.mem_filter.mp hn).1
  -- What follows an `elif` is the chain of the remaining alternatives.
  rw [elseChain_eq]
  generalize childrenAt "alternative" children = alternatives at halternatives ⊢
  induction alternatives with
  | nil => exact List.forall_mem_nil _
  | cons node rest ih =>
    obtain ⟨hnode, hrest⟩ := List.forall_mem_cons.mp halternatives
    have htest := ofField?_getD_proper source "condition" node.children node.label
    rw [chainOf]
    split
    · refine List.forall_mem_singleton.mpr (.of_blocks node.label.line_pos trivial ?_ ?_)
      · exact List.forall_mem_singleton.mpr htest
      · exact List.forall_mem_cons.mpr
          ⟨hnode.blockAt "consequence", List.forall_mem_singleton.mpr (ih hrest)⟩
    · exact hnode.blockAt "body"

theorem handlers : ∀ handler ∈ handlers source children, 1 ≤ handler.line ∧
    (∀ e ∈ handler.kind, e.Proper) ∧ ∀ stmt ∈ handler.body, stmt.Proper := by
  intro handler hh
  rw [handlers_eq] at hh
  obtain ⟨node, hn, hhandler⟩ := List.mem_filterMap.mp hh
  rw [handler?] at hhandler
  split at hhandler
  · cases hhandler
    have hbody := (h.inside (mem_of_mem_items hn)).itemBlock
    exact ⟨node.label.line_pos, handledOf_proper source node.children, hbody⟩
  · cases hhandler

theorem lastElse : ∀ stmt ∈ (lastElse? source children).getD [], stmt.Proper := by
  rw [lastElse?_eq]
  refine forall_mem_getD_map fun node hn => ?_
  have hitem := (List.mem_filter.mp (List.mem_of_getLast? hn)).1
  exact (h.inside (mem_of_mem_items hitem)).blockAt "body"

theorem lastFinally : ∀ stmt ∈ (lastFinally? source children).getD [], stmt.Proper := by
  rw [lastFinally?_eq]
  refine forall_mem_getD_map fun node hn => ?_
  have hitem := (List.mem_filter.mp (List.mem_of_getLast? hn)).1
  exact (h.inside (mem_of_mem_items hitem)).itemBlock

end ReadsProper

/-! ### Nodes -/

variable {source}

/-- A node is read as a proper statement if the nodes below it are. -/
theorem ReadsProper.ofNode {node : Node} (h : ReadsProper source node.children) :
    (ofNode source node).Proper := by
  obtain ⟨label, children⟩ := node
  have hline := label.line_pos
  have hfield (field : String) := ofField?_getD_proper source field children label
  have htest := List.forall_mem_singleton.mpr (hfield "condition")
  have hblock (field : String) := h.blockAt field
  have htwo {first second : List Stmt} (hfirst : ∀ stmt ∈ first, stmt.Proper)
      (hsecond : ∀ stmt ∈ second, stmt.Proper) : ∀ block ∈ [first, second], ∀ stmt ∈ block, stmt.Proper :=
    List.forall_mem_cons.mpr ⟨hfirst, List.forall_mem_singleton.mpr hsecond⟩
  have hnone : ∀ e ∈ ([] : List Expr), e.Proper := List.forall_mem_nil _
  rw [Stmt.ofNode]
  cases Statement.ofKind label.kind with
  | functionDefinition => exact functionDef_proper hnone (hblock "body")
  | classDefinition => exact classDef_proper hnone (hblock "body")
  | decorated =>
    have hmissing : (Stmt.other "ERROR" label.line).Proper := .of_exprs hline trivial rfl hnone
    have hdefinition := h.definition (decoratorsOf_proper source children)
    dsimp only
    cases hfound : definition? source (decoratorsOf source children) children with
    | none => exact hmissing
    | some stmt => exact hdefinition stmt hfound
  | expression => exact ofExpressions_proper hline children
  | «return» =>
    refine .of_exprs hline trivial rfl fun e he => ?_
    exact (Expr.readsProper source children).first e (Option.mem_toList.mp he)
  | branch => exact .of_blocks hline trivial htest (htwo (hblock "consequence") h.chain)
  | «while» => exact .of_blocks hline trivial htest (htwo (hblock "body") h.otherwise)
  | «for» =>
    have hexprs := List.forall_mem_cons.mpr ⟨hfield "left", List.forall_mem_singleton.mpr (hfield "right")⟩
    exact .of_blocks hline trivial hexprs (htwo (hblock "body") h.otherwise)
  | «try» =>
    refine .of_blocks hline (fun handler hh => (h.handlers handler hh).1) (fun e he => ?_) ?_
    · obtain ⟨handler, hh, hkind⟩ := List.mem_filterMap.mp he
      exact (h.handlers handler hh).2.1 e hkind
    · have hhandlers : ∀ block ∈ (Stmt.handlers source children).map Handler.body,
          ∀ stmt ∈ block, stmt.Proper :=
        List.forall_mem_map.mpr fun handler hh => (h.handlers handler hh).2.2
      refine List.forall_mem_cons.mpr ⟨hblock "body", ?_⟩
      exact List.forall_mem_append.mpr ⟨hhandlers, htwo h.lastElse h.lastFinally⟩
  | «with» =>
    exact .of_blocks hline trivial (contextsOf_proper source children)
      (List.forall_mem_singleton.mpr (hblock "body"))
  | importModules => exact .of_exprs hline trivial rfl hnone
  | importFrom => exact .of_exprs hline trivial rfl hnone
  | importFuture => exact .of_exprs hline trivial rfl hnone
  | plain kind => exact .of_exprs hline trivial rfl hnone

/-- Every node is read as a proper statement, by induction on the tree. -/
theorem ofNode_proper (source : ByteArray) (node : Node) : (ofNode source node).Proper :=
  node.strongInduction fun _ => ReadsProper.ofNode

end Stmt

/-! ## Modules -/

theorem moduleOf_proper (source : ByteArray) (root : Node) :
    ∀ stmt ∈ moduleOf source root, stmt.Proper :=
  Stmt.ReadsProper.block fun node _ => Stmt.ofNode_proper source node

/-- Whatever the tree, every statement and every expression of the module is well-formed. So each
dictionary in it is a list of entries, and none of them is missing from its outputs. -/
theorem moduleOf_wellFormed (source : ByteArray) (root : Node) :
    (∀ stmt ∈ Stmt.preorderAll (moduleOf source root), stmt.WellFormed) ∧
      (∀ e : Expr, e.OccursInAny (moduleOf source root) → e.WellFormed) ∧
      ∀ keys values line, (Expr.dict keys values line).OccursInAny (moduleOf source root) →
        ∃ entries : List (Option Expr × Expr),
          keys = entries.map Prod.fst ∧ values = entries.map Prod.snd ∧
            (Expr.dict keys values line).outputs = entries.map Expr.entryOutput := by
  have hproper : ∀ stmt ∈ Stmt.preorderAll (moduleOf source root),
      stmt.WellFormed ∧ ∀ e ∈ stmt.exprs, e.Proper := by
    intro stmt hs
    rw [Stmt.preorderAll_eq_flatMap] at hs
    obtain ⟨top, ht, hs⟩ := List.mem_flatMap.mp hs
    exact moduleOf_proper source root top ht stmt hs
  have hexprs : ∀ e : Expr, e.OccursInAny (moduleOf source root) → e.WellFormed := by
    rintro e ⟨stmt, hs, whole, hw, he⟩
    exact ((hproper stmt hs).2 whole hw).wellFormed e he
  refine ⟨fun stmt hs => (hproper stmt hs).1, hexprs, fun keys values line hdict => ?_⟩
  exact Expr.outputs_dict (hexprs _ hdict).partsFit line

end EntityGraph
