import EntityGraph.Proofs.Concrete.Strings
import EntityGraph.Proofs.Extraction.EntryGuard
import EntityGraph.Proofs.Result

/-!
# Alternatives of conditionals

The alternatives of a conditional are any number of `elif` clauses and then an `else` clause or none. Each
`elif` is read as a conditional that is alone in the branch of the one before it, and the walk of all is a
chain of conditionals.

* `Link`, `Link.chain`: what a clause on a condition gives, and the conditional that links make up;
* `Link.OfClause`, `OfElse`: a link as that of a clause, and a branch as that of the `else` clause;
* `process_conditional_eq_ok`: the entities of one conditional, by those of its branch;
* `walk_alternatives`: the walk of a conditional succeeds exactly if each clause gives a link and the
  `else` clause a branch, and then it is the chain of these.
-/

namespace EntityGraph

open Concrete

/-! ## Chains -/

/-- What a clause on a condition gives: the references of its condition, what it does, and its line. -/
structure Link where
  condition : List Reference
  process : List Entity
  line : Nat

namespace Link

/-- The conditional of a link with this branch beside it. -/
def entity (link : Link) (branch : Option (List Entity)) : Entity :=
  .logic .ifThen (some link.condition) link.process branch link.line

/-- The conditional of the first link: the branch of each link is the next one alone, that of the last
link is `last`. -/
def chain (last : Option (List Entity)) (first : Link) : List Link → Entity
  | [] => first.entity last
  | next :: rest => first.entity (some [chain last next rest])

/-- The link is what the clause gives. A condition that is missing is one of its own kind. -/
structure OfClause (source : ByteArray) (settings : Settings) (clause : Node) (link : Link) : Prop where
  condition : ((Expr.ofField? source "condition" clause.children).getD
    (.missing clause.label.line)).references = .ok link.condition
  process : walk settings false (Stmt.blockAt source "consequence" clause.children) = .ok link.process
  line : link.line = clause.label.line

end Link

/-- The branch is what the `else` clause gives: the walk of its body. There is none without a clause, and
none if the body of the clause has no statements. -/
inductive OfElse (source : ByteArray) (settings : Settings) :
    Option Node → Option (List Entity) → Prop
  | absent : OfElse source settings none none
  | empty {clause : Node} : Stmt.blockAt source "body" clause.children = [] →
    OfElse source settings (some clause) none
  | walked {clause : Node} {entities : List Entity} : Stmt.blockAt source "body" clause.children ≠ [] →
    walk settings false (Stmt.blockAt source "body" clause.children) = .ok entities →
    OfElse source settings (some clause) (some entities)

/-! ## Conditionals -/

namespace Stmt

variable (source : ByteArray) (settings : Settings)

/-- The conditional that a clause with this branch beside it is read as. -/
def conditional (clause : Node) (orelse : List Stmt) : Stmt :=
  .branch ((Expr.ofField? source "condition" clause.children).getD (.missing clause.label.line))
    (blockAt source "consequence" clause.children) orelse clause.label.line

theorem ofNode_if {node : Node} (hkind : node.label.kind = "if_statement") :
    ofNode source node =
      conditional source node (chainOf source (childrenAt "alternative" node.children)) := by
  obtain ⟨label, children⟩ := node
  rw [ofNode, show label.kind = "if_statement" from hkind, ← elseChain_eq]
  rfl

theorem chainOf_elif {clause : Node} (hkind : clause.label.kind = "elif_clause") (rest : List Node) :
    chainOf source (clause :: rest) = [conditional source clause (chainOf source rest)] := by
  rw [chainOf, if_pos hkind]
  rfl

theorem chainOf_else {clause : Option Node} (hkind : ∀ node ∈ clause, node.label.kind = "else_clause") :
    chainOf source clause.toList =
      (clause.map fun node => blockAt source "body" node.children).getD [] := by
  cases clause with
  | none => rfl
  | some node =>
    have hne : node.label.kind ≠ "elif_clause" := (hkind node rfl).trans_ne (by decide)
    rw [Option.toList_some, chainOf, if_neg hne]
    rfl

/-- A conditional succeeds exactly if its branch does and its clause gives a link. -/
theorem process_conditional_eq_ok {clause : Node} {orelse : List Stmt} {entities : List Entity} :
    (conditional source clause orelse).process = .ok entities ↔
      ∃ otherwise link, processAll orelse = .ok otherwise ∧ Link.OfClause source settings clause link ∧
        entities = [link.entity (if orelse.isEmpty then none else some otherwise)] := by
  simp only [conditional, process, bind_eq_ok, pure_eq_ok]
  constructor
  · rintro ⟨otherwise, hotherwise, condition, hcondition, inner, hinner, rfl⟩
    refine ⟨otherwise, ⟨condition, inner, clause.label.line⟩, hotherwise, ⟨hcondition, ?_, rfl⟩, rfl⟩
    rw [walk_nested]
    exact hinner
  · rintro ⟨otherwise, ⟨condition, inner, line⟩, hotherwise, ⟨hcondition, hinner, rfl⟩, rfl⟩
    rw [walk_nested] at hinner
    exact ⟨otherwise, hotherwise, condition, hcondition, inner, hinner, rfl⟩

theorem ofElse_iff {clause : Option Node} (hkind : ∀ node ∈ clause, node.label.kind = "else_clause")
    {branch : Option (List Entity)} :
    OfElse source settings clause branch ↔
      ∃ otherwise, processAll (chainOf source clause.toList) = .ok otherwise ∧
        branch = if (chainOf source clause.toList).isEmpty then none else some otherwise := by
  rw [chainOf_else source hkind]
  constructor
  · intro h
    cases h with
    | absent => exact ⟨[], rfl, rfl⟩
    | @empty node hempty =>
      rw [Option.map_some, Option.getD_some, hempty]
      exact ⟨[], rfl, rfl⟩
    | @walked node entities hbody hwalk =>
      rw [walk_nested] at hwalk
      rw [Option.map_some, Option.getD_some]
      exact ⟨entities, hwalk, (if_neg (mt List.isEmpty_iff.mp hbody)).symm⟩
  · rintro ⟨otherwise, hotherwise, rfl⟩
    cases clause with
    | none => exact .absent
    | some node =>
      rw [Option.map_some, Option.getD_some] at hotherwise ⊢
      split
      · next hempty => exact .empty (List.isEmpty_iff.mp hempty)
      · next hbody =>
        refine .walked (mt List.isEmpty_iff.mpr hbody) ?_
        rw [walk_nested]
        exact hotherwise

/-- The chain of a conditional, by induction on its `elif` clauses. -/
theorem process_alternatives_eq_ok {final : Option Node}
    (hfinal : ∀ node ∈ final, node.label.kind = "else_clause") {elifs : List Node}
    (helifs : ∀ clause ∈ elifs, clause.label.kind = "elif_clause") {clause : Node}
    {entities : List Entity} :
    (conditional source clause (chainOf source (elifs ++ final.toList))).process = .ok entities ↔
      ∃ first links last, entities = [Link.chain last first links] ∧
        List.Forall₂ (Link.OfClause source settings) (clause :: elifs) (first :: links) ∧
        OfElse source settings final last := by
  induction elifs generalizing clause entities with
  | nil =>
    rw [List.nil_append, process_conditional_eq_ok source settings]
    constructor
    · rintro ⟨otherwise, link, hotherwise, hlink, rfl⟩
      refine ⟨link, [], _, rfl, .cons hlink .nil, ?_⟩
      exact (ofElse_iff source settings hfinal).mpr ⟨otherwise, hotherwise, rfl⟩
    · rintro ⟨link, links, last, rfl, hlinks, hlast⟩
      obtain ⟨otherwise, hotherwise, rfl⟩ := (ofElse_iff source settings hfinal).mp hlast
      obtain ⟨hlink, hnil⟩ := List.forall₂_cons.mp hlinks
      cases hnil
      exact ⟨otherwise, link, hotherwise, hlink, rfl⟩
  | cons next rest ih =>
    obtain ⟨hnext, hrest⟩ := List.forall_mem_cons.mp helifs
    -- What stands beside this clause is the conditional of the next one, alone.
    rw [List.cons_append, chainOf_elif source hnext, process_conditional_eq_ok source settings,
      processAll_singleton]
    constructor
    · rintro ⟨otherwise, link, hotherwise, hlink, rfl⟩
      obtain ⟨first, links, last, rfl, hlinks, hlast⟩ := (ih hrest).mp hotherwise
      exact ⟨link, first :: links, last, rfl, .cons hlink hlinks, hlast⟩
    · rintro ⟨link, links, last, rfl, hlinks, hlast⟩
      obtain ⟨hlink, hmore⟩ := List.forall₂_cons.mp hlinks
      cases hmore with
      | @cons _ first _ others hfirst hothers =>
        have hinner := (ih hrest).mpr ⟨first, others, last, rfl, .cons hfirst hothers, hlast⟩
        exact ⟨_, link, hinner, hlink, rfl⟩

end Stmt

/-- The walk of a conditional below the top level succeeds exactly if the conditional itself and each of
its `elif` clauses give a link and the `else` clause, if there is one, gives a branch. Then it is a single
entity, the chain of these links in the order of the clauses, with the branch of the `else` clause at its
end. -/
theorem walk_alternatives (source : ByteArray) (settings : Settings) {node : Node}
    (hkind : node.label.kind = "if_statement") {elifs : List Node} {final : Option Node}
    (halternatives : childrenAt "alternative" node.children = elifs ++ final.toList)
    (helifs : ∀ clause ∈ elifs, clause.label.kind = "elif_clause")
    (hfinal : ∀ clause ∈ final, clause.label.kind = "else_clause") (entities : List Entity) :
    walk settings false [Stmt.ofNode source node] = .ok entities ↔
      ∃ first links last, entities = [Link.chain last first links] ∧
        List.Forall₂ (Link.OfClause source settings) (node :: elifs) (first :: links) ∧
        OfElse source settings final last := by
  rw [walk_nested, Stmt.processAll_singleton, Stmt.ofNode_if source hkind, halternatives]
  exact Stmt.process_alternatives_eq_ok source settings hfinal helifs

namespace Concrete

/-- The node on another row of its source. -/
def Node.onRow (row : Nat) : Node → Node
  | ⟨label, children⟩ => ⟨{ label with row }, children⟩

/-- The call of a name with these arguments, as a statement on a row. -/
def sampleCall (row start mid stop : Nat) : Node :=
  samplePart "expression_statement" none start stop
    [samplePart "call" none start stop
      [(samplePart "identifier" (some "function") start mid []).onRow row,
        samplePart "argument_list" (some "arguments") mid stop []]]

/-- The `elif` clause of the lines `if r(x): go()`, `elif s: pass` and `else: wait()`. -/
def sampleElif : Node :=
  (samplePart "elif_clause" (some "alternative") 14 26
    [samplePart "identifier" (some "condition") 19 20 [],
      samplePart "block" (some "consequence") 22 26 [samplePart "pass_statement" none 22 26 []]]).onRow 1

def sampleElse : Node :=
  (samplePart "else_clause" (some "alternative") 27 39
    [samplePart "block" (some "body") 33 39 [sampleCall 2 33 37 39]]).onRow 2

def sampleAlternatives : Node :=
  samplePart "if_statement" none 0 39
    [samplePart "call" (some "condition") 3 7
        [samplePart "identifier" (some "function") 3 4 [],
          samplePart "argument_list" (some "arguments") 4 7 [samplePart "identifier" none 5 6 []]],
      samplePart "block" (some "consequence") 9 13 [sampleCall 0 9 11 13],
      sampleElif, sampleElse]

end Concrete

theorem walk_alternatives_elif :
    walk .default false
        [Stmt.ofNode "if r(x): go()\nelif s: pass\nelse: wait()\n".toUTF8 sampleAlternatives] =
      .ok [Link.chain (some [.call ⟨"wait", 3, none, []⟩])
        ⟨[.call ⟨"r", 1, none, [.name "x"]⟩], [.call ⟨"go", 1, none, []⟩], 1⟩ [⟨[.name "s"], [], 2⟩]] := by
  have halternatives : childrenAt "alternative" sampleAlternatives.children =
      [sampleElif] ++ (some sampleElse).toList := rfl
  have helif : ∀ clause ∈ [sampleElif], clause.label.kind = "elif_clause" :=
    List.forall_mem_singleton.mpr rfl
  have helse : ∀ clause ∈ some sampleElse, clause.label.kind = "else_clause" := by
    rintro clause ⟨⟩
    rfl
  refine (walk_alternatives _ .default rfl halternatives helif helse _).mpr ⟨_, _, _, rfl, ?_, ?_⟩
  · exact .cons ⟨rfl, rfl, rfl⟩ (.cons ⟨rfl, rfl, rfl⟩ .nil)
  · exact .walked (List.cons_ne_nil _ _) rfl

end EntityGraph
