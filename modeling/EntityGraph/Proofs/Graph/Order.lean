import EntityGraph.Graph.Entity
import Mathlib.Data.List.Basic

/-!
# Lines of entities

When entities are in the order of their lines, at every depth.

* `Entity.OccursIn`: an entity is in a list, or in one of the lists of a conditional that is;
* `Entity.BranchesInOrder`, `Entity.InOrder`: the lists of a conditional, or a list of entities with all
  lists in it, do not decrease in lines;
* `inOrder_of_pairwise`: they do not if the sequence of all lines (`Entity.linesAll`) does not, in which
  a conditional comes before what is in it and its process before the branch of its `else`.
-/

namespace EntityGraph

namespace Entity

def line : Entity → Nat
  | .call made => made.line
  | .binding bound => bound.line
  | .logic _ _ _ _ line => line

mutual

/-- The line of an entity, followed by those of the entities in it. -/
def lines : Entity → List Nat
  | .call made => [made.line]
  | .binding bound => [bound.line]
  | .logic _ _ process elseBranch line => line :: (linesAll process ++ linesIn elseBranch)

def linesAll : List Entity → List Nat
  | [] => []
  | entity :: rest => lines entity ++ linesAll rest

/-- An absent branch has no lines. -/
def linesIn : Option (List Entity) → List Nat
  | none => []
  | some entities => linesAll entities

end

/-- The entity is in the list, or in a list of a conditional that is. -/
inductive OccursIn (entity : Entity) : List Entity → Prop
  | listed {entities : List Entity} : entity ∈ entities → OccursIn entity entities
  | process {entities process : List Entity} {kind : ConditionKind}
    {condition : Option (List Reference)} {elseBranch : Option (List Entity)} {line : Nat} :
    .logic kind condition process elseBranch line ∈ entities → OccursIn entity process →
    OccursIn entity entities
  | elseBranch {entities process branch : List Entity} {kind : ConditionKind}
    {condition : Option (List Reference)} {line : Nat} :
    .logic kind condition process (some branch) line ∈ entities → OccursIn entity branch →
    OccursIn entity entities

end Entity

open Entity (OccursIn)

/-- The lists of a conditional on this line do not decrease in lines. Nothing in them has a line before
that of the conditional, and nothing in the branch of its `else` one before those in its process. -/
structure Entity.BranchesInOrder (process : List Entity) (elseBranch : Option (List Entity))
    (line : Nat) : Prop where
  process_pairwise : (process.map Entity.line).Pairwise (· ≤ ·)
  elseBranch_pairwise : ∀ branch ∈ elseBranch, (branch.map Entity.line).Pairwise (· ≤ ·)
  line_le_process : ∀ inner : Entity, inner.OccursIn process → line ≤ inner.line
  line_le_elseBranch : ∀ branch ∈ elseBranch, ∀ inner : Entity, inner.OccursIn branch → line ≤ inner.line
  process_le_elseBranch : ∀ branch ∈ elseBranch, ∀ first second : Entity, first.OccursIn process →
    second.OccursIn branch → first.line ≤ second.line

/-- The lines of the list do not decrease, and the conditionals in it, at any depth, are in order. -/
structure Entity.InOrder (entities : List Entity) : Prop where
  pairwise : (entities.map Entity.line).Pairwise (· ≤ ·)
  conditionals : ∀ kind condition process elseBranch line,
    OccursIn (.logic kind condition process elseBranch line) entities →
    BranchesInOrder process elseBranch line

namespace Entity

theorem linesAll_append (first second : List Entity) :
    linesAll (first ++ second) = linesAll first ++ linesAll second := by
  induction first with
  | nil => rfl
  | cons entity rest ih => rw [List.cons_append, linesAll, linesAll, ih, List.append_assoc]

theorem linesAll_singleton (entity : Entity) : linesAll [entity] = entity.lines := by
  rw [linesAll, linesAll, List.append_nil]

theorem linesAll_map_call (calls : List Call) : linesAll (calls.map .call) = calls.map Call.line := by
  induction calls with
  | nil => rfl
  | cons made rest ih => rw [List.map_cons, linesAll, ih, lines, List.map_cons, List.singleton_append]

theorem singleton_line_sublist (entity : Entity) : [entity.line].Sublist entity.lines := by
  cases entity with
  | logic => exact (List.nil_sublist _).cons_cons _
  | _ => exact List.Sublist.refl _

theorem map_line_sublist (entities : List Entity) :
    (entities.map Entity.line).Sublist (linesAll entities) := by
  induction entities with
  | nil => exact List.Sublist.refl _
  | cons entity rest ih => exact (singleton_line_sublist entity).append ih

theorem lines_sublist_of_mem {entity : Entity} {entities : List Entity} (h : entity ∈ entities) :
    entity.lines.Sublist (linesAll entities) := by
  obtain ⟨before, after, rfl⟩ := List.append_of_mem h
  rw [linesAll_append, linesAll]
  exact (List.sublist_append_left _ _).trans (List.sublist_append_right _ _)

theorem OccursIn.lines_sublist {entity : Entity} {entities : List Entity} (h : entity.OccursIn entities) :
    entity.lines.Sublist (linesAll entities) := by
  induction h with
  | listed hm => exact lines_sublist_of_mem hm
  | process hm _ ih =>
    refine List.Sublist.trans ?_ (lines_sublist_of_mem hm)
    exact (ih.trans (List.sublist_append_left _ _)).cons _
  | elseBranch hm _ ih =>
    refine List.Sublist.trans ?_ (lines_sublist_of_mem hm)
    exact (ih.trans (List.sublist_append_right _ _)).cons _

theorem OccursIn.line_mem {entity : Entity} {entities : List Entity} (h : entity.OccursIn entities) :
    entity.line ∈ linesAll entities :=
  ((singleton_line_sublist entity).trans h.lines_sublist).subset List.mem_cons_self

theorem pairwise_lines {entities : List Entity} (h : (linesAll entities).Pairwise (· ≤ ·)) :
    (entities.map Entity.line).Pairwise (· ≤ ·) :=
  h.sublist (map_line_sublist entities)

theorem branchesInOrder_of_pairwise {process : List Entity} {elseBranch : Option (List Entity)} {line : Nat}
    (h : (line :: (linesAll process ++ linesIn elseBranch)).Pairwise (· ≤ ·)) :
    BranchesInOrder process elseBranch line := by
  obtain ⟨hline, hbranches⟩ := List.pairwise_cons.mp h
  obtain ⟨hprocess, helse, hbetween⟩ := List.pairwise_append.mp hbranches
  constructor
  case process_pairwise => exact pairwise_lines hprocess
  case elseBranch_pairwise =>
    rintro branch ⟨⟩
    exact pairwise_lines helse
  case line_le_process =>
    intro inner hinner
    exact hline _ (List.mem_append_left _ hinner.line_mem)
  case line_le_elseBranch =>
    rintro branch ⟨⟩ inner hinner
    exact hline _ (List.mem_append_right _ hinner.line_mem)
  case process_le_elseBranch =>
    rintro branch ⟨⟩ first second hfirst hsecond
    exact hbetween _ hfirst.line_mem _ hsecond.line_mem

/-- Entities whose lines at all depths do not decrease are in order at every depth. -/
theorem inOrder_of_pairwise {entities : List Entity} (h : (linesAll entities).Pairwise (· ≤ ·)) :
    InOrder entities where
  pairwise := pairwise_lines h
  conditionals _ _ _ _ _ hoccurs := branchesInOrder_of_pairwise (h.sublist hoccurs.lines_sublist)

end Entity

end EntityGraph
