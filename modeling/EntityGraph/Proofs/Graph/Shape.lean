import EntityGraph.Graph.File

/-!
# Shapes of graphs

The graphs that extraction builds do not use all the freedom of their types.

* `Reference.IsShaped`, `Receiver.IsShaped`, `Call.IsShaped`: a conditional among references is a
  conditional expression with all its parts, and the several references of a receiver are not just one;
* `Entity.IsShaped`: a conditional among entities is a statement, with the parts that its kind has, and
  a binding has targets;
* `File.IsShaped`: all processes of a file are shaped, and no class lists an attribute twice.
-/

namespace EntityGraph

mutual

/-- A reference with everything in it, at every depth, of the shape that extraction gives it. -/
inductive Reference.IsShaped : Reference → Prop
  | name (id : String) : Reference.IsShaped (.name id)
  | attribute {owner : Receiver} (attr : String) : owner.IsShaped →
    Reference.IsShaped (.attribute owner attr)
  | call {made : Call} : made.IsShaped → Reference.IsShaped (.call made)
  | logic {condition process elseBranch : List Reference} (line : Nat) :
    (∀ reference ∈ condition, reference.IsShaped) → (∀ reference ∈ process, reference.IsShaped) →
    (∀ reference ∈ elseBranch, reference.IsShaped) →
    Reference.IsShaped (.logic .ifExp (some condition) process (some elseBranch) line)
  | unmodeled (kind : String) : Reference.IsShaped (.unmodeled kind)

inductive Receiver.IsShaped : Receiver → Prop
  | one {reference : Reference} : reference.IsShaped → Receiver.IsShaped (.one reference)
  | many {references : List Reference} : references.length ≠ 1 →
    (∀ reference ∈ references, reference.IsShaped) → Receiver.IsShaped (.many references)
  | absent : Receiver.IsShaped .absent

inductive Call.IsShaped : Call → Prop
  | mk {made : Call} : (∀ reference ∈ made.takenVar, reference.IsShaped) → Call.IsShaped made

end

/-- The form of an index that a target keeps. -/
def Reference.IsIndex : Reference → Prop
  | .name _ | .attribute .. => True
  | _ => False

inductive Target.IsShaped : Target → Prop
  | name (id : String) : Target.IsShaped (.name id)
  | attribute (owner attr : String) : Target.IsShaped (.attribute owner attr)
  | subscript {base : List Reference} {index : Option (List Reference)} :
    (∀ reference ∈ base, reference.IsShaped) →
    (∀ references ∈ index, ∃ reference, references = [reference] ∧ reference.IsIndex ∧
      reference.IsShaped) →
    Target.IsShaped (.subscript base index)

/-- A binding has targets, and is of shaped parts. -/
structure Variable.IsShaped (bound : Variable) : Prop where
  targets_ne_nil : bound.targets ≠ []
  targets : ∀ target ∈ bound.targets, target.IsShaped
  pointsTo : ∀ reference ∈ bound.pointsTo, reference.IsShaped

/-- An entity with everything in it, at every depth, of the shape that extraction gives it. -/
inductive Entity.IsShaped : Entity → Prop
  | call {made : Call} : made.IsShaped → Entity.IsShaped (.call made)
  | binding {bound : Variable} : bound.IsShaped → Entity.IsShaped (.binding bound)
  | logic {kind : ConditionKind} {condition : Option (List Reference)} {process : List Entity}
    {elseBranch : Option (List Entity)} (line : Nat) :
    kind ≠ .ifExp → (condition = none ↔ kind = .tryBlock) → (elseBranch ≠ none → kind = .ifThen) →
    (∀ references ∈ condition, ∀ reference ∈ references, reference.IsShaped) →
    (∀ entity ∈ process, entity.IsShaped) →
    (∀ entities ∈ elseBranch, ∀ entity ∈ entities, entity.IsShaped) →
    Entity.IsShaped (.logic kind condition process elseBranch line)

namespace Entity.IsShaped

variable {condition : List Reference} {process : List Entity} (line : Nat)

theorem ifThen {elseBranch : Option (List Entity)}
    (hcondition : ∀ reference ∈ condition, reference.IsShaped)
    (hprocess : ∀ entity ∈ process, entity.IsShaped)
    (helse : ∀ entities ∈ elseBranch, ∀ entity ∈ entities, entity.IsShaped) :
    Entity.IsShaped (.logic .ifThen (some condition) process elseBranch line) := by
  refine .logic line (by decide) (by simp) (fun _ => rfl) ?_ hprocess helse
  rintro _ ⟨⟩
  exact hcondition

theorem whileLoop (hcondition : ∀ reference ∈ condition, reference.IsShaped)
    (hprocess : ∀ entity ∈ process, entity.IsShaped) :
    Entity.IsShaped (.logic .whileLoop (some condition) process none line) := by
  refine .logic line (by decide) (by simp) (fun h => absurd rfl h) ?_ hprocess ?_
  · rintro _ ⟨⟩
    exact hcondition
  · rintro _ ⟨⟩

theorem tryBlock (hprocess : ∀ entity ∈ process, entity.IsShaped) :
    Entity.IsShaped (.logic .tryBlock none process none line) := by
  refine .logic line (by decide) (by simp) (fun h => absurd rfl h) ?_ hprocess ?_
  · rintro _ ⟨⟩
  · rintro _ ⟨⟩

end Entity.IsShaped

/-- All processes of the file are shaped, and its classes list each attribute once. -/
structure File.IsShaped (file : File) : Prop where
  processes : ∀ process ∈ file.processes, ∀ entity ∈ process, entity.IsShaped
  attributes_nodup : ∀ declared ∈ file.classes, declared.attributes.Nodup

end EntityGraph
