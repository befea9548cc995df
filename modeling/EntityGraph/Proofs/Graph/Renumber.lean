import EntityGraph.Graph.File

/-!
# Graphs with other line numbers

`renumber` of each type of a graph changes every line in it, and nothing else.
-/

namespace EntityGraph

mutual

/-- The reference with `f` applied to every line in it. -/
def Reference.renumber (f : Nat → Nat) : Reference → Reference
  | .name id => .name id
  | .attribute owner attr => .attribute (owner.renumber f) attr
  | .call made => .call (made.renumber f)
  | .logic kind condition process elseBranch line =>
    .logic kind (Reference.renumberIn f condition) (Reference.renumberAll f process)
      (Reference.renumberIn f elseBranch) (f line)
  | .unmodeled kind => .unmodeled kind

def Receiver.renumber (f : Nat → Nat) : Receiver → Receiver
  | .one reference => .one (reference.renumber f)
  | .many references => .many (Reference.renumberAll f references)
  | .absent => .absent

def Call.renumber (f : Nat → Nat) : Call → Call
  | ⟨name, line, owner, takenVar⟩ => ⟨name, f line, owner, Reference.renumberAll f takenVar⟩

def Reference.renumberAll (f : Nat → Nat) : List Reference → List Reference
  | [] => []
  | reference :: rest => reference.renumber f :: Reference.renumberAll f rest

def Reference.renumberIn (f : Nat → Nat) : Option (List Reference) → Option (List Reference)
  | none => none
  | some references => some (Reference.renumberAll f references)

end

theorem Reference.renumberAll_eq_map (f : Nat → Nat) (references : List Reference) :
    renumberAll f references = references.map (renumber f) := by
  induction references with
  | nil => rfl
  | cons reference rest ih => rw [renumberAll, ih, List.map_cons]

/-! ## Entities -/

def Target.renumber (f : Nat → Nat) : Target → Target
  | .name id => .name id
  | .attribute owner attr => .attribute owner attr
  | .subscript base index =>
    .subscript (base.map (Reference.renumber f)) (index.map (List.map (Reference.renumber f)))

def Variable.renumber (f : Nat → Nat) (bound : Variable) : Variable where
  targets := bound.targets.map (Target.renumber f)
  pointsTo := bound.pointsTo.map (Reference.renumber f)
  line := f bound.line

mutual

/-- The entity with `f` applied to every line in it. -/
def Entity.renumber (f : Nat → Nat) : Entity → Entity
  | .call made => .call (made.renumber f)
  | .binding bound => .binding (bound.renumber f)
  | .logic kind condition process elseBranch line =>
    .logic kind (condition.map (List.map (Reference.renumber f))) (Entity.renumberAll f process)
      (Entity.renumberIn f elseBranch) (f line)

def Entity.renumberAll (f : Nat → Nat) : List Entity → List Entity
  | [] => []
  | entity :: rest => entity.renumber f :: Entity.renumberAll f rest

def Entity.renumberIn (f : Nat → Nat) : Option (List Entity) → Option (List Entity)
  | none => none
  | some entities => some (Entity.renumberAll f entities)

end

theorem Entity.renumberAll_eq_map (f : Nat → Nat) (entities : List Entity) :
    renumberAll f entities = entities.map (renumber f) := by
  induction entities with
  | nil => rfl
  | cons entity rest ih => rw [renumberAll, ih, List.map_cons]

/-! ## Declarations -/

def Function.renumber (f : Nat → Nat) (function : Function) : Function :=
  { function with line := f function.line, process := function.process.map (Entity.renumber f) }

def Class.renumber (f : Nat → Nat) (declared : Class) : Class :=
  { declared with line := f declared.line, methods := declared.methods.map (Function.renumber f) }

def CoverageGap.renumber (f : Nat → Nat) : CoverageGap → CoverageGap
  | .nestedClass outer name line => .nestedClass outer name (f line)

def File.renumber (f : Nat → Nat) (file : File) : File :=
  { file with
    process := file.process.map (Entity.renumber f)
    functions := file.functions.map (Function.renumber f)
    classes := file.classes.map (Class.renumber f)
    gaps := file.gaps.map (CoverageGap.renumber f) }

end EntityGraph
