import EntityGraph.Extraction.Process
import Mathlib.Logic.Basic

/-!
# Calls in references and entities

Where calls stand in a graph, and which of them `hasCall` finds. `Reference.Contains` and
`Entity.Contains` are the places of a call, at every depth but not among the arguments of another call;
`CallSite` keeps apart the calls that stand in what a binding binds.

* `mem_callsAll_iff_contains`: `Reference.callsAll` lists the calls that stand in references;
* `hasCall_iff_contains`: a reference has a call if one stands anywhere in it, and an entity if one
  stands anywhere but in a target;
* `hasCall_eq_false_of_target`: a call in a target alone is not found.
-/

namespace EntityGraph

/-! ## Places of calls -/

/-- The call is the reference, or stands in a receiver, or in a part of a conditional. -/
inductive Reference.Contains (made : Call) : Reference → Prop
  | call : Contains made (.call made)
  | receiver {reference : Reference} {attr : String} : Contains made reference →
    Contains made (.attribute (.one reference) attr)
  | receivers {reference : Reference} {references : List Reference} {attr : String} :
    reference ∈ references → Contains made reference → Contains made (.attribute (.many references) attr)
  | condition {reference : Reference} {kind : ConditionKind} {condition process : List Reference}
    {elseBranch : Option (List Reference)} {line : Nat} :
    reference ∈ condition → Contains made reference →
    Contains made (.logic kind (some condition) process elseBranch line)
  | process {reference : Reference} {kind : ConditionKind} {condition : Option (List Reference)}
    {process : List Reference} {elseBranch : Option (List Reference)} {line : Nat} :
    reference ∈ process → Contains made reference →
    Contains made (.logic kind condition process elseBranch line)
  | elseBranch {reference : Reference} {kind : ConditionKind} {condition : Option (List Reference)}
    {process branch : List Reference} {line : Nat} :
    reference ∈ branch → Contains made reference →
    Contains made (.logic kind condition process (some branch) line)

/-- Whether a call stands in a target of a binding, in the base or the index of a subscript. -/
inductive CallSite where
  | target
  | elsewhere
  deriving DecidableEq

/-- The call is the entity, or stands in the value or a target of a binding, or in a part of a
conditional. -/
inductive Entity.Contains (made : Call) : CallSite → Entity → Prop
  | call : Contains made .elsewhere (.call made)
  | value {reference : Reference} {bound : Variable} : reference ∈ bound.pointsTo →
    reference.Contains made → Contains made .elsewhere (.binding bound)
  | base {reference : Reference} {bound : Variable} {base : List Reference}
    {index : Option (List Reference)} : .subscript base index ∈ bound.targets → reference ∈ base →
    reference.Contains made → Contains made .target (.binding bound)
  | index {reference : Reference} {bound : Variable} {base index : List Reference} :
    .subscript base (some index) ∈ bound.targets → reference ∈ index → reference.Contains made →
    Contains made .target (.binding bound)
  | condition {reference : Reference} {kind : ConditionKind} {condition : List Reference}
    {process : List Entity} {elseBranch : Option (List Entity)} {line : Nat} :
    reference ∈ condition → reference.Contains made →
    Contains made .elsewhere (.logic kind (some condition) process elseBranch line)
  | process {site : CallSite} {entity : Entity} {kind : ConditionKind}
    {condition : Option (List Reference)} {process : List Entity} {elseBranch : Option (List Entity)}
    {line : Nat} : entity ∈ process → Contains made site entity →
    Contains made site (.logic kind condition process elseBranch line)
  | elseBranch {site : CallSite} {entity : Entity} {kind : ConditionKind}
    {condition : Option (List Reference)} {process branch : List Entity} {line : Nat} :
    entity ∈ branch → Contains made site entity →
    Contains made site (.logic kind condition process (some branch) line)

/-! ## Calls in references -/

namespace Reference

mutual

/-- The calls that stand in a reference, in its order. Those of a conditional are the calls of its
condition, then of its process, then of its `else`. -/
def calls : Reference → List Call
  | .name _ => []
  | .attribute owner _ => callsOfReceiver owner
  | .call made => [made]
  | .logic _ condition process elseBranch _ =>
    callsIn condition ++ (callsAll process ++ callsIn elseBranch)
  | .unmodeled _ => []

def callsOfReceiver : Receiver → List Call
  | .one reference => calls reference
  | .many references => callsAll references
  | .absent => []

def callsAll : List Reference → List Call
  | [] => []
  | reference :: rest => calls reference ++ callsAll rest

/-- An absent list has no calls. -/
def callsIn : Option (List Reference) → List Call
  | none => []
  | some references => callsAll references

end

theorem mem_callsAll {made : Call} {references : List Reference} :
    made ∈ callsAll references ↔ ∃ reference ∈ references, made ∈ reference.calls := by
  induction references with
  | nil => simp [callsAll]
  | cons reference rest ih => simp [callsAll, ih]

theorem mem_calls_logic {made : Call} {kind : ConditionKind} {condition : Option (List Reference)}
    {process : List Reference} {elseBranch : Option (List Reference)} {line : Nat} :
    made ∈ (Reference.logic kind condition process elseBranch line).calls ↔
      made ∈ callsIn condition ∨ made ∈ callsAll process ∨ made ∈ callsIn elseBranch := by
  simp [calls]

theorem Contains.mem_calls {made : Call} {reference : Reference} (h : reference.Contains made) :
    made ∈ reference.calls := by
  induction h with
  | call => exact List.mem_cons_self
  | receiver _ ih => exact ih
  | receivers hm _ ih => exact mem_callsAll.mpr ⟨_, hm, ih⟩
  | condition hm _ ih => exact mem_calls_logic.mpr (.inl (mem_callsAll.mpr ⟨_, hm, ih⟩))
  | process hm _ ih => exact mem_calls_logic.mpr (.inr (.inl (mem_callsAll.mpr ⟨_, hm, ih⟩)))
  | elseBranch hm _ ih => exact mem_calls_logic.mpr (.inr (.inr (mem_callsAll.mpr ⟨_, hm, ih⟩)))

mutual

theorem contains_of_mem_calls {made : Call} : ∀ {reference : Reference}, made ∈ reference.calls →
    reference.Contains made
  | .call other, h => by
    obtain rfl := List.mem_singleton.mp h
    exact .call
  | .attribute (.one reference) _, h => .receiver (@contains_of_mem_calls made reference h)
  | .attribute (.many references) _, h => by
    obtain ⟨reference, hm, hmade⟩ := @contains_of_mem_callsAll made references h
    exact .receivers hm hmade
  | .logic kind condition process elseBranch line, h => by
    rcases mem_calls_logic.mp h with h | h | h
    · obtain ⟨references, rfl, reference, hm, hmade⟩ := @contains_of_mem_callsIn made condition h
      exact .condition hm hmade
    · obtain ⟨reference, hm, hmade⟩ := @contains_of_mem_callsAll made process h
      exact .process hm hmade
    · obtain ⟨branch, rfl, reference, hm, hmade⟩ := @contains_of_mem_callsIn made elseBranch h
      exact .elseBranch hm hmade

theorem contains_of_mem_callsAll {made : Call} : ∀ {references : List Reference},
    made ∈ callsAll references → ∃ reference ∈ references, reference.Contains made
  | reference :: rest, h => by
    rcases List.mem_append.mp h with h | h
    · exact ⟨reference, List.mem_cons_self, @contains_of_mem_calls made reference h⟩
    · obtain ⟨other, hm, hmade⟩ := @contains_of_mem_callsAll made rest h
      exact ⟨other, List.mem_cons_of_mem _ hm, hmade⟩

theorem contains_of_mem_callsIn {made : Call} : ∀ {references : Option (List Reference)},
    made ∈ callsIn references →
      ∃ listed, references = some listed ∧ ∃ reference ∈ listed, reference.Contains made
  | some listed, h => ⟨listed, rfl, @contains_of_mem_callsAll made listed h⟩

end

theorem mem_calls_iff_contains {made : Call} {reference : Reference} :
    made ∈ reference.calls ↔ reference.Contains made :=
  ⟨contains_of_mem_calls, Contains.mem_calls⟩

theorem mem_callsAll_iff_contains {made : Call} {references : List Reference} :
    made ∈ callsAll references ↔ ∃ reference ∈ references, reference.Contains made := by
  rw [mem_callsAll]
  simp only [mem_calls_iff_contains]

mutual

theorem hasCall_iff_ne_nil : ∀ {reference : Reference}, reference.hasCall = true ↔ reference.calls ≠ []
  | .name _ | .unmodeled _ | .attribute .absent _ => iff_of_false Bool.false_ne_true fun h => h rfl
  | .call _ => iff_of_true rfl (List.cons_ne_nil _ _)
  | .attribute (.one reference) _ => @hasCall_iff_ne_nil reference
  | .attribute (.many references) _ => @anyHasCall_iff_ne_nil references
  | .logic _ condition process elseBranch _ => by
    simp only [hasCall, Bool.or_eq_true, @anyHasCallIn_iff_ne_nil condition,
      @anyHasCall_iff_ne_nil process, @anyHasCallIn_iff_ne_nil elseBranch, calls, ne_eq,
      List.append_eq_nil_iff, not_and_or, or_assoc]

theorem anyHasCall_iff_ne_nil : ∀ {references : List Reference},
    anyHasCall references = true ↔ callsAll references ≠ []
  | [] => iff_of_false Bool.false_ne_true fun h => h rfl
  | reference :: rest => by
    simp only [anyHasCall, Bool.or_eq_true, @hasCall_iff_ne_nil reference, @anyHasCall_iff_ne_nil rest,
      callsAll, ne_eq, List.append_eq_nil_iff, not_and_or]

theorem anyHasCallIn_iff_ne_nil : ∀ {references : Option (List Reference)},
    anyHasCallIn references = true ↔ callsIn references ≠ []
  | none => iff_of_false Bool.false_ne_true fun h => h rfl
  | some listed => @anyHasCall_iff_ne_nil listed

end

theorem exists_contains {reference : Reference} (h : reference.hasCall = true) :
    ∃ made, reference.Contains made := by
  obtain ⟨made, hmade⟩ := List.exists_mem_of_ne_nil _ (hasCall_iff_ne_nil.mp h)
  exact ⟨made, contains_of_mem_calls hmade⟩

theorem Contains.hasCall {made : Call} {reference : Reference} (h : reference.Contains made) :
    reference.hasCall = true :=
  hasCall_iff_ne_nil.mpr (List.ne_nil_of_mem h.mem_calls)

theorem anyHasCall_iff_contains {references : List Reference} :
    anyHasCall references = true ↔ ∃ reference ∈ references, ∃ made, reference.Contains made := by
  rw [anyHasCall_iff_ne_nil]
  constructor
  · intro h
    obtain ⟨made, hmade⟩ := List.exists_mem_of_ne_nil _ h
    obtain ⟨reference, hm, hcontains⟩ := mem_callsAll_iff_contains.mp hmade
    exact ⟨reference, hm, made, hcontains⟩
  · rintro ⟨reference, hm, made, hcontains⟩
    exact List.ne_nil_of_mem (mem_callsAll_iff_contains.mpr ⟨reference, hm, hcontains⟩)

theorem exists_contains_of_anyHasCallIn {references : Option (List Reference)}
    (h : anyHasCallIn references = true) :
    ∃ listed, references = some listed ∧ ∃ reference ∈ listed, ∃ made, reference.Contains made := by
  cases references with
  | none => cases h
  | some listed => exact ⟨listed, rfl, anyHasCall_iff_contains.mp h⟩

end Reference

/-! ## Calls in entities -/

namespace Entity

theorem anyHasCall_iff {entities : List Entity} :
    anyHasCall entities = true ↔ ∃ entity ∈ entities, entity.hasCall = true := by
  induction entities with
  | nil => simp [anyHasCall]
  | cons entity rest ih => simp [anyHasCall, ih]

theorem hasCall_logic {kind : ConditionKind} {condition : Option (List Reference)}
    {process : List Entity} {elseBranch : Option (List Entity)} {line : Nat} :
    (Entity.logic kind condition process elseBranch line).hasCall = true ↔
      Reference.anyHasCallIn condition = true ∨ anyHasCall process = true ∨
        anyHasCallIn elseBranch = true := by
  simp [hasCall, or_assoc]

theorem Contains.hasCall {made : Call} {site : CallSite} {entity : Entity}
    (h : entity.Contains made site) (hsite : site = .elsewhere) : entity.hasCall = true := by
  induction h with
  | call => rfl
  | value hm hmade => exact Reference.anyHasCall_iff_contains.mpr ⟨_, hm, _, hmade⟩
  | base | index => cases hsite
  | condition hm hmade =>
    exact hasCall_logic.mpr (.inl (Reference.anyHasCall_iff_contains.mpr ⟨_, hm, _, hmade⟩))
  | process hm _ ih => exact hasCall_logic.mpr (.inr (.inl (anyHasCall_iff.mpr ⟨_, hm, ih hsite⟩)))
  | elseBranch hm _ ih => exact hasCall_logic.mpr (.inr (.inr (anyHasCall_iff.mpr ⟨_, hm, ih hsite⟩)))

mutual

theorem exists_contains : ∀ {entity : Entity}, entity.hasCall = true →
    ∃ made, entity.Contains made .elsewhere
  | .call made, _ => ⟨made, .call⟩
  | .binding bound, h => by
    obtain ⟨reference, hm, made, hmade⟩ := Reference.anyHasCall_iff_contains.mp h
    exact ⟨made, .value hm hmade⟩
  | .logic kind condition process elseBranch line, h => by
    rcases hasCall_logic.mp h with h | h | h
    · obtain ⟨references, rfl, reference, hm, made, hmade⟩ :=
        Reference.exists_contains_of_anyHasCallIn h
      exact ⟨made, .condition hm hmade⟩
    · obtain ⟨entity, hm, made, hmade⟩ := @exists_contains_of_anyHasCall process h
      exact ⟨made, .process hm hmade⟩
    · obtain ⟨branch, rfl, entity, hm, made, hmade⟩ := @exists_contains_of_anyHasCallIn elseBranch h
      exact ⟨made, .elseBranch hm hmade⟩

theorem exists_contains_of_anyHasCall : ∀ {entities : List Entity}, anyHasCall entities = true →
    ∃ entity ∈ entities, ∃ made, entity.Contains made .elsewhere
  | entity :: rest, h => by
    rcases Bool.or_eq_true_iff.mp h with h | h
    · exact ⟨entity, List.mem_cons_self, @exists_contains entity h⟩
    · obtain ⟨other, hm, hmade⟩ := @exists_contains_of_anyHasCall rest h
      exact ⟨other, List.mem_cons_of_mem _ hm, hmade⟩

theorem exists_contains_of_anyHasCallIn : ∀ {entities : Option (List Entity)},
    anyHasCallIn entities = true → ∃ listed, entities = some listed ∧ ∃ entity ∈ listed, ∃ made,
      entity.Contains made .elsewhere
  | some listed, h => ⟨listed, rfl, @exists_contains_of_anyHasCall listed h⟩

end

end Entity

/-- A reference has a call exactly if a call stands anywhere in it, and an entity exactly if one stands
in it outside the targets of its bindings. So the calls of an entity are missed exactly if all of them
stand in targets. -/
theorem hasCall_iff_contains (reference : Reference) (entity : Entity) :
    (reference.hasCall = true ↔ ∃ made, reference.Contains made) ∧
      (entity.hasCall = true ↔ ∃ made, entity.Contains made .elsewhere) ∧
      ((entity.hasCall = true ↔ ∃ made site, entity.Contains made site) ↔
        ((∃ made, entity.Contains made .target) → ∃ made, entity.Contains made .elsewhere)) := by
  have hentity : entity.hasCall = true ↔ ∃ made, entity.Contains made .elsewhere :=
    ⟨Entity.exists_contains, fun ⟨_, hmade⟩ => hmade.hasCall rfl⟩
  refine ⟨⟨Reference.exists_contains, fun ⟨_, hmade⟩ => hmade.hasCall⟩, hentity, ?_⟩
  rw [hentity]
  constructor
  · rintro hall ⟨made, hmade⟩
    exact hall.mpr ⟨made, .target, hmade⟩
  · intro htarget
    refine ⟨fun ⟨made, hmade⟩ => ⟨made, .elsewhere, hmade⟩, ?_⟩
    rintro ⟨made, site, hmade⟩
    cases site with
    | target => exact htarget ⟨made, hmade⟩
    | elsewhere => exact ⟨made, hmade⟩

/-- `f()[0] = x`, with its only call in the target. -/
def sampleTarget : Stmt :=
  .assign [.subscript (.call (.name "f" 1) [] [] 1) (.constant (.number "0") 1) 1] (.name "x" 1) 1

/-- A call in a target alone is not found. -/
theorem hasCall_eq_false_of_target : ∃ entity, sampleTarget.process = .ok [entity] ∧
    entity.Contains ⟨"f", 1, none, []⟩ .target ∧ entity.hasCall = false :=
  ⟨_, rfl, .base List.mem_cons_self List.mem_cons_self .call, rfl⟩

end EntityGraph
