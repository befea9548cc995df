import EntityGraph.Proofs.Graph.Calls
import Mathlib.Data.List.Basic

/-!
# Calls in returned values

A `return` gives the calls that are references of its value. Calls may stand deeper in the value, in
the receiver of an attribute or in a conditional, and these are left out.

* `callsAll_sublist_iff`: no call is left out exactly if none stands in a receiver or a conditional;
* `walk_return_calls_iff`: what a `return` gives, and when these are all calls in its value;
* `walk_return_receiver`: `return f().x` gives nothing.
-/

namespace EntityGraph

namespace Reference

theorem call?_eq_some {reference : Reference} {made : Call} :
    reference.call? = some made ↔ reference = .call made := by
  cases reference <;> simp [call?]

theorem mem_filterMap_call? {references : List Reference} {made : Call} :
    made ∈ references.filterMap call? ↔ .call made ∈ references := by
  simp only [List.mem_filterMap, call?_eq_some, exists_eq_right]

/-- No call stands inside a reference exactly if its calls are the one, if any, that it is itself. -/
theorem forall_contains_eq_call_iff {reference : Reference} :
    (∀ made, reference.Contains made → reference = .call made) ↔
      reference.calls = reference.call?.toList := by
  cases hcall : reference.call? with
  | some made =>
    obtain rfl := call?_eq_some.mp hcall
    refine iff_of_true (fun other hother => ?_) rfl
    cases hother
    rfl
  | none =>
    have hne : ∀ made, reference ≠ .call made := by
      rintro made rfl
      cases hcall
    rw [Option.toList_none, List.eq_nil_iff_forall_not_mem]
    exact forall_congr' fun made => by simp only [mem_calls_iff_contains, hne made, imp_false]

theorem call?_toList_sublist_calls (reference : Reference) :
    reference.call?.toList.Sublist reference.calls := by
  cases reference with
  | call => exact List.Sublist.refl _
  | _ => exact List.nil_sublist _

theorem filterMap_call?_cons (reference : Reference) (rest : List Reference) :
    (reference :: rest).filterMap call? = reference.call?.toList ++ rest.filterMap call? := by
  rw [List.filterMap_eq_flatMap_toList, List.flatMap_cons, ← List.filterMap_eq_flatMap_toList]

theorem filterMap_call?_sublist (references : List Reference) :
    (references.filterMap call?).Sublist (callsAll references) := by
  induction references with
  | nil => exact List.nil_sublist _
  | cons reference rest ih =>
    rw [filterMap_call?_cons, callsAll]
    exact (call?_toList_sublist_calls reference).append ih

/-- The references that are calls are all calls exactly if none contains another call. -/
theorem callsAll_sublist_iff {references : List Reference} :
    (callsAll references).Sublist (references.filterMap call?) ↔
      ∀ reference ∈ references, ∀ made, reference.Contains made → reference = .call made := by
  induction references with
  | nil => simp [callsAll]
  | cons reference rest ih =>
    rw [List.forall_mem_cons, ← ih, forall_contains_eq_call_iff, filterMap_call?_cons, callsAll]
    have hfirst := call?_toList_sublist_calls reference
    have hrest := filterMap_call?_sublist rest
    constructor
    · intro h
      -- Each part of the list of all calls is at least as long, and both together are no longer.
      have hlength := h.length_le
      rw [List.length_append, List.length_append] at hlength
      have hfirstLength := hfirst.length_le
      have hrestLength := hrest.length_le
      have hcalls := hfirst.eq_of_length (by omega)
      have hcallsAll := hrest.eq_of_length (by omega)
      exact ⟨hcalls.symm, hcallsAll ▸ List.Sublist.refl _⟩
    · rintro ⟨hcalls, hcallsAll⟩
      rw [hcalls]
      exact (List.Sublist.refl _).append hcallsAll

end Reference

/-- A `return` gives the calls that are references of its value, in their order among all calls in the
value. It gives all of these exactly if no call stands inside a reference, that is in the receiver of an
attribute or in a conditional. -/
theorem walk_return_calls_iff {value : Expr} {references : List Reference}
    (hvalue : value.references = .ok references) (settings : Settings) (isRoot : Bool) (line : Nat) :
    ∃ emitted : List Call, walk settings isRoot [.return (some value) line] = .ok (emitted.map .call) ∧
      (∀ made, made ∈ emitted ↔ .call made ∈ references) ∧
      emitted.Sublist (Reference.callsAll references) ∧
      ((Reference.callsAll references).Sublist emitted ↔
        ∀ reference ∈ references, ∀ made, reference.Contains made → reference = .call made) := by
  have hprocess : (Stmt.return (some value) line).process =
      .ok ((references.filterMap Reference.call?).map Entity.call) := by
    rw [Stmt.process, hvalue]
    rfl
  refine ⟨references.filterMap Reference.call?, ?_, fun made => Reference.mem_filterMap_call?,
    Reference.filterMap_call?_sublist references, Reference.callsAll_sublist_iff⟩
  have hroot : (Stmt.return (some value) line).rootProcess settings =
      (Stmt.return (some value) line).process := rfl
  rw [walk, hroot, ite_self, hprocess]
  exact congrArg Except.ok (List.append_nil _)

/-- `first(x) + self.second(y)` -/
def sampleSum : Expr :=
  .binOp (.call (.name "first" 1) [.name "x" 1] [] 1) "+"
    (.call (.attribute (.name "self" 1) "second" 1) [.name "y" 1] [] 1) 1

theorem walk_return_operands : ∃ references emitted, sampleSum.references = .ok references ∧
    walk .default false [.return (some sampleSum) 1] = .ok (emitted.map .call) ∧
    (Reference.callsAll references).map Call.name = ["first", "second"] ∧
    (Reference.callsAll references).Sublist emitted := by
  obtain ⟨emitted, hwalk, -, -, hall⟩ := @walk_return_calls_iff sampleSum _ rfl .default false 1
  refine ⟨_, emitted, rfl, hwalk, rfl, hall.mpr ?_⟩
  intro reference hm made hmade
  rcases List.mem_pair.mp hm with rfl | rfl
  all_goals
    cases hmade
    rfl

/-- `f().x` -/
def sampleAttribute : Expr :=
  .attribute (.call (.name "f" 1) [] [] 1) "x" 1

/-- A call in the receiver of a returned attribute is left out. -/
theorem walk_return_receiver : ∃ references, sampleAttribute.references = .ok references ∧
    (∃ reference ∈ references, reference.Contains ⟨"f", 1, none, []⟩) ∧
    walk .default false [.return (some sampleAttribute) 1] = .ok [] :=
  ⟨_, rfl, ⟨_, List.mem_cons_self, .receiver .call⟩, rfl⟩

end EntityGraph
