import EntityGraph.Extraction.Process
import Mathlib.Algebra.Ring.Nat

/-!
# Entry guards

At the top level the body of an entry guard stands for the guard. Otherwise the two walks of a statement
list agree: they fail alike, and the walk below the top level has one more entity for each guard.

* `walk_root_eq`: the walk at the top level is that of the list with its guards opened;
* `walks_countMore`: how the two walks of a list differ;
* `walk_entryGuards`: both together, and when the walks are the same.
-/

namespace EntityGraph

/-! ## Sequences of statements -/

namespace Stmt

theorem processAll_singleton (stmt : Stmt) : processAll [stmt] = process stmt := by
  rw [processAll, processAll]
  cases process stmt with
  | error fault => rfl
  | ok entities => exact congrArg Except.ok (List.append_nil entities)

theorem processAll_append (first second : List Stmt) :
    processAll (first ++ second) = do
      let earlier ← processAll first
      let later ← processAll second
      return earlier ++ later := by
  induction first with
  | nil =>
    rw [List.nil_append, processAll]
    cases processAll second <;> rfl
  | cons stmt rest ih =>
    rw [List.cons_append, processAll, processAll, ih]
    cases process stmt with
    | error fault => rfl
    | ok entities =>
      cases processAll rest with
      | error fault => rfl
      | ok further =>
        cases processAll second with
        | error fault => rfl
        | ok later => exact congrArg Except.ok (List.append_assoc entities further later).symm

end Stmt

theorem walk_nested (settings : Settings) (body : List Stmt) :
    walk settings false body = Stmt.processAll body := by
  induction body with
  | nil => rfl
  | cons stmt rest ih => rw [walk, Stmt.processAll, ih, if_neg Bool.false_ne_true]

/-! ## Opened guards -/

section Guards

variable (settings : Settings)

/-- The body of an entry guard; any other statement alone. -/
def Stmt.opened (stmt : Stmt) : List Stmt :=
  (stmt.guardBody? settings).getD [stmt]

theorem Stmt.rootProcess_eq (stmt : Stmt) :
    stmt.rootProcess settings = processAll (stmt.opened settings) := by
  rw [rootProcess, opened]
  cases stmt.guardBody? settings with
  | none => exact (processAll_singleton stmt).symm
  | some body => rfl

theorem walk_root_eq (body : List Stmt) :
    walk settings true body = Stmt.processAll (body.flatMap (Stmt.opened settings)) := by
  induction body with
  | nil => rfl
  | cons stmt rest ih =>
    rw [walk, if_pos rfl, ih, Stmt.rootProcess_eq, List.flatMap_cons, Stmt.processAll_append]

variable {settings}

/-- Below the top level an entry guard is a conditional over its body. Its test, a comparison, cannot
fail. -/
theorem Stmt.process_of_guardBody? {stmt : Stmt} {body : List Stmt}
    (h : stmt.guardBody? settings = some body) :
    stmt.process = do
      let inner ← processAll body
      return [.logic .ifThen (some [.unmodeled "Compare"]) inner none stmt.line] := by
  unfold guardBody? at h
  split at h
  · split at h
    · cases h
      rfl
    · cases h
  · cases h

end Guards

/-! ## The two walks side by side -/

/-- Both results fail with the same fault, or the entities of the second count `more` more than those of
the first. -/
inductive CountsMore (more : Nat) :
    Except UnexpectedCallee (List Entity) → Except UnexpectedCallee (List Entity) → Prop
  | fails (fault : UnexpectedCallee) : CountsMore more (.error fault) (.error fault)
  | gives {flat nested : List Entity} :
    Entity.countAll nested = Entity.countAll flat + more → CountsMore more (.ok flat) (.ok nested)

theorem Entity.countAll_eq_sum (entities : List Entity) :
    countAll entities = (entities.map count).sum := by
  induction entities with
  | nil => rfl
  | cons entity rest ih => rw [countAll, ih, List.map_cons, List.sum_cons]

namespace CountsMore

variable {x x' y y' : Except UnexpectedCallee (List Entity)} {m n : Nat}

theorem refl (x : Except UnexpectedCallee (List Entity)) : CountsMore 0 x x := by
  cases x with
  | error fault => exact .fails fault
  | ok entities => exact .gives rfl

theorem append (hx : CountsMore m x x') (hy : CountsMore n y y') :
    CountsMore (m + n) (do let earlier ← x; let later ← y; return earlier ++ later)
      (do let earlier ← x'; let later ← y'; return earlier ++ later) := by
  cases hx with
  | fails fault => exact .fails fault
  | gives hx =>
    cases hy with
    | fails fault => exact .fails fault
    | gives hy =>
      refine .gives ?_
      simp only [Entity.countAll_eq_sum, List.map_append, List.sum_append] at hx hy ⊢
      omega

/-- A conditional around the entities is one entity more. -/
theorem logic (x : Except UnexpectedCallee (List Entity)) (kind : ConditionKind)
    (condition : Option (List Reference)) (line : Nat) :
    CountsMore 1 x (do let inner ← x; return [.logic kind condition inner none line]) := by
  cases x with
  | error fault => exact .fails fault
  | ok inner =>
    refine .gives ?_
    simp only [Entity.countAll, Entity.count, Entity.countIn]
    omega

end CountsMore

section Walks

variable (settings : Settings)

theorem Stmt.rootProcess_countMore (stmt : Stmt) :
    CountsMore (if stmt.isEntryGuard settings then 1 else 0) (stmt.rootProcess settings)
      stmt.process := by
  rw [isEntryGuard, rootProcess]
  cases h : stmt.guardBody? settings with
  | none => exact .refl _
  | some body =>
    rw [process_of_guardBody? h]
    exact .logic _ _ _ _

theorem walks_countMore (body : List Stmt) :
    CountsMore (body.countP (Stmt.isEntryGuard settings)) (walk settings true body)
      (walk settings false body) := by
  induction body with
  | nil => exact .refl _
  | cons stmt rest ih =>
    rw [walk, walk, if_pos rfl, if_neg Bool.false_ne_true, List.countP_cons, Nat.add_comm]
    exact (stmt.rootProcess_countMore settings).append ih

/-- Without entry guards there is nothing to open. -/
theorem walk_root_eq_nested {body : List Stmt}
    (h : ∀ stmt ∈ body, stmt.isEntryGuard settings = false) :
    walk settings true body = walk settings false body := by
  induction body with
  | nil => rfl
  | cons stmt rest ih =>
    have hnone : stmt.guardBody? settings = none := by
      simpa [Stmt.isEntryGuard] using h stmt List.mem_cons_self
    rw [walk, walk, ih fun other ho => h other (List.mem_cons_of_mem _ ho), Stmt.rootProcess, hnone]
    rfl

/-- The walk at the top level is the walk below it of the list with the body of each entry guard in its
place, where a guard is a conditional like any other. The two walks of one list fail alike. If they do
not fail, the one below the top level has one entity more for each guard, and they are the same exactly
if there is none. -/
theorem walk_entryGuards (body : List Stmt) :
    walk settings true body = walk settings false (body.flatMap (Stmt.opened settings)) ∧
      (∀ guard inner, guard.guardBody? settings = some inner →
        walk settings false [guard] = do
          let entities ← walk settings false inner
          return [.logic .ifThen (some [.unmodeled "Compare"]) entities none guard.line]) ∧
      ((∃ fault, walk settings true body = .error fault ∧ walk settings false body = .error fault) ∨
        ∃ flat nested, walk settings true body = .ok flat ∧ walk settings false body = .ok nested ∧
          (nested.map Entity.count).sum =
            (flat.map Entity.count).sum + body.countP (Stmt.isEntryGuard settings) ∧
          (flat = nested ↔ ∀ stmt ∈ body, stmt.isEntryGuard settings = false)) := by
  refine ⟨by rw [walk_root_eq, walk_nested], fun guard inner hguard => ?_, ?_⟩
  · rw [walk_nested, walk_nested, Stmt.processAll_singleton, Stmt.process_of_guardBody? hguard]
  have hagree := walks_countMore settings body
  generalize hflat : walk settings true body = flat at hagree
  generalize hnested : walk settings false body = nested at hagree
  cases hagree with
  | fails fault => exact .inl ⟨fault, rfl, rfl⟩
  | @gives flat nested hcount =>
    rw [Entity.countAll_eq_sum, Entity.countAll_eq_sum] at hcount
    refine .inr ⟨flat, nested, rfl, rfl, hcount, fun heq => ?_, fun hnone => ?_⟩
    · have hzero : body.countP (Stmt.isEntryGuard settings) = 0 := by
        rw [heq] at hcount
        omega
      simpa using List.countP_eq_zero.mp hzero
    · rw [walk_root_eq_nested settings hnone, hnested] at hflat
      exact (Except.ok.inj hflat).symm

end Walks

end EntityGraph
