import EntityGraph.Extraction.Module
import EntityGraph.Proofs.Extraction.Callees

/-!
# Failing extractions

When the extraction of a module fails, and with which error. `Stmt.evaluated` and `moduleEvaluated` list
the expressions whose references a statement list or a module takes, in order; `Stmt.RunsIn` and
`Evaluates` say which they are apart from any order.

* `error?_process`, `error?_walk_root`, `error?_ofModule`: the error is that of the first callee, in all
  these expressions, that no call may have;
* `mem_evaluatedAll`, `mem_moduleEvaluated`: the lists hold exactly what the relations reach;
* `ofModule_fails_iff`: when a module fails, and the error.
-/

namespace EntityGraph

/-! ## Expressions of statements -/

namespace Expr

mutual

/-- The expressions whose references a target takes: the bases of its subscripts and the indices that
are references, in order. -/
def addressed : Expr → List Expr
  | .tuple elts _ | .list elts _ => addressedInAll elts
  | .starred value _ => addressed value
  | .subscript value index _ => if index.isReference then [value, index] else [value]
  | _ => []

def addressedInAll : List Expr → List Expr
  | [] => []
  | expr :: rest => addressed expr ++ addressedInAll rest

end

end Expr

namespace Stmt

/-- The expressions whose references a statement takes itself, apart from the statements in it. -/
def ownExprs : Stmt → List Expr
  | .assign targets value _ => value :: Expr.addressedInAll targets
  | .augAssign target _ value _ | .annAssign target _ (some value) _ => value :: target.addressed
  | .branch test _ _ _ | .while test _ _ _ => [test]
  | .expr (.call func args keywords inner) _ => [.call func args keywords inner]
  | .return (some value) _ => [value]
  | _ => []

mutual

/-- The expressions whose references a statement takes, in order: those of an `else` come first, those
of a test before those of the statements that depend on it. -/
def evaluated : Stmt → List Expr
  | .branch test body orelse _ => evaluatedAll orelse ++ (test :: evaluatedAll body)
  | .while test body _ _ => test :: evaluatedAll body
  | .try body _ _ _ _ => evaluatedAll body
  | stmt => stmt.ownExprs

def evaluatedAll : List Stmt → List Expr
  | [] => []
  | stmt :: rest => evaluated stmt ++ evaluatedAll rest

end

/-- The statement is in the list, or in a branch of a conditional, the body of a `while` or the body of
a `try` that is. -/
inductive RunsIn (stmt : Stmt) : List Stmt → Prop
  | listed {body : List Stmt} : stmt ∈ body → RunsIn stmt body
  | body {test : Expr} {inner orelse outer : List Stmt} {line : Nat} :
    .branch test inner orelse line ∈ outer → RunsIn stmt inner → RunsIn stmt outer
  | orelse {test : Expr} {body inner outer : List Stmt} {line : Nat} :
    .branch test body inner line ∈ outer → RunsIn stmt inner → RunsIn stmt outer
  | loop {test : Expr} {inner orelse outer : List Stmt} {line : Nat} :
    .while test inner orelse line ∈ outer → RunsIn stmt inner → RunsIn stmt outer
  | attempt {inner orelse finalbody outer : List Stmt} {handlers : List Handler} {line : Nat} :
    .try inner handlers orelse finalbody line ∈ outer → RunsIn stmt inner → RunsIn stmt outer

end Stmt

/-- The first fault among the callees that the expressions judge. -/
def firstFaultIn (exprs : List Expr) : Option UnexpectedCallee :=
  firstFault (exprs.flatMap Expr.callees)

theorem firstFaultIn_append (first second : List Expr) :
    firstFaultIn (first ++ second) = (firstFaultIn first).or (firstFaultIn second) := by
  rw [firstFaultIn, List.flatMap_append, firstFault_append]
  rfl

theorem firstFaultIn_cons (e : Expr) (rest : List Expr) :
    firstFaultIn (e :: rest) = (firstFault e.callees).or (firstFaultIn rest) := by
  rw [firstFaultIn, List.flatMap_cons, firstFault_append]
  rfl

theorem firstFaultIn_singleton (e : Expr) : firstFaultIn [e] = firstFault e.callees := by
  rw [firstFaultIn, List.flatMap_singleton]

theorem firstFaultIn_flatMap {α : Type} (f : α → List Expr) (xs : List α) :
    firstFaultIn (xs.flatMap f) = xs.findSome? fun x => firstFaultIn (f x) := by
  rw [firstFaultIn, List.flatMap_assoc, firstFault_flatMap]
  rfl

/-! ## Errors of statements -/

namespace Expr

mutual

theorem error?_targets : ∀ e : Expr, error? e.targets = firstFaultIn e.addressed
  | .tuple elts _ => by rw [targets, error?_targetsOfAll elts, addressed]
  | .list elts _ => by rw [targets, error?_targetsOfAll elts, addressed]
  | .starred value _ => by rw [targets, error?_targets value, addressed]
  | .subscript value index _ => by
    cases h : index.isReference with
    | true =>
      simp only [targets, addressed, h, if_true, firstFaultIn_cons value, firstFaultIn_singleton]
      rw [error?_bind fun _ => error?_bind_pure _ _, error?_references, error?_references]
    | false =>
      simp only [targets, addressed, h, Bool.false_eq_true, if_false, firstFaultIn_singleton]
      rw [← error?_references value]
      exact error?_bind_pure _ _
  | .name .. | .attribute .. | .call .. | .binOp .. | .unaryOp .. | .boolOp .. | .compare ..
  | .ifExp .. | .slice .. | .joinedStr .. | .formattedValue .. | .constant .. | .set .. | .dict ..
  | .comprehension .. | .lambda .. | .await .. | .yield .. | .yieldFrom .. | .namedExpr ..
  | .other .. => rfl

theorem error?_targetsOfAll :
    ∀ exprs : List Expr, error? (targetsOfAll exprs) = firstFaultIn (addressedInAll exprs)
  | [] => rfl
  | expr :: rest => by
    rw [targetsOfAll, error?_bind fun _ => error?_bind_pure _ _, error?_targets expr,
      error?_targetsOfAll rest, addressedInAll, firstFaultIn_append]

end

theorem error?_call? (func : Expr) (args : List Expr) (keywords : List Keyword) (line : Nat) :
    error? (call? (.call func args keywords line)) =
      firstFault (callees (.call func args keywords line)) := by
  rw [call?, error?_bind fun _ => error?_bind fun _ => error?_callOf _ _, error?_referencesOfAll,
    error?_referencesOfKeywords, callees, firstFault_append, firstFault_append, firstFault_singleton]

end Expr

theorem error?_variableOf (targets : List Expr) (value : Expr) (line : Nat) :
    error? (Variable.of? targets value line) = firstFaultIn (value :: Expr.addressedInAll targets) := by
  rw [Variable.of?, error?_bind fun _ => error?_bind_pure _ _, Expr.error?_references,
    Expr.error?_targetsOfAll, firstFaultIn_cons]

theorem error?_variableOf_singleton (target value : Expr) (line : Nat) :
    error? (Variable.of? [target] value line) = firstFaultIn (value :: target.addressed) := by
  rw [error?_variableOf, Expr.addressedInAll, Expr.addressedInAll, List.append_nil]

namespace Stmt

mutual

theorem error?_process : ∀ stmt : Stmt, error? stmt.process = firstFaultIn stmt.evaluated
  | .branch test body orelse _ => by
    rw [process, error?_bind fun _ => error?_bind fun _ => error?_bind_pure _ _,
      error?_processAll orelse, Expr.error?_references test, error?_processAll body, evaluated,
      firstFaultIn_append, firstFaultIn_cons]
  | .while test body _ _ => by
    rw [process, error?_bind fun _ => error?_bind_pure _ _, Expr.error?_references test,
      error?_processAll body, evaluated, firstFaultIn_cons]
  | .try body _ _ _ _ => by
    rw [process, error?_bind_pure, error?_processAll body, evaluated]
  | .expr value _ => by
    rw [process, error?_bind_pure]
    cases value with
    | call func args keywords line =>
      exact (Expr.error?_call? func args keywords line).trans (firstFaultIn_singleton _).symm
    | _ => rfl
  | .return (some value) _ => by
    rw [process, error?_bind_pure, Expr.error?_references]
    exact (firstFaultIn_singleton value).symm
  | .assign targets value line =>
    (error?_bind_pure _ _).trans (error?_variableOf targets value line)
  | .augAssign target _ value line | .annAssign target _ (some value) line =>
    (error?_bind_pure _ _).trans (error?_variableOf_singleton target value line)
  | .annAssign _ _ none _ | .return none _ | .functionDef .. | .classDef .. | .for .. | .with ..
  | .importModules .. | .importFrom .. | .other .. => rfl

theorem error?_processAll :
    ∀ body : List Stmt, error? (processAll body) = firstFaultIn (evaluatedAll body)
  | [] => rfl
  | stmt :: rest => by
    rw [processAll, error?_bind fun _ => error?_bind_pure _ _, error?_process stmt,
      error?_processAll rest, evaluatedAll, firstFaultIn_append]

end

/-! ## Statements that run -/

theorem mem_evaluated_of_mem_ownExprs {stmt : Stmt} {e : Expr} (h : e ∈ stmt.ownExprs) :
    e ∈ stmt.evaluated := by
  cases stmt with
  | branch test body orelse line =>
    exact List.mem_append_right _ (List.mem_cons.mpr (.inl (List.mem_singleton.mp h)))
  | «while» test body orelse line => exact List.mem_cons.mpr (.inl (List.mem_singleton.mp h))
  | «try» => exact absurd h List.not_mem_nil
  | _ => exact h

theorem mem_evaluatedAll_of_mem {stmt : Stmt} {body : List Stmt} (hs : stmt ∈ body) :
    stmt.evaluated ⊆ evaluatedAll body := by
  induction body with
  | nil => exact absurd hs List.not_mem_nil
  | cons first rest ih =>
    intro e he
    rcases List.mem_cons.mp hs with rfl | hs
    · exact List.mem_append_left _ he
    · exact List.mem_append_right _ (ih hs he)

theorem RunsIn.evaluated_subset {stmt : Stmt} {body : List Stmt} (h : stmt.RunsIn body) :
    stmt.evaluated ⊆ evaluatedAll body := by
  induction h with
  | listed hs => exact mem_evaluatedAll_of_mem hs
  | body hs _ ih =>
    exact fun _ he => mem_evaluatedAll_of_mem hs
      (List.mem_append_right _ (List.mem_cons_of_mem _ (ih he)))
  | orelse hs _ ih => exact fun _ he => mem_evaluatedAll_of_mem hs (List.mem_append_left _ (ih he))
  | loop hs _ ih => exact fun _ he => mem_evaluatedAll_of_mem hs (List.mem_cons_of_mem _ (ih he))
  | attempt hs _ ih => exact fun _ he => mem_evaluatedAll_of_mem hs (ih he)

theorem RunsIn.mono {stmt : Stmt} {inner outer : List Stmt} (h : stmt.RunsIn inner)
    (hsub : inner ⊆ outer) : stmt.RunsIn outer := by
  cases h with
  | listed hs => exact .listed (hsub hs)
  | body hs h => exact .body (hsub hs) h
  | orelse hs h => exact .orelse (hsub hs) h
  | loop hs h => exact .loop (hsub hs) h
  | attempt hs h => exact .attempt (hsub hs) h

mutual

theorem exists_runsIn_of_mem_evaluated : ∀ (stmt : Stmt) {e : Expr},
    e ∈ stmt.evaluated → ∃ inner : Stmt, inner.RunsIn [stmt] ∧ e ∈ inner.ownExprs
  | .branch test body orelse line, e, h => by
    rcases List.mem_append.mp h with h | h
    · obtain ⟨inner, hr, he⟩ := exists_runsIn_of_mem_evaluatedAll orelse h
      exact ⟨inner, .orelse List.mem_cons_self hr, he⟩
    · rcases List.mem_cons.mp h with rfl | h
      · exact ⟨_, .listed List.mem_cons_self, List.mem_cons_self⟩
      · obtain ⟨inner, hr, he⟩ := exists_runsIn_of_mem_evaluatedAll body h
        exact ⟨inner, .body List.mem_cons_self hr, he⟩
  | .while test body orelse line, e, h => by
    rcases List.mem_cons.mp h with rfl | h
    · exact ⟨_, .listed List.mem_cons_self, List.mem_cons_self⟩
    · obtain ⟨inner, hr, he⟩ := exists_runsIn_of_mem_evaluatedAll body h
      exact ⟨inner, .loop List.mem_cons_self hr, he⟩
  | .try body handlers orelse finalbody line, e, h => by
    obtain ⟨inner, hr, he⟩ := exists_runsIn_of_mem_evaluatedAll body h
    exact ⟨inner, .attempt List.mem_cons_self hr, he⟩
  | .functionDef .., _, h | .classDef .., _, h | .assign .., _, h | .augAssign .., _, h
  | .annAssign .., _, h | .expr .., _, h | .return .., _, h | .for .., _, h | .with .., _, h
  | .importModules .., _, h | .importFrom .., _, h | .other .., _, h =>
    ⟨_, .listed List.mem_cons_self, h⟩
termination_by structural stmt => stmt

theorem exists_runsIn_of_mem_evaluatedAll : ∀ (body : List Stmt) {e : Expr},
    e ∈ evaluatedAll body → ∃ inner : Stmt, inner.RunsIn body ∧ e ∈ inner.ownExprs
  | stmt :: rest, _, h => by
    rcases List.mem_append.mp h with h | h
    · obtain ⟨inner, hr, he⟩ := exists_runsIn_of_mem_evaluated stmt h
      exact ⟨inner, hr.mono (by simp), he⟩
    · obtain ⟨inner, hr, he⟩ := exists_runsIn_of_mem_evaluatedAll rest h
      exact ⟨inner, hr.mono (List.subset_cons_self _ _), he⟩

end

theorem mem_evaluatedAll {body : List Stmt} {e : Expr} :
    e ∈ evaluatedAll body ↔ ∃ stmt : Stmt, stmt.RunsIn body ∧ e ∈ stmt.ownExprs := by
  refine ⟨exists_runsIn_of_mem_evaluatedAll body, ?_⟩
  rintro ⟨stmt, hr, he⟩
  exact hr.evaluated_subset (mem_evaluated_of_mem_ownExprs he)

theorem mem_evaluated {stmt : Stmt} {e : Expr} :
    e ∈ stmt.evaluated ↔ ∃ inner : Stmt, inner.RunsIn [stmt] ∧ e ∈ inner.ownExprs := by
  rw [← mem_evaluatedAll, evaluatedAll, evaluatedAll, List.append_nil]

end Stmt

/-! ## Modules -/

section Modules

variable (settings : Settings)

/-- The body of a method: of a function in a class that does not construct. -/
def methodBody? : Stmt → Option (List Stmt)
  | .functionDef header body => if settings.isConstructor header.name then none else some body
  | _ => none

/-- The bodies that a statement at the top level declares: of a function, or of a class's methods. -/
def declaredBodies : Stmt → List (List Stmt)
  | .functionDef _ body => [body]
  | .classDef _ members => members.filterMap (methodBody? settings)
  | _ => []

/-- The expressions of a statement at the top level. The test of an entry guard is left out. -/
def rootEvaluated (stmt : Stmt) : List Expr :=
  match stmt.guardBody? settings with
  | some body => Stmt.evaluatedAll body
  | none => stmt.evaluated

/-- The expressions whose references a module takes, in order: those of its declarations come before
those of its own statements. -/
def moduleEvaluated (body : List Stmt) : List Expr :=
  body.flatMap (fun stmt => (declaredBodies settings stmt).flatMap Stmt.evaluatedAll) ++
    body.flatMap (rootEvaluated settings)

/-- The callees that are judged when a module is extracted, in order. -/
def moduleCallees (body : List Stmt) : List Expr :=
  (moduleEvaluated settings body).flatMap Expr.callees

/-- The module takes the references of the expression: it is an expression of a statement that runs in
a function, in a method, in an entry guard, or at the top level outside of entry guards. -/
inductive Evaluates (body : List Stmt) (e : Expr) : Prop
  | function {header : FunctionHeader} {inner : List Stmt} {stmt : Stmt} :
    .functionDef header inner ∈ body → stmt.RunsIn inner → e ∈ stmt.ownExprs → Evaluates body e
  | method {outer : ClassHeader} {members : List Stmt} {header : FunctionHeader} {inner : List Stmt}
    {stmt : Stmt} :
    .classDef outer members ∈ body → .functionDef header inner ∈ members →
      settings.isConstructor header.name = false → stmt.RunsIn inner → e ∈ stmt.ownExprs →
      Evaluates body e
  | guarded {guard : Stmt} {inner : List Stmt} {stmt : Stmt} :
    guard ∈ body → guard.guardBody? settings = some inner → stmt.RunsIn inner → e ∈ stmt.ownExprs →
      Evaluates body e
  | plain {top stmt : Stmt} :
    top ∈ body → top.guardBody? settings = none → stmt.RunsIn [top] → e ∈ stmt.ownExprs →
      Evaluates body e

/-! ### Errors of modules -/

theorem error?_functionOf (header : FunctionHeader) (body : List Stmt) :
    error? (Function.ofDefinition header body) = firstFaultIn (Stmt.evaluatedAll body) := by
  rw [Function.ofDefinition, error?_bind_pure, Stmt.error?_processAll]

theorem error?_methodOf? (stmt : Stmt) :
    error? (methodOf? settings stmt) =
      firstFaultIn ((methodBody? settings stmt).toList.flatMap Stmt.evaluatedAll) := by
  cases stmt with
  | functionDef header body =>
    cases h : settings.isConstructor header.name with
    | true => simp only [methodOf?, methodBody?, h, if_true]; rfl
    | false =>
      simp only [methodOf?, methodBody?, h, Bool.false_eq_true, if_false, error?_map,
        error?_functionOf, Option.toList_some, List.flatMap_singleton]
  | _ => rfl

theorem error?_classOf (header : ClassHeader) (members : List Stmt) :
    error? (Class.ofDefinition settings header members) =
      firstFaultIn ((members.filterMap (methodBody? settings)).flatMap Stmt.evaluatedAll) := by
  rw [Class.ofDefinition, error?_bind_pure, error?_mapM,
    List.filterMap_eq_flatMap_toList, List.flatMap_assoc, firstFaultIn_flatMap]
  simp only [error?_methodOf?]

theorem error?_declaredOf (stmt : Stmt) :
    error? (Declared.ofStmt settings stmt) =
      firstFaultIn ((declaredBodies settings stmt).flatMap Stmt.evaluatedAll) := by
  cases stmt with
  | functionDef header body =>
    rw [Declared.ofStmt, error?_map, error?_functionOf, declaredBodies, List.flatMap_singleton]
  | classDef header members => rw [Declared.ofStmt, error?_map, error?_classOf, declaredBodies]
  | _ => rfl

theorem error?_rootProcess (stmt : Stmt) :
    error? (stmt.rootProcess settings) = firstFaultIn (rootEvaluated settings stmt) := by
  unfold Stmt.rootProcess rootEvaluated
  cases stmt.guardBody? settings with
  | none => exact Stmt.error?_process stmt
  | some body => exact Stmt.error?_processAll body

theorem error?_walk_root (body : List Stmt) :
    error? (walk settings true body) = firstFaultIn (body.flatMap (rootEvaluated settings)) := by
  induction body with
  | nil => rfl
  | cons stmt rest ih =>
    rw [walk, if_pos rfl, error?_bind fun _ => error?_bind_pure _ _, error?_rootProcess, ih,
      List.flatMap_cons, firstFaultIn_append]

theorem error?_ofModule (files : FileTree) (root path : Path) (body : List Stmt) :
    error? (File.ofModule settings files root path body) = firstFault (moduleCallees settings body) := by
  rw [File.ofModule, error?_bind fun _ => error?_bind_pure _ _, error?_mapM, error?_walk_root]
  simp only [error?_declaredOf]
  rw [← firstFaultIn_flatMap, ← firstFaultIn_append]
  rfl

/-! ### Expressions of modules -/

theorem mem_rootEvaluated {stmt : Stmt} {e : Expr} (h : e ∈ rootEvaluated settings stmt)
    {body : List Stmt} (hs : stmt ∈ body) : Evaluates settings body e := by
  unfold rootEvaluated at h
  cases hg : stmt.guardBody? settings with
  | none =>
    rw [hg] at h
    obtain ⟨inner, hr, he⟩ := Stmt.mem_evaluated.mp h
    exact .plain hs hg hr he
  | some guarded =>
    rw [hg] at h
    obtain ⟨inner, hr, he⟩ := Stmt.mem_evaluatedAll.mp h
    exact .guarded hs hg hr he

theorem methodBody?_eq_some {member : Stmt} {inner : List Stmt} :
    methodBody? settings member = some inner ↔
      ∃ header, member = .functionDef header inner ∧ settings.isConstructor header.name = false := by
  cases member with
  | functionDef header body =>
    constructor
    · intro h
      cases hc : settings.isConstructor header.name with
      | true => simp [methodBody?, hc] at h
      | false =>
        obtain rfl : body = inner := by simpa [methodBody?, hc] using h
        exact ⟨header, rfl, hc⟩
    · rintro ⟨_, h, hc⟩
      cases h
      simp [methodBody?, hc]
  | _ => simp [methodBody?]

theorem mem_declaredBodies {stmt : Stmt} {inner : List Stmt} :
    inner ∈ declaredBodies settings stmt ↔ (∃ header, stmt = .functionDef header inner) ∨
      ∃ outer members header, stmt = .classDef outer members ∧
        .functionDef header inner ∈ members ∧ settings.isConstructor header.name = false := by
  cases stmt with
  | functionDef header body =>
    rw [declaredBodies, List.mem_singleton]
    constructor
    · rintro rfl
      exact .inl ⟨header, rfl⟩
    · rintro (⟨_, h⟩ | ⟨_, _, _, h, -⟩)
      · cases h
        rfl
      · cases h
  | classDef outer members =>
    simp only [declaredBodies, List.mem_filterMap, methodBody?_eq_some]
    constructor
    · rintro ⟨member, hm, header, rfl, hc⟩
      exact .inr ⟨outer, members, header, rfl, hm, hc⟩
    · rintro (⟨_, h⟩ | ⟨_, _, header, h, hm, hc⟩)
      · cases h
      · cases h
        exact ⟨_, hm, header, rfl, hc⟩
  | _ => simp [declaredBodies]

theorem mem_moduleEvaluated {body : List Stmt} {e : Expr} :
    e ∈ moduleEvaluated settings body ↔ Evaluates settings body e := by
  simp only [moduleEvaluated, List.mem_append, List.mem_flatMap]
  constructor
  · rintro (⟨stmt, hs, inner, hi, he⟩ | ⟨stmt, hs, he⟩)
    · obtain ⟨run, hr, ho⟩ := Stmt.mem_evaluatedAll.mp he
      rcases (mem_declaredBodies settings).mp hi with ⟨header, rfl⟩ | ⟨_, _, _, rfl, hm, hc⟩
      · exact .function hs hr ho
      · exact .method hs hm hc hr ho
    · exact mem_rootEvaluated settings he hs
  · intro h
    cases h with
    | function hs hr ho =>
      exact .inl ⟨_, hs, _, (mem_declaredBodies settings).mpr (.inl ⟨_, rfl⟩),
        Stmt.mem_evaluatedAll.mpr ⟨_, hr, ho⟩⟩
    | method hs hm hc hr ho =>
      exact .inl ⟨_, hs, _, (mem_declaredBodies settings).mpr (.inr ⟨_, _, _, rfl, hm, hc⟩),
        Stmt.mem_evaluatedAll.mpr ⟨_, hr, ho⟩⟩
    | guarded hs hg hr ho =>
      refine .inr ⟨_, hs, ?_⟩
      rw [rootEvaluated, hg]
      exact Stmt.mem_evaluatedAll.mpr ⟨_, hr, ho⟩
    | plain hs hg hr ho =>
      refine .inr ⟨_, hs, ?_⟩
      rw [rootEvaluated, hg]
      exact Stmt.mem_evaluated.mpr ⟨_, hr, ho⟩

theorem mem_moduleCallees {body : List Stmt} {callee : Expr} :
    callee ∈ moduleCallees settings body ↔ ∃ e, Evaluates settings body e ∧ e.Judges callee := by
  simp only [moduleCallees, List.mem_flatMap, mem_moduleEvaluated, Expr.mem_callees]

/-- A module fails exactly if some call that is read in an expression it evaluates has a callee that no
call may have. The error is then that of the first such callee in the order of evaluation, which lists
the callees of just these calls. -/
theorem ofModule_fails_iff (files : FileTree) (root path : Path) (body : List Stmt) :
    ((∃ fault, File.ofModule settings files root path body = .error fault) ↔
      ∃ e callee args keywords line, Evaluates settings body e ∧
        e.Reads (.call callee args keywords line) ∧ callee.isExpectedCallee = false) ∧
    (∀ fault, File.ofModule settings files root path body = .error fault ↔
      ∃ before callee after, moduleCallees settings body = before ++ callee :: after ∧
        (∀ earlier ∈ before, earlier.isExpectedCallee = true) ∧ callee.isExpectedCallee = false ∧
        fault = ⟨callee.kindName, callee.line⟩) ∧
    ∀ callee, callee ∈ moduleCallees settings body ↔
      ∃ e args keywords line, Evaluates settings body e ∧ e.Reads (.call callee args keywords line) := by
  have member : ∀ callee, callee ∈ moduleCallees settings body ↔ ∃ e args keywords line,
      Evaluates settings body e ∧ e.Reads (.call callee args keywords line) := fun callee => by
    rw [mem_moduleCallees]
    constructor
    · rintro ⟨e, he, args, keywords, line, hr⟩
      exact ⟨e, args, keywords, line, he, hr⟩
    · rintro ⟨e, args, keywords, line, he, hr⟩
      exact ⟨e, he, args, keywords, line, hr⟩
  refine ⟨?_, fun fault => ?_, member⟩
  · simp only [eq_error_iff, error?_ofModule, exists_firstFault_iff]
    constructor
    · rintro ⟨callee, hm, hc⟩
      obtain ⟨e, args, keywords, line, he, hr⟩ := (member callee).mp hm
      exact ⟨e, callee, args, keywords, line, he, hr, hc⟩
    · rintro ⟨e, callee, args, keywords, line, he, hr, hc⟩
      exact ⟨callee, (member callee).mpr ⟨e, args, keywords, line, he, hr⟩, hc⟩
  · rw [eq_error_iff, error?_ofModule, firstFault_eq_some]

end Modules

end EntityGraph
