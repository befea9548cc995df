import EntityGraph.Extraction.Module
import EntityGraph.Proofs.Result

/-!
# Successful extractions

What a successful extraction is made of: each function, method and class of the result comes from a
definition that is itself extracted successfully.

* `Call.of?_eq_some`, `Variable.of?_eq_some`, `Stmt.binding?_eq_some`: what a call or a binding is made
  of;
* `Function.ofDefinition_eq_ok`, `Class.ofDefinition_eq_ok`, `File.ofModule_eq_ok`: the steps that
  succeed, and the result;
* `exists_functionDef_of_mem_methods`, `exists_functionDef_of_mem_functions`,
  `exists_classDef_of_mem_classes`: where the parts come from.
-/

namespace EntityGraph

/-! ## Lists side by side -/

section Lists

variable {α β γ : Type} {R : α → β → Prop} {xs : List α} {ys : List β}

theorem exists_of_mem_forall₂ (h : List.Forall₂ R xs ys) {y : β} (hy : y ∈ ys) : ∃ x ∈ xs, R x y := by
  induction h with
  | nil => exact absurd hy List.not_mem_nil
  | @cons x first xs ys hr _ ih =>
    rcases List.mem_cons.mp hy with rfl | hy
    · exact ⟨x, List.mem_cons_self, hr⟩
    · obtain ⟨x', hx, hr'⟩ := ih hy
      exact ⟨x', List.mem_cons_of_mem _ hx, hr'⟩

theorem flatMap_eq_of_forall₂ {f : α → List γ} {g : β → List γ} (h : List.Forall₂ R xs ys)
    (hfg : ∀ x y, R x y → f x = g y) : xs.flatMap f = ys.flatMap g := by
  induction h with
  | nil => rfl
  | cons hr _ ih => rw [List.flatMap_cons, List.flatMap_cons, hfg _ _ hr, ih]

theorem filterMap_eq_of_forall₂ {f : α → Option γ} {g : β → Option γ} (h : List.Forall₂ R xs ys)
    (hfg : ∀ x y, R x y → f x = g y) : xs.filterMap f = ys.filterMap g := by
  induction h with
  | nil => rfl
  | cons hr _ ih => rw [List.filterMap_cons, List.filterMap_cons, hfg _ _ hr, ih]

end Lists

/-! ## Calls and bindings -/

theorem Call.of?_eq_some {func : Expr} {takenVar : List Reference} {made : Call}
    (h : Call.of? func takenVar = .ok (some made)) : made.takenVar = takenVar ∧ made.line = func.line := by
  cases func with
  | «attribute» value attr line | name id line =>
    cases h
    exact ⟨rfl, rfl⟩
  | other kind line =>
    rw [Call.of?] at h
    split at h <;> cases h
  | _ => cases h

theorem Variable.of?_eq_some {targets : List Expr} {value : Expr} {line : Nat} {bound : Variable}
    (h : Variable.of? targets value line = .ok (some bound)) :
    value.references = .ok bound.pointsTo ∧ Expr.targetsOfAll targets = .ok bound.targets ∧
      bound.targets ≠ [] ∧ bound.line = line := by
  obtain ⟨pointsTo, hpointsTo, hrest⟩ := bind_eq_ok.mp h
  obtain ⟨opened, hopened, hreturn⟩ := bind_eq_ok.mp hrest
  split at hreturn
  · cases hreturn
  · next hempty =>
    cases hreturn
    exact ⟨hpointsTo, hopened, fun hnil => hempty (List.isEmpty_iff.mpr hnil), rfl⟩

/-- A statement that binds is an assignment of a value to targets. -/
theorem Stmt.binding?_eq_some {stmt : Stmt} {bound : Variable} (h : stmt.binding? = .ok (some bound)) :
    ∃ targets value, Variable.of? targets value stmt.line = .ok (some bound) := by
  cases stmt with
  | assign targets value line => exact ⟨targets, value, h⟩
  | augAssign target op value line => exact ⟨[target], value, h⟩
  | annAssign target annotation value line =>
    cases value with
    | none => cases h
    | some value => exact ⟨[target], value, h⟩
  | _ => cases h

/-! ## Functions and classes -/

variable {settings : Settings}

theorem Function.ofDefinition_eq_ok {header : FunctionHeader} {body : List Stmt} {function : Function} :
    Function.ofDefinition header body = .ok function ↔
      ∃ process, Stmt.processAll body = .ok process ∧
        ⟨header.name, header.line, docstring? body, header.params.inputs, functionOutputs body, process,
          header.isAsync⟩ = function := by
  simp only [Function.ofDefinition, bind_eq_ok, pure_eq_ok]

theorem Class.ofDefinition_eq_ok {header : ClassHeader} {members : List Stmt} {declared : Class} :
    Class.ofDefinition settings header members = .ok declared ↔
      ∃ methods, List.Forall₂ (fun stmt method => methodOf? settings stmt = .ok method) members methods ∧
        ⟨header.name, header.line, header.bases.filterMap baseName?, methods.filterMap id,
          attributesOf settings members⟩ = declared := by
  simp only [Class.ofDefinition, bind_eq_ok, pure_eq_ok, mapM_eq_ok]

/-- A method is the function that a definition in the body of the class gives. -/
theorem exists_functionDef_of_methodOf? {stmt : Stmt} {method : Function}
    (h : methodOf? settings stmt = .ok (some method)) :
    ∃ header body, stmt = .functionDef header body ∧ Function.ofDefinition header body = .ok method := by
  cases stmt with
  | functionDef header body =>
    rw [methodOf?] at h
    split at h
    · cases h
    · obtain ⟨function, hf, heq⟩ := map_eq_ok.mp h
      cases heq
      exact ⟨header, body, rfl, hf⟩
  | _ => cases h

theorem exists_functionDef_of_mem_methods {header : ClassHeader} {members : List Stmt} {declared : Class}
    (h : Class.ofDefinition settings header members = .ok declared) {method : Function}
    (hm : method ∈ declared.methods) :
    ∃ inner body, .functionDef inner body ∈ members ∧ Function.ofDefinition inner body = .ok method := by
  obtain ⟨methods, hall, rfl⟩ := Class.ofDefinition_eq_ok.mp h
  obtain ⟨_, hmem, rfl⟩ := List.mem_filterMap.mp hm
  obtain ⟨stmt, hs, hr⟩ := exists_of_mem_forall₂ hall hmem
  obtain ⟨inner, body, rfl, hf⟩ := exists_functionDef_of_methodOf? hr
  exact ⟨inner, body, hs, hf⟩

/-! ## Modules -/

theorem File.ofModule_eq_ok {files : FileTree} {root path : Path} {body : List Stmt} {file : File} :
    File.ofModule settings files root path body = .ok file ↔
      ∃ declared, List.Forall₂ (fun stmt part => Declared.ofStmt settings stmt = .ok part) body declared ∧
        ∃ process, walk settings true body = .ok process ∧
          ⟨path, process, declared.filterMap Declared.function?, declared.filterMap Declared.class?,
            body.flatMap constantsOf, body.flatMap (Import.importsOf files root path),
            declared.flatMap Declared.gaps⟩ = file := by
  simp only [File.ofModule, bind_eq_ok, pure_eq_ok, mapM_eq_ok]

theorem exists_functionDef_of_ofStmt {stmt : Stmt} {part : Declared} {function : Function}
    (h : Declared.ofStmt settings stmt = .ok part) (hf : part.function? = some function) :
    ∃ header body, stmt = .functionDef header body ∧
      Function.ofDefinition header body = .ok function := by
  cases stmt with
  | functionDef header body =>
    obtain ⟨declared, hd, rfl⟩ := map_eq_ok.mp h
    cases hf
    exact ⟨header, body, rfl, hd⟩
  | classDef header members =>
    obtain ⟨declared, -, rfl⟩ := map_eq_ok.mp h
    cases hf
  | _ =>
    cases h
    cases hf

theorem exists_classDef_of_ofStmt {stmt : Stmt} {part : Declared} {declared : Class}
    (h : Declared.ofStmt settings stmt = .ok part) (hc : part.class? = some declared) :
    ∃ header members, stmt = .classDef header members ∧
      Class.ofDefinition settings header members = .ok declared := by
  cases stmt with
  | functionDef header body =>
    obtain ⟨function, -, rfl⟩ := map_eq_ok.mp h
    cases hc
  | classDef header members =>
    obtain ⟨declared', hd, rfl⟩ := map_eq_ok.mp h
    cases hc
    exact ⟨header, members, rfl, hd⟩
  | _ =>
    cases h
    cases hc

variable {files : FileTree} {root path : Path} {body : List Stmt} {file : File}

theorem exists_functionDef_of_mem_functions (h : File.ofModule settings files root path body = .ok file)
    {function : Function} (hf : function ∈ file.functions) :
    ∃ header inner, .functionDef header inner ∈ body ∧
      Function.ofDefinition header inner = .ok function := by
  obtain ⟨declared, hall, process, -, rfl⟩ := File.ofModule_eq_ok.mp h
  obtain ⟨part, hp, hfun⟩ := List.mem_filterMap.mp hf
  obtain ⟨stmt, hs, hr⟩ := exists_of_mem_forall₂ hall hp
  obtain ⟨header, inner, rfl, hd⟩ := exists_functionDef_of_ofStmt hr hfun
  exact ⟨header, inner, hs, hd⟩

theorem exists_classDef_of_mem_classes (h : File.ofModule settings files root path body = .ok file)
    {declared : Class} (hc : declared ∈ file.classes) :
    ∃ header members, .classDef header members ∈ body ∧
      Class.ofDefinition settings header members = .ok declared := by
  obtain ⟨parts, hall, process, -, rfl⟩ := File.ofModule_eq_ok.mp h
  obtain ⟨part, hp, hclass⟩ := List.mem_filterMap.mp hc
  obtain ⟨stmt, hs, hr⟩ := exists_of_mem_forall₂ hall hp
  obtain ⟨header, members, rfl, hd⟩ := exists_classDef_of_ofStmt hr hclass
  exact ⟨header, members, hs, hd⟩

end EntityGraph
