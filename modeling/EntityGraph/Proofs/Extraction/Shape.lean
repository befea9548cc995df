import EntityGraph.Proofs.Extraction.EntryGuard
import EntityGraph.Proofs.Extraction.Success
import EntityGraph.Proofs.Graph.Shape
import Mathlib.Data.List.Nodup

/-!
# Shapes of extracted graphs

Every graph that extraction builds is shaped, whatever the module (`File.isShaped_ofModule`). Each
function of extraction gives shaped parts if its own parts are shaped, so that the shape holds at every
depth: of references (`Expr.references_isShaped`), of targets and bindings (`Expr.targets_isShaped`,
`Variable.of?_isShaped`), of processes (`Stmt.process_isShaped`) and of declarations.
-/

namespace EntityGraph

/-! ## References -/

theorem Call.of?_isShaped (func : Expr) {takenVar : List Reference}
    (h : ∀ reference ∈ takenVar, reference.IsShaped) :
    Ensures (fun made => ∀ call ∈ made, Call.IsShaped call) (Call.of? func takenVar) := by
  rintro _ hmade call ⟨⟩
  have htaken := (Call.of?_eq_some hmade).1
  exact .mk (htaken ▸ h)

/-- References of a receiver that are not just one stay together. -/
theorem Receiver.of_isShaped (value : Expr) {references : List Reference}
    (h : ∀ reference ∈ references, reference.IsShaped) : (Receiver.of value references).IsShaped := by
  match references with
  | [] =>
    cases value with
    | call => exact .absent
    | _ => exact .many Nat.zero_ne_one h
  | [single] => exact .one (h single List.mem_cons_self)
  | first :: second :: rest =>
    have hlength : (first :: second :: rest).length ≠ 1 := by simp
    exact .many hlength h

namespace Expr

mutual

theorem references_isShaped : ∀ e : Expr, EnsuresAll Reference.IsShaped e.references
  | .binOp left _ right _ => by
    rw [references]
    exact (references_isShaped left).append (references_isShaped right)
  | .unaryOp _ operand _ => by
    rw [references]
    exact references_isShaped operand
  | .call func args keywords _ => by
    rw [references]
    refine (referencesOfAll_isShaped args).bind fun positional hp => ?_
    refine (referencesOfKeywords_isShaped keywords).bind fun named hn => ?_
    have htaken := List.forall_mem_append.mpr ⟨hp, hn⟩
    exact EnsuresAll.toList (Call.of?_isShaped func htaken) fun _ hmade => .call hmade
  | .attribute value attr _ => by
    rw [references]
    refine (references_isShaped value).bind fun owner howner => ?_
    exact EnsuresAll.singleton (.attribute attr (Receiver.of_isShaped value howner))
  | .name id _ => by
    rw [references]
    exact .singleton (.name id)
  | .subscript value index _ => by
    rw [references]
    refine (references_isShaped value).bind fun base hbase => ?_
    split
    · exact (references_isShaped index).bind_pure fun further hfurther =>
        List.forall_mem_append.mpr ⟨hbase, hfurther⟩
    · exact .pure hbase
  | .joinedStr values _ => by
    rw [references]
    exact referencesOfSegments_isShaped values
  | .ifExp test body orelse line => by
    rw [references]
    refine (references_isShaped body).bind fun process hprocess => ?_
    refine (references_isShaped orelse).bind fun otherwise hotherwise => ?_
    refine (references_isShaped test).bind fun condition hcondition => ?_
    exact EnsuresAll.singleton (.logic line hcondition hprocess hotherwise)
  | .boolOp .. | .compare .. | .slice .. | .formattedValue .. | .constant .. | .tuple .. | .list ..
  | .set .. | .dict .. | .comprehension .. | .lambda .. | .await .. | .yield .. | .yieldFrom ..
  | .starred .. | .namedExpr .. | .other .. => .singleton (.unmodeled _)

theorem referencesOfAll_isShaped :
    ∀ exprs : List Expr, EnsuresAll Reference.IsShaped (referencesOfAll exprs)
  | [] => .nil
  | expr :: rest => by
    rw [referencesOfAll]
    exact (references_isShaped expr).append (referencesOfAll_isShaped rest)

theorem referencesOfKeywords_isShaped :
    ∀ keywords : List Keyword, EnsuresAll Reference.IsShaped (referencesOfKeywords keywords)
  | [] => .nil
  | ⟨_, value⟩ :: rest => by
    rw [referencesOfKeywords]
    exact (references_isShaped value).append (referencesOfKeywords_isShaped rest)

theorem referencesOfSegments_isShaped :
    ∀ segments : List Expr, EnsuresAll Reference.IsShaped (referencesOfSegments segments)
  | [] => .nil
  | segment :: rest => by
    have hrest := referencesOfSegments_isShaped rest
    match segment with
    | .formattedValue value _ => exact (references_isShaped value).append hrest
    | .name .. | .attribute .. | .call .. | .binOp .. | .unaryOp .. | .boolOp .. | .compare ..
    | .ifExp .. | .subscript .. | .slice .. | .joinedStr .. | .constant .. | .tuple .. | .list ..
    | .set .. | .dict .. | .comprehension .. | .lambda .. | .await .. | .yield .. | .yieldFrom ..
    | .starred .. | .namedExpr .. | .other .. => exact hrest

end

theorem call?_isShaped (e : Expr) :
    Ensures (fun made => ∀ call ∈ made, Call.IsShaped call) e.call? := by
  cases e with
  | call func args keywords line =>
    refine (referencesOfAll_isShaped args).bind fun positional hp => ?_
    refine (referencesOfKeywords_isShaped keywords).bind fun named hn => ?_
    exact Call.of?_isShaped func (List.forall_mem_append.mpr ⟨hp, hn⟩)
  | _ => exact .pure fun _ h => by cases h

/-! ## Bindings -/

/-- What is a reference has exactly one, a name or an attribute. -/
theorem references_of_isReference {e : Expr} (h : e.isReference = true) :
    Ensures (fun references => ∃ reference, references = [reference] ∧ reference.IsIndex ∧
      reference.IsShaped) e.references := by
  intro references hreferences
  have hshaped := references_isShaped e references hreferences
  cases e with
  | name id line =>
    cases hreferences
    exact ⟨_, rfl, trivial, hshaped _ List.mem_cons_self⟩
  | «attribute» value attr line =>
    obtain ⟨owner, -, howner⟩ := bind_eq_ok.mp hreferences
    cases howner
    exact ⟨_, rfl, trivial, hshaped _ List.mem_cons_self⟩
  | _ => exact absurd h Bool.false_ne_true

mutual

theorem targets_isShaped : ∀ e : Expr, EnsuresAll Target.IsShaped e.targets
  | .name id _ => .singleton (.name id)
  | .tuple elts _ | .list elts _ => targetsOfAll_isShaped elts
  | .starred value _ => targets_isShaped value
  | .attribute _ attr _ => .singleton (.attribute _ attr)
  | .subscript value index _ => by
    rw [targets]
    refine (references_isShaped value).bind fun base hbase => ?_
    split
    · next hindex =>
      refine (references_of_isReference hindex).bind fun references hreferences => ?_
      refine EnsuresAll.singleton (.subscript hbase ?_)
      rintro _ ⟨⟩
      exact hreferences
    · refine EnsuresAll.singleton (.subscript hbase ?_)
      rintro _ ⟨⟩
  | .call .. | .binOp .. | .unaryOp .. | .boolOp .. | .compare .. | .ifExp .. | .slice ..
  | .joinedStr .. | .formattedValue .. | .constant .. | .set .. | .dict .. | .comprehension ..
  | .lambda .. | .await .. | .yield .. | .yieldFrom .. | .namedExpr .. | .other .. => .nil

theorem targetsOfAll_isShaped :
    ∀ exprs : List Expr, EnsuresAll Target.IsShaped (targetsOfAll exprs)
  | [] => .nil
  | expr :: rest => by
    rw [targetsOfAll]
    exact (targets_isShaped expr).append (targetsOfAll_isShaped rest)

end

end Expr

theorem Variable.of?_isShaped {targets : List Expr} {value : Expr} {line : Nat} {bound : Variable}
    (h : Variable.of? targets value line = .ok (some bound)) : bound.IsShaped := by
  obtain ⟨hpointsTo, htargets, hne, -⟩ := Variable.of?_eq_some h
  exact ⟨hne, Expr.targetsOfAll_isShaped _ _ htargets, Expr.references_isShaped _ _ hpointsTo⟩

theorem Stmt.binding?_isShaped (stmt : Stmt) :
    Ensures (fun bound => ∀ binding ∈ bound, Variable.IsShaped binding) stmt.binding? := by
  rintro _ hbinding bound ⟨⟩
  obtain ⟨targets, value, hbound⟩ := Stmt.binding?_eq_some hbinding
  exact Variable.of?_isShaped hbound

/-! ## Processes -/

namespace Stmt

mutual

theorem process_isShaped : ∀ stmt : Stmt, EnsuresAll Entity.IsShaped stmt.process
  | .branch test body orelse line => by
    rw [process]
    refine (processAll_isShaped orelse).bind fun otherwise hotherwise => ?_
    refine test.references_isShaped.bind fun condition hcondition => ?_
    refine (processAll_isShaped body).bind fun inner hinner => ?_
    refine EnsuresAll.singleton (.ifThen line hcondition hinner ?_)
    split
    · rintro _ ⟨⟩
    · rintro _ ⟨⟩
      exact hotherwise
  | .while test body _ line => by
    rw [process]
    refine test.references_isShaped.bind fun condition hcondition => ?_
    refine (processAll_isShaped body).bind fun inner hinner => ?_
    exact EnsuresAll.singleton (.whileLoop line hcondition hinner)
  | .try body _ _ _ line => by
    rw [process]
    refine (processAll_isShaped body).bind fun inner hinner => ?_
    exact EnsuresAll.singleton (.tryBlock line hinner)
  | .expr value _ => EnsuresAll.toList value.call?_isShaped fun _ hmade => .call hmade
  | .return (some value) _ => by
    rw [process]
    refine value.references_isShaped.bind_pure fun references hreferences entity hentity => ?_
    obtain ⟨call, hcall, rfl⟩ := List.mem_map.mp hentity
    obtain ⟨reference, hreference, hmade⟩ := List.mem_filterMap.mp hcall
    cases reference with
    | call made =>
      cases hmade
      cases hreferences _ hreference with
      | call hshaped => exact .call hshaped
    | _ => cases hmade
  | .functionDef .. | .classDef .. | .assign .. | .augAssign .. | .annAssign .. | .return none _
  | .for .. | .with .. | .importModules .. | .importFrom .. | .other .. =>
    EnsuresAll.toList (binding?_isShaped _) fun _ hbound => .binding hbound

theorem processAll_isShaped :
    ∀ body : List Stmt, EnsuresAll Entity.IsShaped (processAll body)
  | [] => .nil
  | stmt :: rest => by
    rw [processAll]
    exact (process_isShaped stmt).append (processAll_isShaped rest)

end

end Stmt

variable (settings : Settings)

theorem walk_root_isShaped (body : List Stmt) :
    EnsuresAll Entity.IsShaped (walk settings true body) := by
  rw [walk_root_eq]
  exact Stmt.processAll_isShaped _

/-! ## Declarations -/

theorem Function.ofDefinition_isShaped {header : FunctionHeader} {body : List Stmt} {function : Function}
    (h : Function.ofDefinition header body = .ok function) :
    ∀ entity ∈ function.process, entity.IsShaped := by
  obtain ⟨process, hprocess, rfl⟩ := Function.ofDefinition_eq_ok.mp h
  exact Stmt.processAll_isShaped body process hprocess

theorem distinct_nodup {α : Type} [DecidableEq α] (xs : List α) : (distinct xs).Nodup := by
  induction xs with
  | nil => exact List.nodup_nil
  | cons x xs ih =>
    rw [distinct]
    refine List.nodup_cons.mpr ⟨fun hx => ?_, ih.filter _⟩
    simpa using (List.mem_filter.mp hx).2

variable {settings} {files : FileTree} {root path : Path} {body : List Stmt} {file : File}

/-- Whatever the module, its graph is shaped: each process at every depth, and the attributes of each
class. -/
theorem File.isShaped_ofModule (h : File.ofModule settings files root path body = .ok file) :
    file.IsShaped where
  processes process hprocess := by
    simp only [File.processes, List.mem_cons, List.mem_append, List.mem_map, List.mem_flatMap] at hprocess
    rcases hprocess with rfl | ⟨function, hf, rfl⟩ | ⟨method, ⟨declared, hd, hm⟩, rfl⟩
    · obtain ⟨_, -, process, hwalk, rfl⟩ := File.ofModule_eq_ok.mp h
      exact walk_root_isShaped settings body process hwalk
    · obtain ⟨header, inner, -, hfunction⟩ := exists_functionDef_of_mem_functions h hf
      exact Function.ofDefinition_isShaped hfunction
    · obtain ⟨header, members, -, hclass⟩ := exists_classDef_of_mem_classes h hd
      obtain ⟨inner, body, -, hmethod⟩ := exists_functionDef_of_mem_methods hclass hm
      exact Function.ofDefinition_isShaped hmethod
  attributes_nodup declared hd := by
    obtain ⟨header, members, -, hclass⟩ := exists_classDef_of_mem_classes h hd
    obtain ⟨methods, -, rfl⟩ := Class.ofDefinition_eq_ok.mp hclass
    exact distinct_nodup _

/-- `while c: d[k] = a.b if c else g()` -/
def sampleLoop : Stmt :=
  .while (.name "c" 1)
    [.assign [.subscript (.name "d" 2) (.name "k" 2) 2]
      (.ifExp (.name "c" 2) (.attribute (.name "a" 2) "b" 2) (.call (.name "g" 2) [] [] 2) 2) 2] [] 1

/-- A class `A` whose constructor assigns `self.x` twice. -/
def sampleConstructor : Stmt :=
  .classDef ⟨"A", [], [], [], 3⟩
    [.functionDef ⟨"__init__", ⟨[], ["self"], none, [], none⟩, [], false, 4⟩
      [.assign [.attribute (.name "self" 5) "x" 5] (.name "a" 5) 5,
        .assign [.attribute (.name "self" 6) "x" 6] (.name "b" 6) 6]]

theorem File.isShaped_ofModule_loop : ∃ file,
    File.ofModule .default .empty ⟨"."⟩ ⟨"m.py"⟩ [sampleLoop, sampleConstructor] = .ok file ∧
      file.IsShaped ∧ file.entityCount = 2 ∧ file.classes.map Class.attributes = [["x"]] := by
  refine ⟨_, rfl, ?_, rfl, by decide⟩
  exact @File.isShaped_ofModule .default .empty ⟨"."⟩ ⟨"m.py"⟩ [sampleLoop, sampleConstructor] _ rfl

end EntityGraph
