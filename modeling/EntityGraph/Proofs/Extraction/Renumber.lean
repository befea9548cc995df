import EntityGraph.Extraction.Module
import EntityGraph.Proofs.Graph.Renumber
import EntityGraph.Proofs.Program.Renumber

/-!
# Extraction with other line numbers

Extraction passes lines on and never looks at them: a module with other lines has the same graph with
other lines, or fails with the same error on another line (`File.ofModule_renumber`). It holds for each
step: references, bindings, processes, outputs and declarations. So a module that is moved down has its
graph moved down (`File.ofModule_movedDown`).
-/

namespace EntityGraph

def UnexpectedCallee.renumber (f : Nat → Nat) (callee : UnexpectedCallee) : UnexpectedCallee :=
  { callee with line := f callee.line }

/-- The result with `f` applied to the line of an error, and `g` to a value. -/
def renumbered {α β : Type} (f : Nat → Nat) (g : α → β) :
    Except UnexpectedCallee α → Except UnexpectedCallee β
  | .ok x => .ok (g x)
  | .error callee => .error (callee.renumber f)

section Results

variable {α α' β β' : Type} {f : Nat → Nat}

theorem renumbered_bind {g : α → α'} {h : β → β'} {x : Except UnexpectedCallee α}
    {k : α → Except UnexpectedCallee β} {k' : α' → Except UnexpectedCallee β'}
    (hk : ∀ a, k' (g a) = renumbered f h (k a)) :
    (renumbered f g x >>= k') = renumbered f h (x >>= k) := by
  cases x with
  | ok a => exact hk a
  | error callee => rfl

theorem renumbered_bind_pure {g : α → α'} {h : β → β'} {x : Except UnexpectedCallee α} {k : α → β}
    {k' : α' → β'} (hk : ∀ a, k' (g a) = h (k a)) :
    (renumbered f g x >>= fun a => pure (k' a)) = renumbered f h (x >>= fun a => pure (k a)) :=
  renumbered_bind fun a => congrArg pure (hk a)

theorem renumbered_append {g : α → β} (x y : Except UnexpectedCallee (List α)) :
    (do
      let first ← renumbered f (List.map g) x
      let further ← renumbered f (List.map g) y
      return first ++ further) =
      renumbered f (List.map g) (do
        let first ← x
        let further ← y
        return first ++ further) :=
  renumbered_bind fun _ => renumbered_bind_pure fun _ => List.map_append.symm

theorem renumbered_map {g : α → α'} {h : β → β'} {x : Except UnexpectedCallee α} {k : α → β}
    {k' : α' → β'} (hk : ∀ a, k' (g a) = h (k a)) :
    k' <$> renumbered f g x = renumbered f h (k <$> x) := by
  cases x with
  | ok a => exact congrArg Except.ok (hk a)
  | error callee => rfl

theorem renumbered_mapM {r : α → α'} {h : β → β'} {k : α → Except UnexpectedCallee β}
    {k' : α' → Except UnexpectedCallee β'} (hk : ∀ a, k' (r a) = renumbered f h (k a)) (xs : List α) :
    (xs.map r).mapM k' = renumbered f (List.map h) (xs.mapM k) := by
  induction xs with
  | nil => rfl
  | cons x xs ih =>
    rw [List.map_cons, List.mapM_cons, List.mapM_cons, hk, ih]
    exact renumbered_bind fun _ => renumbered_bind_pure fun _ => rfl

end Results

variable (f : Nat → Nat)

/-! ## References -/

theorem Expr.ownerNames_renumber : ∀ e : Expr, (e.renumber f).ownerNames = e.ownerNames
  | .attribute value attr _ => congrArg (· ++ [attr]) (ownerNames_renumber value)
  | .subscript value _ _ | .formattedValue value _ | .await value _ | .yieldFrom value _
  | .starred value _ | .namedExpr _ value _ | .yield (some value) _ => ownerNames_renumber value
  | .name .. | .call .. | .binOp .. | .unaryOp .. | .boolOp .. | .compare .. | .ifExp .. | .slice ..
  | .joinedStr .. | .constant .. | .tuple .. | .list .. | .set .. | .dict .. | .comprehension ..
  | .lambda .. | .yield none _ | .other .. => rfl

theorem Expr.ownerToken_renumber (e : Expr) : (e.renumber f).ownerToken = e.ownerToken := by
  rw [ownerToken, ownerToken, ownerNames_renumber]

theorem Call.of?_renumber (func : Expr) (takenVar : List Reference) :
    Call.of? (func.renumber f) (takenVar.map (Reference.renumber f)) =
      renumbered f (Option.map (Call.renumber f)) (Call.of? func takenVar) := by
  rw [← Reference.renumberAll_eq_map]
  cases func with
  | «attribute» value attr line =>
    rw [Expr.renumber, Call.of?, Expr.ownerToken_renumber]
    rfl
  | other kind line =>
    by_cases h : kind = "ERROR"
    · simp [Call.of?, Expr.renumber, renumbered, h]
    · simp [Call.of?, Expr.renumber, renumbered, h, UnexpectedCallee.renumber]
  | _ => rfl

theorem Receiver.of_renumber (value : Expr) (references : List Reference) :
    Receiver.of (value.renumber f) (references.map (Reference.renumber f)) =
      (Receiver.of value references).renumber f := by
  match references with
  | [] => cases value <;> rfl
  | [_] => rfl
  | first :: second :: rest =>
    rw [List.map_cons, List.map_cons]
    simp only [Receiver.of, Receiver.renumber, Reference.renumberAll_eq_map, List.map_cons]

namespace Expr

mutual

/-- References keep their order and their kind. -/
theorem references_renumber : ∀ e : Expr, (e.renumber f).references =
    renumbered f (List.map (Reference.renumber f)) e.references
  | .binOp left _ right _ => by
    rw [renumber, references, references, references_renumber left, references_renumber right]
    exact renumbered_append _ _
  | .unaryOp _ operand _ => references_renumber operand
  | .call func args keywords _ => by
    rw [renumber, references, references, referencesOfAll_renumber args,
      referencesOfKeywords_renumber keywords]
    refine renumbered_bind fun a => renumbered_bind fun b => ?_
    rw [← List.map_append, Call.of?_renumber]
    refine renumbered_bind_pure fun made => ?_
    cases made <;> rfl
  | .attribute value attr _ => by
    rw [renumber, references, references, references_renumber value]
    refine renumbered_bind_pure fun owner => ?_
    rw [Receiver.of_renumber]
    rfl
  | .subscript value index _ => by
    rw [renumber, references, references, references_renumber value, isReference_renumber]
    refine renumbered_bind fun base => ?_
    split
    · rw [references_renumber index]
      exact renumbered_bind_pure fun _ => List.map_append.symm
    · rfl
  | .joinedStr values _ => referencesOfSegments_renumber values
  | .ifExp test body orelse _ => by
    rw [renumber, references, references, references_renumber body, references_renumber orelse,
      references_renumber test]
    refine renumbered_bind fun process => renumbered_bind fun otherwise =>
      renumbered_bind_pure fun condition => ?_
    simp only [List.map_cons, List.map_nil, Reference.renumber, Reference.renumberIn,
      Reference.renumberAll_eq_map]
  | .name .. | .boolOp .. | .compare .. | .slice .. | .formattedValue .. | .constant .. | .tuple ..
  | .list .. | .set .. | .dict .. | .comprehension .. | .lambda .. | .await .. | .yield ..
  | .yieldFrom .. | .starred .. | .namedExpr .. | .other .. => rfl

theorem referencesOfAll_renumber : ∀ exprs : List Expr, referencesOfAll (renumberAll f exprs) =
    renumbered f (List.map (Reference.renumber f)) (referencesOfAll exprs)
  | [] => rfl
  | expr :: rest => by
    rw [renumberAll, referencesOfAll, referencesOfAll, references_renumber expr,
      referencesOfAll_renumber rest]
    exact renumbered_append _ _

theorem referencesOfKeywords_renumber : ∀ keywords : List Keyword,
    referencesOfKeywords (renumberKeywords f keywords) =
      renumbered f (List.map (Reference.renumber f)) (referencesOfKeywords keywords)
  | [] => rfl
  | ⟨_, value⟩ :: rest => by
    rw [renumberKeywords, referencesOfKeywords, referencesOfKeywords, references_renumber value,
      referencesOfKeywords_renumber rest]
    exact renumbered_append _ _

theorem referencesOfSegments_renumber : ∀ values : List Expr,
    referencesOfSegments (renumberAll f values) =
      renumbered f (List.map (Reference.renumber f)) (referencesOfSegments values)
  | [] => rfl
  | value :: rest => by
    cases value with
    | formattedValue value _ =>
      rw [renumberAll, renumber, referencesOfSegments, referencesOfSegments,
        references_renumber value, referencesOfSegments_renumber rest]
      exact renumbered_append _ _
    | _ => exact referencesOfSegments_renumber rest

end

theorem call?_renumber (e : Expr) :
    (e.renumber f).call? = renumbered f (Option.map (Call.renumber f)) e.call? := by
  cases e with
  | call func args keywords line =>
    rw [renumber, call?, call?, referencesOfAll_renumber, referencesOfKeywords_renumber]
    refine renumbered_bind fun _ => renumbered_bind fun _ => ?_
    rw [← List.map_append, Call.of?_renumber]
  | _ => rfl

end Expr

/-! ## Processes -/

namespace Expr

mutual

theorem targets_renumber : ∀ e : Expr, (e.renumber f).targets =
    renumbered f (List.map (Target.renumber f)) e.targets
  | .tuple elts _ | .list elts _ => targetsOfAll_renumber elts
  | .starred value _ => targets_renumber value
  | .attribute value attr _ => by
    rw [renumber, targets, targets, ownerToken_renumber]
    rfl
  | .subscript value index _ => by
    rw [renumber, targets, targets, references_renumber, isReference_renumber]
    refine renumbered_bind fun base => ?_
    split
    · rw [references_renumber]
      exact renumbered_bind_pure fun _ => rfl
    · rfl
  | .name .. | .call .. | .binOp .. | .unaryOp .. | .boolOp .. | .compare .. | .ifExp .. | .slice ..
  | .joinedStr .. | .formattedValue .. | .constant .. | .set .. | .dict .. | .comprehension ..
  | .lambda .. | .await .. | .yield .. | .yieldFrom .. | .namedExpr .. | .other .. => rfl

theorem targetsOfAll_renumber : ∀ exprs : List Expr, targetsOfAll (renumberAll f exprs) =
    renumbered f (List.map (Target.renumber f)) (targetsOfAll exprs)
  | [] => rfl
  | expr :: rest => by
    rw [renumberAll, targetsOfAll, targetsOfAll, targets_renumber expr, targetsOfAll_renumber rest]
    exact renumbered_append _ _

end

end Expr

theorem Variable.of?_renumber (targets : List Expr) (value : Expr) (line : Nat) :
    Variable.of? (Expr.renumberAll f targets) (value.renumber f) (f line) =
      renumbered f (Option.map (Variable.renumber f)) (Variable.of? targets value line) := by
  rw [Variable.of?, Variable.of?, Expr.references_renumber, Expr.targetsOfAll_renumber]
  refine renumbered_bind fun pointsTo => renumbered_bind_pure fun bound => ?_
  cases bound <;> rfl

namespace Stmt

theorem binding?_renumber (stmt : Stmt) :
    (stmt.renumber f).binding? = renumbered f (Option.map (Variable.renumber f)) stmt.binding? := by
  cases stmt with
  | assign targets value line => exact Variable.of?_renumber f targets value line
  | augAssign target _ value line => exact Variable.of?_renumber f [target] value line
  | annAssign target _ value line =>
    cases value with
    | none => rfl
    | some value => exact Variable.of?_renumber f [target] value line
  | _ => rfl

/-- What a statement that is none of the others does: it binds, or nothing. -/
theorem binding_renumber (stmt : Stmt) :
    (do
      let bound ← (stmt.renumber f).binding?
      return (bound.map Entity.binding).toList) =
      renumbered f (List.map (Entity.renumber f)) (do
        let bound ← stmt.binding?
        return (bound.map Entity.binding).toList) := by
  rw [binding?_renumber]
  refine renumbered_bind_pure fun bound => ?_
  cases bound <;> rfl

theorem calls_renumber (references : List Reference) :
    (references.map (Reference.renumber f)).filterMap Reference.call? =
      (references.filterMap Reference.call?).map (Call.renumber f) := by
  rw [List.filterMap_map, List.map_filterMap]
  congr 1
  funext reference
  cases reference <;> rfl

mutual

theorem process_renumber : ∀ stmt : Stmt, (stmt.renumber f).process =
    renumbered f (List.map (Entity.renumber f)) stmt.process
  | .branch test body orelse line => by
    rw [renumber, process, process, processAll_renumber orelse, Expr.references_renumber,
      processAll_renumber body]
    refine renumbered_bind fun otherwise => renumbered_bind fun condition =>
      renumbered_bind_pure fun inner => ?_
    cases orelse <;>
      simp [renumberAll, Entity.renumber, Entity.renumberIn, Entity.renumberAll_eq_map]
  | .while test body _ _ => by
    rw [renumber, process, process, Expr.references_renumber, processAll_renumber body]
    refine renumbered_bind fun condition => renumbered_bind_pure fun inner => ?_
    simp only [List.map_cons, List.map_nil, Entity.renumber, Entity.renumberAll_eq_map, Option.map_some,
      Entity.renumberIn]
  | .try body _ _ _ _ => by
    rw [renumber, process, process, processAll_renumber body]
    refine renumbered_bind_pure fun inner => ?_
    simp only [List.map_cons, List.map_nil, Entity.renumber, Entity.renumberAll_eq_map, Option.map_none,
      Entity.renumberIn]
  | .expr value _ => by
    rw [renumber, process, process, Expr.call?_renumber]
    refine renumbered_bind_pure fun made => ?_
    cases made <;> rfl
  | .return (some value) _ => by
    rw [renumber, Expr.renumberPart, process, process, Expr.references_renumber]
    refine renumbered_bind_pure fun references => ?_
    rw [calls_renumber, List.map_map, List.map_map]
    rfl
  | .assign targets value line => binding_renumber f (.assign targets value line)
  | .augAssign target op value line => binding_renumber f (.augAssign target op value line)
  | .annAssign target annotation value line =>
    binding_renumber f (.annAssign target annotation value line)
  | .functionDef .. | .classDef .. | .return none _ | .for .. | .with .. | .importModules ..
  | .importFrom .. | .other .. => rfl

theorem processAll_renumber : ∀ body : List Stmt, processAll (renumberAll f body) =
    renumbered f (List.map (Entity.renumber f)) (processAll body)
  | [] => rfl
  | stmt :: rest => by
    rw [renumberAll, processAll, processAll, process_renumber stmt, processAll_renumber rest]
    exact renumbered_append _ _

end

variable (settings : Settings)

theorem guardBody?_renumber (stmt : Stmt) :
    (stmt.renumber f).guardBody? settings = (stmt.guardBody? settings).map (renumberAll f) := by
  -- Only one form of statement is a guard, so the parts are opened until the form is decided.
  rcases stmt with _ | _ | _ | _ | _ | _ | _ | ⟨test, body, orelse, line⟩ | _ | _ | _ | _ | _ | _ | _
  case branch =>
    cases test with
    | compare left ops comparators _ =>
      cases left with
      | name id _ =>
        rcases ops with _ | ⟨op, _ | ⟨_, _⟩⟩
        case cons.nil =>
          rcases comparators with _ | ⟨comparator, _ | ⟨_, _⟩⟩
          case cons.nil =>
            cases comparator with
            | constant value _ =>
              cases value with
              | str literal =>
                cases orelse with
                | nil =>
                  simp only [renumber, Expr.renumber, Expr.renumberAll, renumberAll, guardBody?]
                  split <;> rfl
                | cons => rfl
              | _ => rfl
            | _ => rfl
          case cons.cons => simp [renumber, Expr.renumber, Expr.renumberAll, guardBody?]
          case nil => rfl
        all_goals rfl
      | _ => rfl
    | _ => rfl
  all_goals rfl

theorem rootProcess_renumber (stmt : Stmt) : (stmt.renumber f).rootProcess settings =
    renumbered f (List.map (Entity.renumber f)) (stmt.rootProcess settings) := by
  rw [rootProcess, rootProcess, guardBody?_renumber]
  cases stmt.guardBody? settings with
  | none => exact process_renumber f stmt
  | some body => exact processAll_renumber f body

end Stmt

theorem walk_renumber (settings : Settings) (isRoot : Bool) (body : List Stmt) :
    walk settings isRoot (Stmt.renumberAll f body) =
      renumbered f (List.map (Entity.renumber f)) (walk settings isRoot body) := by
  induction body with
  | nil => rfl
  | cons stmt rest ih =>
    rw [Stmt.renumberAll, walk, walk, ih]
    cases isRoot with
    | true =>
      rw [if_pos rfl, if_pos rfl, Stmt.rootProcess_renumber]
      exact renumbered_append _ _
    | false =>
      rw [if_neg Bool.false_ne_true, if_neg Bool.false_ne_true, Stmt.process_renumber]
      exact renumbered_append _ _

/-! ## Declarations -/

namespace Expr

mutual

/-- Outputs have no lines. -/
theorem outputs_renumber : ∀ e : Expr, (e.renumber f).outputs = e.outputs
  | .name .. | .constant .. => rfl
  | .tuple elts _ | .boolOp _ elts _ => groups_renumber elts
  | .subscript first second _ | .binOp first _ second _ => by
    simp only [renumber, outputs, outputs_renumber first, outputs_renumber second]
  | .dict keys values _ => by
    rw [renumber, outputs, outputs, outputsOfKeys_renumber keys, outputsOfAll_renumber values]
  | .attribute .. | .call .. | .unaryOp .. | .compare .. | .ifExp .. | .slice .. | .joinedStr ..
  | .formattedValue .. | .list .. | .set .. | .comprehension .. | .lambda .. | .await .. | .yield ..
  | .yieldFrom .. | .starred .. | .namedExpr .. | .other .. =>
    (congrArg (fun dumped => [Output.dumped dumped]) (dump_renumber f _).symm).symm

theorem groups_renumber : ∀ exprs : List Expr, groups (renumberAll f exprs) = groups exprs
  | [] => rfl
  | expr :: rest => by
    rw [renumberAll, groups, groups, outputs_renumber expr, groups_renumber rest]

theorem outputsOfAll_renumber : ∀ exprs : List Expr,
    outputsOfAll (renumberAll f exprs) = outputsOfAll exprs
  | [] => rfl
  | expr :: rest => by
    rw [renumberAll, outputsOfAll, outputsOfAll, outputs_renumber expr, outputsOfAll_renumber rest]

theorem outputsOfKeys_renumber : ∀ keys : List (Option Expr),
    outputsOfKeys (renumberParts f keys) = outputsOfKeys keys
  | [] => rfl
  | some key :: rest => by
    rw [renumberParts, renumberPart, outputsOfKeys, outputsOfKeys, outputs_renumber key,
      outputsOfKeys_renumber rest]
  | none :: rest => by
    rw [renumberParts, renumberPart, outputsOfKeys, outputsOfKeys, outputsOfKeys_renumber rest]

end

end Expr

theorem functionOutputs_renumber (body : List Stmt) :
    functionOutputs (Stmt.renumberAll f body) = functionOutputs body := by
  have hreturned : ∀ stmt : Stmt,
      (stmt.renumber f).returned? = stmt.returned?.map (Expr.renumber f) := by
    intro stmt
    cases stmt with
    | «return» value line => exact Expr.renumberPart_eq_map f value
    | _ => rfl
  simp only [functionOutputs, Stmt.renumberAll_eq_map, List.filterMap_map, Function.comp_def, hreturned,
    ← List.map_filterMap, List.flatMap_map, Expr.outputs_renumber]

theorem docstring?_renumber (body : List Stmt) :
    docstring? (Stmt.renumberAll f body) = docstring? body := by
  rcases body with _ | ⟨stmt, rest⟩
  · rfl
  · cases stmt with
    | expr value _ =>
      cases value with
      | constant value _ => cases value <;> rfl
      | _ => rfl
    | _ => rfl

theorem Function.ofDefinition_renumber (header : FunctionHeader) (body : List Stmt) :
    Function.ofDefinition (header.renumber f) (Stmt.renumberAll f body) =
      renumbered f (Function.renumber f) (Function.ofDefinition header body) := by
  rw [Function.ofDefinition, Function.ofDefinition, Stmt.processAll_renumber, docstring?_renumber,
    functionOutputs_renumber]
  exact renumbered_bind_pure fun _ => rfl

section Classes

variable (settings : Settings)

theorem assignedBy_renumber (selfName : String) (stmt : Stmt) :
    assignedBy selfName (stmt.renumber f) = assignedBy selfName stmt := by
  have hattribute : ∀ e : Expr, attributeOf? selfName (e.renumber f) = attributeOf? selfName e := by
    intro e
    cases e with
    | «attribute» value _ _ => cases value <;> rfl
    | _ => rfl
  cases stmt with
  | assign targets _ _ =>
    simp only [Stmt.renumber, assignedBy, Expr.renumberAll_eq_map, List.filterMap_map,
      Function.comp_def, hattribute]
  | _ => rfl

namespace Stmt

mutual

theorem preorder_renumber : ∀ stmt : Stmt,
    (stmt.renumber f).preorder = stmt.preorder.map (renumber f)
  | .functionDef _ body | .classDef _ body | .with _ body _ _ => by
    simp only [renumber, preorder, preorderAll_renumber body, List.map_cons]
  | .branch _ body orelse _ | .while _ body orelse _ | .for _ _ body orelse _ _ => by
    simp only [renumber, preorder, preorderAll_renumber body, preorderAll_renumber orelse,
      List.map_cons, List.map_append]
  | .try body handlers orelse finalbody _ => by
    simp only [renumber, preorder, preorderAll_renumber body, preorderHandlers_renumber handlers,
      preorderAll_renumber orelse, preorderAll_renumber finalbody, List.map_cons, List.map_append]
  | .assign .. | .augAssign .. | .annAssign .. | .expr .. | .return .. | .importModules ..
  | .importFrom .. | .other .. => rfl

theorem preorderAll_renumber : ∀ body : List Stmt,
    preorderAll (renumberAll f body) = (preorderAll body).map (renumber f)
  | [] => rfl
  | stmt :: rest => by
    rw [renumberAll, preorderAll, preorderAll, preorder_renumber stmt, preorderAll_renumber rest,
      List.map_append]

theorem preorderHandlers_renumber : ∀ handlers : List Handler,
    preorderHandlers (renumberHandlers f handlers) = (preorderHandlers handlers).map (renumber f)
  | [] => rfl
  | ⟨_, _, body, _⟩ :: rest => by
    rw [renumberHandlers, preorderHandlers, preorderHandlers, preorderAll_renumber body,
      preorderHandlers_renumber rest, List.map_append]

end

end Stmt

theorem attributesOf_renumber (body : List Stmt) :
    attributesOf settings (Stmt.renumberAll f body) = attributesOf settings body := by
  have hconstructor : ∀ stmt : Stmt, constructorBody? settings (stmt.renumber f) =
      (constructorBody? settings stmt).map (Stmt.renumberAll f) := by
    intro stmt
    cases stmt with
    | functionDef header body =>
      simp only [Stmt.renumber, constructorBody?, FunctionHeader.renumber]
      split <;> rfl
    | _ => rfl
  simp only [attributesOf, Stmt.renumberAll_eq_map f body, List.filterMap_map, Function.comp_def,
    hconstructor, ← List.map_filterMap, List.flatMap_map, Stmt.preorderAll_renumber,
    assignedBy_renumber]

theorem methodOf?_renumber (stmt : Stmt) : methodOf? settings (stmt.renumber f) =
    renumbered f (Option.map (Function.renumber f)) (methodOf? settings stmt) := by
  cases stmt with
  | functionDef header body =>
    rw [Stmt.renumber, methodOf?, methodOf?, show (header.renumber f).name = header.name from rfl]
    split
    · rfl
    · rw [Function.ofDefinition_renumber]
      exact renumbered_map fun _ => rfl
  | _ => rfl

theorem gapsOf_renumber (header : ClassHeader) (body : List Stmt) :
    gapsOf (header.renumber f) (Stmt.renumberAll f body) =
      (gapsOf header body).map (CoverageGap.renumber f) := by
  have hgap : ∀ stmt : Stmt, gapOf? header.name (stmt.renumber f) =
      (gapOf? header.name stmt).map (CoverageGap.renumber f) := by
    intro stmt
    cases stmt <;> rfl
  simp only [gapsOf, ClassHeader.renumber, Stmt.renumberAll_eq_map, List.filterMap_map,
    Function.comp_def, hgap, ← List.map_filterMap]

theorem baseName?_renumber (e : Expr) : baseName? (e.renumber f) = baseName? e := by
  cases e <;> rfl

theorem Class.ofDefinition_renumber (header : ClassHeader) (body : List Stmt) :
    Class.ofDefinition settings (header.renumber f) (Stmt.renumberAll f body) =
      renumbered f (Class.renumber f) (Class.ofDefinition settings header body) := by
  rw [Class.ofDefinition, Class.ofDefinition, attributesOf_renumber, Stmt.renumberAll_eq_map,
    renumbered_mapM (methodOf?_renumber f settings)]
  refine renumbered_bind_pure fun methods => ?_
  simp only [Class.renumber, ClassHeader.renumber, Expr.renumberAll_eq_map, List.filterMap_map,
    Function.comp_def, baseName?_renumber, List.map_filterMap, id]

end Classes

/-! ## Modules -/

def Declared.renumber (f : Nat → Nat) : Declared → Declared
  | .function declared => .function (declared.renumber f)
  | .classWithGaps declared gaps =>
    .classWithGaps (declared.renumber f) (gaps.map (CoverageGap.renumber f))
  | .nothing => .nothing

theorem Declared.ofStmt_renumber (settings : Settings) (stmt : Stmt) :
    Declared.ofStmt settings (stmt.renumber f) =
      renumbered f (Declared.renumber f) (Declared.ofStmt settings stmt) := by
  cases stmt with
  | functionDef header body =>
    rw [Stmt.renumber, Declared.ofStmt, Declared.ofStmt, Function.ofDefinition_renumber]
    exact renumbered_map fun _ => rfl
  | classDef header body =>
    rw [Stmt.renumber, Declared.ofStmt, Declared.ofStmt, Class.ofDefinition_renumber,
      gapsOf_renumber]
    exact renumbered_map fun _ => rfl
  | _ => rfl

theorem constantsOf_renumber (stmt : Stmt) : constantsOf (stmt.renumber f) = constantsOf stmt := by
  cases stmt with
  | assign targets _ _ =>
    simp only [Stmt.renumber, constantsOf, Expr.renumberAll_eq_map, List.filterMap_map,
      Function.comp_def, baseName?_renumber]
  | _ => rfl

theorem importsOf_renumber (files : FileTree) (root file : Path) (stmt : Stmt) :
    Import.importsOf files root file (stmt.renumber f) = Import.importsOf files root file stmt := by
  cases stmt <;> rfl

/-- A module with other lines has the same graph with other lines, or the same error on another one. -/
theorem File.ofModule_renumber (settings : Settings) (files : FileTree) (root path : Path)
    (body : List Stmt) :
    File.ofModule settings files root path (Stmt.renumberAll f body) =
      renumbered f (File.renumber f) (File.ofModule settings files root path body) := by
  rw [File.ofModule, File.ofModule, walk_renumber, Stmt.renumberAll_eq_map,
    renumbered_mapM (Declared.ofStmt_renumber f settings)]
  refine renumbered_bind fun declared => renumbered_bind_pure fun process => ?_
  have hfunction : ∀ part : Declared,
      (part.renumber f).function? = part.function?.map (Function.renumber f) := by
    intro part
    cases part <;> rfl
  have hclass : ∀ part : Declared, (part.renumber f).class? = part.class?.map (Class.renumber f) := by
    intro part
    cases part <;> rfl
  have hgaps : ∀ part : Declared, (part.renumber f).gaps = part.gaps.map (CoverageGap.renumber f) := by
    intro part
    cases part <;> rfl
  simp only [File.renumber, List.filterMap_map, List.flatMap_map, Function.comp_def, hfunction, hclass,
    hgaps, constantsOf_renumber, importsOf_renumber, List.map_filterMap, List.map_flatMap]

/-- A module that is moved down by `k` lines fails exactly if it failed before, on a callee of the same
kind `k` lines further down, and otherwise has the same graph with `k` added to every line in it. -/
theorem File.ofModule_movedDown (settings : Settings) (files : FileTree) (root path : Path)
    (body : List Stmt) (k : Nat) :
    (∀ fault, File.ofModule settings files root path (Stmt.renumberAll (· + k) body) = .error fault ↔
      ∃ before, File.ofModule settings files root path body = .error before ∧
        fault = ⟨before.kind, before.line + k⟩) ∧
    ∀ file, File.ofModule settings files root path (Stmt.renumberAll (· + k) body) = .ok file ↔
      ∃ before, File.ofModule settings files root path body = .ok before ∧
        file = before.renumber (· + k) := by
  rw [File.ofModule_renumber]
  cases File.ofModule settings files root path body with
  | error before => simp [renumbered, UnexpectedCallee.renumber, eq_comm]
  | ok before => simp [renumbered, eq_comm]

end EntityGraph
