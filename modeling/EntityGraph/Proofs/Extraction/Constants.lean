import EntityGraph.Proofs.Extraction.Assignments
import Mathlib.Data.List.Flatten

/-!
# Constants and bindings

The constants of a file are the names that plain assignments at the top level assign to directly. The
process of the file binds them too, in the same order, though not them alone: the names in tuples, and
those that an entry guard assigns, stand between them.

* `boundNames`: the names that entities bind;
* `walk_root_eq_ok`: a walk gives what its statements give, one after the other;
* `constantsOf_sublist`: a statement binds what it adds to the constants;
* `File.constants_sublist`: the constants among the names that the process binds.
-/

namespace EntityGraph

/-- The names that the bindings among the entities bind, those inside conditionals left out. -/
def boundNames (entities : List Entity) : List String :=
  (entities.filterMap Entity.binding?).flatMap Variable.targetNames

theorem boundNames_append (first second : List Entity) :
    boundNames (first ++ second) = boundNames first ++ boundNames second := by
  simp only [boundNames, List.filterMap_append, List.flatMap_append]

theorem boundNames_binding (found : Option Variable) :
    boundNames (found.map Entity.binding).toList = found.toList.flatMap Variable.targetNames := by
  cases found <;> rfl

/-! ## Names of targets -/

/-- The name that a leaf is, if it is one. -/
def TargetLeaf.name? : TargetLeaf → Option String
  | .name id => some id
  | _ => none

theorem TargetLeaf.name?_eq {leaf : TargetLeaf} {target : Target} (h : leaf.target = .ok target) :
    leaf.name? = target.name? := by
  cases leaf with
  | name | «attribute» =>
    cases h
    rfl
  | element value index =>
    obtain ⟨base, -, hrest⟩ := bind_eq_ok.mp h
    split at hrest
    · obtain ⟨further, -, hreturn⟩ := bind_eq_ok.mp hrest
      cases hreturn
      rfl
    · cases hrest
      rfl

/-- A target that is a name is the only leaf of itself. -/
theorem baseName?_sublist (target : Expr) :
    (baseName? target).toList.Sublist (target.boundLeaves.filterMap TargetLeaf.name?) := by
  cases target with
  | name => exact .refl _
  | _ => exact List.nil_sublist _

theorem filterMap_baseName?_sublist (targets : List Expr) :
    (targets.filterMap baseName?).Sublist
      ((targets.flatMap Expr.boundLeaves).filterMap TargetLeaf.name?) := by
  rw [List.filterMap_eq_flatMap_toList, List.filterMap_flatMap]
  exact List.Sublist.flatMap_right targets fun target _ => baseName?_sublist target

/-- An assignment binds all names among the leaves of its targets. -/
theorem Stmt.targetNames_of_binding? {targets : List Expr} {value : Expr} {line : Nat}
    {found : Option Variable} (h : (Stmt.assign targets value line).binding? = .ok found) :
    found.toList.flatMap Variable.targetNames =
      (targets.flatMap Expr.boundLeaves).filterMap TargetLeaf.name? := by
  obtain ⟨pointsTo, bound, -, hbound, rfl⟩ := binding?_assign_eq_ok.mp h
  split
  · next hempty =>
    rw [List.isEmpty_iff.mp hempty]
    rfl
  · rw [filterMap_eq_of_forall₂ hbound fun leaf target => TargetLeaf.name?_eq]
    exact List.append_nil _

/-! ## Statements and walks -/

variable {settings : Settings}

theorem Stmt.rootProcess_assign_eq_ok {targets : List Expr} {value : Expr} {line : Nat}
    {part : List Entity} :
    (Stmt.assign targets value line).rootProcess settings = .ok part ↔
      ∃ found, (Stmt.assign targets value line).binding? = .ok found ∧
        (found.map Entity.binding).toList = part := by
  have hroot : (Stmt.assign targets value line).rootProcess settings = do
      let bound ← (Stmt.assign targets value line).binding?
      return (bound.map Entity.binding).toList := rfl
  rw [hroot]
  simp only [bind_eq_ok, pure_eq_ok]

theorem constantsOf_sublist {stmt : Stmt} {part : List Entity}
    (h : stmt.rootProcess settings = .ok part) : (constantsOf stmt).Sublist (boundNames part) := by
  cases stmt with
  | assign targets value line =>
    obtain ⟨found, hfound, rfl⟩ := Stmt.rootProcess_assign_eq_ok.mp h
    rw [boundNames_binding, Stmt.targetNames_of_binding? hfound]
    exact filterMap_baseName?_sublist targets
  | _ => exact List.nil_sublist _

theorem walk_root_eq_ok {body : List Stmt} {process : List Entity} :
    walk settings true body = .ok process ↔
      ∃ parts, List.Forall₂ (fun stmt part => stmt.rootProcess settings = .ok part) body parts ∧
        parts.flatten = process := by
  induction body generalizing process with
  | nil => simp [walk, pure_eq_ok]
  | cons stmt rest ih =>
    simp only [walk, if_pos, bind_eq_ok, pure_eq_ok, ih, List.forall₂_cons_left_iff]
    constructor
    · rintro ⟨first, hfirst, further, ⟨parts, hparts, rfl⟩, rfl⟩
      exact ⟨first :: parts, ⟨first, parts, hfirst, hparts, rfl⟩, rfl⟩
    · rintro ⟨_, ⟨first, parts, hfirst, hparts, rfl⟩, rfl⟩
      exact ⟨first, hfirst, _, ⟨parts, hparts, rfl⟩, rfl⟩

theorem flatMap_constantsOf_sublist {body : List Stmt} {parts : List (List Entity)}
    (h : List.Forall₂ (fun stmt part => stmt.rootProcess settings = .ok part) body parts) :
    (body.flatMap constantsOf).Sublist (boundNames parts.flatten) := by
  induction h with
  | nil => exact .slnil
  | cons hfirst _ ih =>
    rw [List.flatMap_cons, List.flatten_cons, boundNames_append]
    exact (constantsOf_sublist hfirst).append ih

/-- A name that an assignment at the top level assigns to directly is bound by the entity of the
assignment. -/
theorem exists_binding_of_name {body : List Stmt} {parts : List (List Entity)}
    (h : List.Forall₂ (fun stmt part => stmt.rootProcess settings = .ok part) body parts)
    {targets : List Expr} {value : Expr} {line : Nat} (hstmt : .assign targets value line ∈ body)
    {id : String} {idLine : Nat} (htarget : .name id idLine ∈ targets) :
    ∃ bound, .binding bound ∈ parts.flatten ∧ value.references = .ok bound.pointsTo ∧
      bound.line = line ∧ id ∈ bound.targetNames := by
  obtain ⟨part, hpart, hroot⟩ := exists_of_mem_forall₂ h.flip hstmt
  obtain ⟨found, hfound, rfl⟩ := Stmt.rootProcess_assign_eq_ok.mp hroot
  have hid : id ∈ found.toList.flatMap Variable.targetNames := by
    rw [Stmt.targetNames_of_binding? hfound]
    exact (filterMap_baseName?_sublist targets).subset (List.mem_filterMap.mpr ⟨_, htarget, rfl⟩)
  obtain ⟨bound, hbound, hname⟩ := List.mem_flatMap.mp hid
  obtain rfl := Option.mem_toList.mp hbound
  obtain ⟨hreferences, -, -, hline⟩ := Variable.of?_eq_some hfound
  exact ⟨bound, List.mem_flatten.mpr ⟨_, hpart, List.mem_singleton_self _⟩, hreferences, hline, hname⟩

/-- The constants of a file are the names that the plain assignments at the top level assign to directly,
from left to right. They come in the same order among the names that the process binds, wherever entry
guards are opened, and each of them is bound by the entity of its assignment. -/
theorem File.constants_sublist {files : FileTree} {root path : Path} {body : List Stmt} {file : File}
    (h : File.ofModule settings files root path body = .ok file) :
    file.constants = (body.flatMap Stmt.plainTargets).filterMap baseName? ∧
      file.constants.Sublist (boundNames file.process) ∧
      ∀ targets value line id idLine, .assign targets value line ∈ body → .name id idLine ∈ targets →
        ∃ bound, .binding bound ∈ file.process ∧ value.references = .ok bound.pointsTo ∧
          bound.line = line ∧ id ∈ bound.targetNames := by
  obtain ⟨declared, -, process, hprocess, rfl⟩ := File.ofModule_eq_ok.mp h
  obtain ⟨parts, hparts, rfl⟩ := walk_root_eq_ok.mp hprocess
  refine ⟨?_, flatMap_constantsOf_sublist hparts, fun targets value line id idLine hstmt htarget =>
    exists_binding_of_name hparts hstmt htarget⟩
  rw [List.filterMap_flatMap]
  refine List.flatMap_congr fun stmt _ => ?_
  cases stmt <;> rfl

/-- The module `A = (b, C) = f()`, with `D = 1` in an entry guard after it, and then `E = x.y = A`. -/
def sampleConstants : List Stmt :=
  [.assign [.name "A" 1, .tuple [.name "b" 1, .name "C" 1] 1] (.call (.name "f" 1) [] [] 1) 1,
    .branch (.compare (.name "__name__" 2) ["=="] [.constant (.str "main") 2] 2)
      [.assign [.name "D" 3] (.constant (.number "1") 3) 3] [] 2,
    .assign [.name "E" 4, .attribute (.name "x" 4) "y" 4] (.name "A" 4) 4]

theorem File.constants_sublist_guarded : ∃ file,
    File.ofModule .default .empty ⟨"."⟩ ⟨"m.py"⟩ sampleConstants = .ok file ∧
      file.constants = ["A", "E"] ∧ boundNames file.process = ["A", "b", "C", "D", "E"] ∧
      file.constants.Sublist (boundNames file.process) := by
  refine ⟨_, rfl, rfl, rfl, ?_⟩
  exact (@File.constants_sublist .default .empty ⟨"."⟩ ⟨"m.py"⟩ sampleConstants _ rfl).2.1

end EntityGraph
