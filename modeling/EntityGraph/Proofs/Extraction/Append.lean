import EntityGraph.Proofs.Extraction.EntryGuard
import EntityGraph.Proofs.Extraction.Success

/-!
# Modules one after the other

Extraction carries nothing from one statement to the next: the graph of two modules, one after the
other, has the parts of the first graph followed by those of the second (`File.ofModule_append`). There
is none exactly if one of the modules has none, and the error is then that of one of them, though not
always of the first: the declarations of both come before the process of either
(`error?_ofModule_eq_or`).
-/

namespace EntityGraph

section Errors

variable {α β : Type} {ε : Type}

theorem error?_append (first second : Except ε (List α)) :
    error? (do let earlier ← first; let later ← second; return earlier ++ later) =
      (error? first).or (error? second) :=
  error?_bind fun _ => error?_bind_pure _ _

/-- The first of four values, taken by pairs, is the first of two of them: the first and the third, or
the second and the fourth. -/
theorem or_or_eq (a b c d : Option α) : (a.or b).or (c.or d) = a.or c ∨ (a.or b).or (c.or d) = b.or d := by
  cases a with
  | some _ => exact .inl rfl
  | none =>
    cases b with
    | some _ => exact .inr rfl
    | none =>
      cases c with
      | some _ => exact .inl rfl
      | none => exact .inr rfl

end Errors

variable {settings : Settings} {files : FileTree} {root path : Path}

theorem walk_root_append (first second : List Stmt) :
    walk settings true (first ++ second) = do
      let earlier ← walk settings true first
      let later ← walk settings true second
      return earlier ++ later := by
  rw [walk_root_eq, walk_root_eq, walk_root_eq, List.flatMap_append, Stmt.processAll_append]

/-- The errors of declarations come before those of the process. -/
theorem error?_ofModule_eq_or (body : List Stmt) :
    error? (File.ofModule settings files root path body) =
      (error? (body.mapM (Declared.ofStmt settings))).or (error? (walk settings true body)) :=
  error?_bind fun _ => error?_bind_pure _ _

/-- The graph of two modules, one after the other, consists of the parts of both graphs in their order,
and there is one exactly if there are both. If there is none, the error is that of one of the modules
alone. -/
theorem File.ofModule_append (first second : List Stmt) :
    (∀ file, File.ofModule settings files root path (first ++ second) = .ok file ↔
      ∃ earlier later, File.ofModule settings files root path first = .ok earlier ∧
        File.ofModule settings files root path second = .ok later ∧
        file = {
          path := path
          process := earlier.process ++ later.process
          functions := earlier.functions ++ later.functions
          classes := earlier.classes ++ later.classes
          constants := earlier.constants ++ later.constants
          imports := earlier.imports ++ later.imports
          gaps := earlier.gaps ++ later.gaps }) ∧
      (error? (File.ofModule settings files root path (first ++ second)) =
          error? (File.ofModule settings files root path first) ∨
        error? (File.ofModule settings files root path (first ++ second)) =
          error? (File.ofModule settings files root path second)) := by
  refine ⟨fun file => ⟨fun h => ?_, ?_⟩, ?_⟩
  · obtain ⟨declared, hdeclared, process, hprocess, rfl⟩ := File.ofModule_eq_ok.mp h
    rw [walk_root_append] at hprocess
    rw [← mapM_eq_ok, List.mapM_append] at hdeclared
    simp only [bind_eq_ok, pure_eq_ok, mapM_eq_ok] at hdeclared hprocess
    obtain ⟨declared₁, hd₁, declared₂, hd₂, rfl⟩ := hdeclared
    obtain ⟨process₁, hp₁, process₂, hp₂, rfl⟩ := hprocess
    refine ⟨_, _, File.ofModule_eq_ok.mpr ⟨declared₁, hd₁, process₁, hp₁, rfl⟩,
      File.ofModule_eq_ok.mpr ⟨declared₂, hd₂, process₂, hp₂, rfl⟩, ?_⟩
    simp only [List.filterMap_append, List.flatMap_append]
  · rintro ⟨earlier, later, hearlier, hlater, rfl⟩
    obtain ⟨declared₁, hd₁, process₁, hp₁, rfl⟩ := File.ofModule_eq_ok.mp hearlier
    obtain ⟨declared₂, hd₂, process₂, hp₂, rfl⟩ := File.ofModule_eq_ok.mp hlater
    refine File.ofModule_eq_ok.mpr ⟨declared₁ ++ declared₂, List.rel_append hd₁ hd₂,
      process₁ ++ process₂, ?_, ?_⟩
    · rw [walk_root_append, hp₁, hp₂]
      rfl
    · simp only [List.filterMap_append, List.flatMap_append]
  · rw [error?_ofModule_eq_or, error?_ofModule_eq_or, error?_ofModule_eq_or, List.mapM_append,
      walk_root_append, error?_append, error?_append]
    exact or_or_eq _ _ _ _

end EntityGraph
