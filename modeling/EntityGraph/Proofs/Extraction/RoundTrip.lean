import EntityGraph.Graph.Equality
import EntityGraph.Proofs.Extraction.Renumber
import EntityGraph.Proofs.Graph.RoundTrip

/-!
# Extracted graphs that are written and read back

Extraction adds no lines of its own (`File.renumber_ofModule`), so the graph of a module whose lines
are words is read back as `File.reread` says (`File.ofJson?_ofModule`): as itself, unless one of its
functions returns a number or an ellipsis.
-/

namespace EntityGraph

variable {settings : Settings} {files : FileTree} {root path : Path} {body : List Stmt} {file : File}

/-- The lines of a graph are lines of its module. -/
theorem File.renumber_ofModule (hwords : Stmt.HasWordLines body)
    (hfile : File.ofModule settings files root path body = .ok file) : file.renumber toWord = file := by
  have h := File.ofModule_renumber toWord settings files root path body
  rw [hwords, hfile] at h
  exact (Except.ok.inj h).symm

/-- What is read back is the graph with texts in place of the numbers and ellipses that its functions
return, and the graph itself if they return none. -/
theorem File.ofJson?_ofModule (hwords : Stmt.HasWordLines body)
    (hfile : File.ofModule settings files root path body = .ok file) :
    File.ofJson? file.toJson = some file.reread ∧
      (file.reread = file ↔ ∀ value ∈ file.literals, value.isPlain = true) := by
  refine ⟨?_, File.reread_eq_self_iff file⟩
  have h := File.ofJson?_toJson file
  rwa [File.renumber_ofModule hwords hfile] at h

/-- A module with a function `f` that returns this literal. -/
def returning (value : Constant) : List Stmt :=
  [.functionDef ⟨"f", ⟨[], [], none, [], none⟩, [], false, 1⟩ [.return (some (.constant value 2)) 2]]

/-- The graph of a module with a function `f` that returns this literal. -/
def returningGraph (value : Constant) : File where
  path := ⟨"m.py"⟩
  process := []
  functions := [⟨"f", 1, none, [], [.constant value], [], false⟩]
  classes := []
  constants := []
  imports := []
  gaps := []

theorem File.ofJson?_returning_text :
    File.ofJson? (returningGraph (.str "1")).toJson = some (returningGraph (.str "1")).reread ∧
      ((returningGraph (.str "1")).reread = returningGraph (.str "1") ↔
        ∀ value ∈ (returningGraph (.str "1")).literals, value.isPlain = true) :=
  @File.ofJson?_ofModule .default .empty ⟨"."⟩ ⟨"m.py"⟩ (returning (.str "1")) _ rfl rfl

/-- A returned number comes back as a text. -/
theorem File.ofJson?_returning_number :
    File.ofModule .default .empty ⟨"."⟩ ⟨"m.py"⟩ (returning (.number "1")) =
        .ok (returningGraph (.number "1")) ∧
      File.ofJson? (returningGraph (.number "1")).toJson = some (returningGraph (.str "1")) ∧
      returningGraph (.str "1") ≠ returningGraph (.number "1") :=
  ⟨rfl, rfl, by decide⟩

end EntityGraph
