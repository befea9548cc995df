import EntityGraph.Graph.Equality
import EntityGraph.Proofs.Graph.RoundTrip

/-!
# Stability of the written form

A literal that comes back as another one is written in the same way: a number and an ellipsis come back
as texts, and were written as these texts. So what is read back of a graph is written as the graph was
(`File.toJson_reread`), and reading it once more changes nothing (`File.toJson_stable`).
-/

namespace EntityGraph

theorem Constant.toJson_reread (value : Constant) : value.reread.toJson = value.toJson := by
  cases value <;> rfl

mutual

theorem Output.toJson_reread : ∀ output : Output, output.reread.toJson = output.toJson
  | .name _ | .dumped _ => rfl
  | .constant value => congrArg (Json.tag "constant") value.toJson_reread
  | .group items => by
    rw [Output.reread, Output.toJson, Output.toJson, Output.listToJson_rereadAll items]
  | .pair first second | .binOp first second => by
    rw [Output.reread, Output.toJson, Output.toJson, Output.listToJson_rereadAll first,
      Output.listToJson_rereadAll second]

theorem Output.listToJson_rereadAll : ∀ outputs : List Output,
    Output.listToJson (Output.rereadAll outputs) = Output.listToJson outputs
  | [] => rfl
  | output :: rest => by
    rw [Output.rereadAll, Output.listToJson, Output.listToJson, Output.toJson_reread output,
      Output.listToJson_rereadAll rest]

end

theorem Function.toJson_reread (function : Function) : function.reread.toJson = function.toJson := by
  simp only [Function.reread, Function.toJson, Output.listToJson_rereadAll]

theorem Class.toJson_reread (declared : Class) : declared.reread.toJson = declared.toJson := by
  simp only [Class.reread, Class.toJson, List.map_map, Function.comp_def, Function.toJson_reread]

/-- What comes back of a file is written as the file is. -/
theorem File.toJson_reread (file : File) : file.reread.toJson = file.toJson := by
  simp only [File.reread, File.toJson, List.map_map, Function.comp_def, Function.toJson_reread,
    Class.toJson_reread]
  rfl

/-- Every line of the graph is a 64-bit word: none changes if all are cut to words. -/
def File.HasWordLines (file : File) : Prop :=
  file.renumber toWord = file

/-- A file is read back as one that is written in the same way, and is itself read back unchanged. -/
theorem File.toJson_stable {file : File} (hwords : file.HasWordLines) :
    ∃ back, File.ofJson? file.toJson = some back ∧ back.toJson = file.toJson ∧
      File.ofJson? back.toJson = some back := by
  have hback : File.ofJson? file.toJson = some file.reread := by
    have h := File.ofJson?_toJson file
    rwa [hwords] at h
  exact ⟨file.reread, hback, file.toJson_reread, by rw [file.toJson_reread, hback]⟩

/-- A graph with literals of every kind, some of them in nested outputs, and with the last line that can
be written. -/
def literalGraph : File where
  path := ⟨"m.py"⟩
  process := [.logic .tryBlock none [.call ⟨"f", 1, none, []⟩] (some []) 1]
  functions := [⟨"f", 2, none, [],
    [.group [.constant (.number "1"), .pair [.constant .ellipsis] [.constant .none]],
      .binOp [.constant (.bool true)] [.constant (.bytes [0, 255])], .constant (.str "...")], [], true⟩]
  classes := [⟨"A", 18446744073709551615, [], [⟨"g", 4, some "", [], [.constant .ellipsis], [], false⟩],
    []⟩]
  constants := []
  imports := [.resolved ⟨"x.py"⟩ [⟨"y", none⟩]]
  gaps := [.nestedClass "A" "B" 18446744073709551615]

/-- The graph does not come back as itself, but it is written as itself. -/
theorem File.toJson_stable_literals :
    literalGraph.HasWordLines ∧ literalGraph.reread ≠ literalGraph ∧
      ∃ back, File.ofJson? literalGraph.toJson = some back ∧ back.toJson = literalGraph.toJson ∧
        File.ofJson? back.toJson = some back :=
  ⟨rfl, by decide +kernel, File.toJson_stable rfl⟩

end EntityGraph
