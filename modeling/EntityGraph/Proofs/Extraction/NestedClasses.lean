import EntityGraph.Proofs.Extraction.Success
import EntityGraph.Proofs.Program.WellFormed
import Mathlib.Data.List.Nodup

/-!
# Nested classes

Which of the classes below the body of a class leave a gap in the graph of a file. Gaps are taken from
the statements of the body itself, not from the blocks, methods and classes among them.

* `gaps_ofModule`: the gaps are those of the classes directly in the body of a class, in order;
* `reports_nestedClass_iff`: a nested class is reported exactly if it is directly in the body of a
  class, or one of its name and line is;
* `ofModule_conditional_class_unreported`: a class in a branch of a class body leaves no gap.
-/

namespace EntityGraph

/-- The header of the class that a statement defines. -/
def Stmt.classHeader? : Stmt → Option ClassHeader
  | .classDef header _ => some header
  | _ => none

/-- The classes directly in the body of a class. -/
def Stmt.memberClasses : Stmt → List ClassHeader
  | .classDef _ members => members.filterMap classHeader?
  | _ => []

/-- The classes anywhere below the body of a class: in it, in the blocks of its statements, in its
methods and in the classes in it. -/
def Stmt.nestedClasses : Stmt → List ClassHeader
  | .classDef _ members => (preorderAll members).filterMap classHeader?
  | _ => []

/-- The gaps that a statement at the top level leaves. -/
def Stmt.gaps : Stmt → List CoverageGap
  | .classDef outer members => gapsOf outer members
  | _ => []

/-- A gap of the file has the name and the line of the class. -/
def File.Reports (file : File) (nested : ClassHeader) : Prop :=
  ∃ outer, .nestedClass outer nested.name nested.line ∈ file.gaps

/-! ## Classes below classes -/

namespace Stmt

theorem memberClasses_subset (stmt : Stmt) : stmt.memberClasses ⊆ stmt.nestedClasses := by
  cases stmt with
  | classDef header members => exact List.filterMap_subset _ (subset_preorderAll members)
  | _ => exact List.Subset.refl _

/-- A class leaves a gap of this name and line exactly if a class directly in its body has them. -/
theorem exists_mem_gaps_iff {stmt : Stmt} {name : String} {line : Nat} :
    (∃ outer, .nestedClass outer name line ∈ stmt.gaps) ↔
      ∃ member ∈ stmt.memberClasses, member.name = name ∧ member.line = line := by
  cases stmt with
  | classDef outer members =>
    simp only [gaps, gapsOf, memberClasses, List.mem_filterMap]
    constructor
    · rintro ⟨_, member, hm, hgap⟩
      cases member with
      | classDef header inner =>
        cases hgap
        exact ⟨header, ⟨_, hm, rfl⟩, rfl, rfl⟩
      | _ => cases hgap
    · rintro ⟨header, ⟨member, hm, hheader⟩, rfl, rfl⟩
      cases member with
      | classDef header inner =>
        cases hheader
        exact ⟨outer.name, _, hm, rfl⟩
      | _ => cases hheader
  | _ => simp [gaps, memberClasses]

end Stmt

/-! ## Gaps of modules -/

section Modules

variable {settings : Settings} {files : FileTree} {root path : Path} {body : List Stmt} {file : File}

theorem gaps_ofStmt {stmt : Stmt} {part : Declared} (h : Declared.ofStmt settings stmt = .ok part) :
    stmt.gaps = part.gaps := by
  cases stmt with
  | functionDef header inner =>
    obtain ⟨function, -, rfl⟩ := map_eq_ok.mp h
    rfl
  | classDef outer members =>
    obtain ⟨declared, -, rfl⟩ := map_eq_ok.mp h
    rfl
  | _ =>
    cases h
    rfl

theorem gaps_ofModule (h : File.ofModule settings files root path body = .ok file) :
    file.gaps = body.flatMap Stmt.gaps := by
  obtain ⟨declared, hall, process, -, rfl⟩ := File.ofModule_eq_ok.mp h
  exact (flatMap_eq_of_forall₂ hall fun _ _ => gaps_ofStmt).symm

/-- The classes of a file are those at the top level of its module. -/
theorem classes_ofModule (h : File.ofModule settings files root path body = .ok file) :
    file.classes.map (fun declared => (declared.name, declared.line)) =
      (body.filterMap Stmt.classHeader?).map fun header => (header.name, header.line) := by
  obtain ⟨declared, hall, process, -, rfl⟩ := File.ofModule_eq_ok.mp h
  rw [List.map_filterMap, List.map_filterMap]
  refine (filterMap_eq_of_forall₂ hall fun stmt part hr => ?_).symm
  cases stmt with
  | functionDef header inner =>
    obtain ⟨function, -, rfl⟩ := map_eq_ok.mp hr
    rfl
  | classDef outer members =>
    obtain ⟨made, hd, rfl⟩ := map_eq_ok.mp hr
    obtain ⟨methods, -, rfl⟩ := Class.ofDefinition_eq_ok.mp hd
    rfl
  | _ =>
    cases hr
    rfl

theorem reports_iff (h : File.ofModule settings files root path body = .ok file)
    (nested : ClassHeader) : file.Reports nested ↔
      ∃ member ∈ body.flatMap Stmt.memberClasses,
        member.name = nested.name ∧ member.line = nested.line := by
  simp only [File.Reports, gaps_ofModule h, List.mem_flatMap]
  constructor
  · rintro ⟨outer, stmt, hs, hgap⟩
    obtain ⟨member, hm, hkey⟩ := Stmt.exists_mem_gaps_iff.mp ⟨outer, hgap⟩
    exact ⟨member, ⟨stmt, hs, hm⟩, hkey⟩
  · rintro ⟨member, ⟨stmt, hs, hm⟩, hkey⟩
    obtain ⟨outer, hgap⟩ := Stmt.exists_mem_gaps_iff.mpr ⟨member, hm, hkey⟩
    exact ⟨outer, stmt, hs, hgap⟩

/-- The classes of a file are those at the top level of its module. A class below the body of one of
them is reported exactly if a class of its name and line is directly in the body of one: where names and
lines tell the nested classes apart, exactly if it is itself directly in the body of one. -/
theorem reports_nestedClass_iff (h : File.ofModule settings files root path body = .ok file) :
    file.classes.map (fun declared => (declared.name, declared.line)) =
        (body.filterMap Stmt.classHeader?).map (fun header => (header.name, header.line)) ∧
      (∀ nested ∈ body.flatMap Stmt.nestedClasses, file.Reports nested ↔
        ∃ member ∈ body.flatMap Stmt.memberClasses,
          member.name = nested.name ∧ member.line = nested.line) ∧
      (((body.flatMap Stmt.nestedClasses).map fun nested => (nested.name, nested.line)).Nodup →
        ∀ nested ∈ body.flatMap Stmt.nestedClasses,
          file.Reports nested ↔ nested ∈ body.flatMap Stmt.memberClasses) := by
  refine ⟨classes_ofModule h, fun nested _ => reports_iff h nested, fun hnodup nested hn => ?_⟩
  have hsubset : body.flatMap Stmt.memberClasses ⊆ body.flatMap Stmt.nestedClasses := by
    intro member hm
    obtain ⟨stmt, hs, hm⟩ := List.mem_flatMap.mp hm
    exact List.mem_flatMap.mpr ⟨stmt, hs, stmt.memberClasses_subset hm⟩
  rw [reports_iff h]
  constructor
  · rintro ⟨member, hm, hname, hline⟩
    have heq := List.inj_on_of_nodup_map hnodup (hsubset hm) hn (Prod.ext hname hline)
    exact heq ▸ hm
  · exact fun hm => ⟨nested, hm, rfl, rfl⟩

end Modules

/-- The header of a class without bases. -/
def sampleHeader (name : String) (line : Nat) : ClassHeader :=
  ⟨name, [], [], [], line⟩

/-- A class `A` with a class `B` in it, and a class `C` in a branch of its body. -/
def sampleClass : Stmt :=
  .classDef (sampleHeader "A" 1)
    [.classDef (sampleHeader "B" 2) [.other "Pass" 3],
      .branch (.name "x" 4) [.classDef (sampleHeader "C" 5) [.other "Pass" 6]] [] 4]

theorem reports_member_class : ∃ file,
    File.ofModule .default .empty ⟨"."⟩ ⟨"m.py"⟩ [sampleClass] = .ok file ∧
      file.Reports (sampleHeader "B" 2) ∧ ¬ file.Reports (sampleHeader "C" 5) := by
  have hfile := @reports_nestedClass_iff .default .empty ⟨"."⟩ ⟨"m.py"⟩ [sampleClass] _ rfl
  have hreports := hfile.2.2 (by decide)
  have hmembers : [sampleClass].flatMap Stmt.memberClasses = [sampleHeader "B" 2] := rfl
  have hnested : [sampleClass].flatMap Stmt.nestedClasses =
    [sampleHeader "B" 2, sampleHeader "C" 5] := rfl
  refine ⟨_, rfl, (hreports _ ?_).mpr ?_, fun hc => ?_⟩
  · simp [hnested]
  · simp [hmembers]
  · simpa [hmembers, sampleHeader] using (hreports _ (by simp [hnested])).mp hc

/-- A class `A` with a class `B` in a branch of its body. -/
def sampleConditional : Stmt :=
  .classDef (sampleHeader "A" 1)
    [.branch (.name "x" 2) [.classDef (sampleHeader "B" 3) [.other "Pass" 3]] [] 2]

/-- A class in a branch of the body of a class leaves no gap. -/
theorem ofModule_conditional_class_unreported : ∃ file,
    File.ofModule .default .empty ⟨"."⟩ ⟨"m.py"⟩ [sampleConditional] = .ok file ∧
      file.classes.map Class.name = ["A"] ∧
      sampleHeader "B" 3 ∈ [sampleConditional].flatMap Stmt.nestedClasses ∧
      ¬ file.Reports (sampleHeader "B" 3) := by
  refine ⟨_, rfl, rfl, List.mem_cons_self, ?_⟩
  rintro ⟨outer, hgap⟩
  exact absurd hgap List.not_mem_nil

end EntityGraph
