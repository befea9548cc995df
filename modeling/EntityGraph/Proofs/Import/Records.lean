import EntityGraph.Proofs.Extraction.Success
import EntityGraph.Proofs.Import.Relative

/-!
# Records of imports

What a module asks to import, and what the records of its graph keep of it. A statement asks for modules
(`Request`), whatever the files are; the files decide which of three records answers a request
(`Request.answers`).

* `follow_eq_some`: names that are followed lead to one place, or to the source file called like it;
* `record_mem_answers`: the record of a request is one of its answers;
* `File.ofModule_imports`: the imports of a module are answers to its requests, one by one and in order,
  so that every imported name is in them once, and for other files only the answers are others.
-/

namespace EntityGraph.Import

/-- A module that a statement imports from: the dotted path that is followed to it, how the source writes
it, and what is imported. -/
structure Request where
  dotted : String
  shown : String
  names : List ImportedName

/-- The modules that a statement imports: each one of a list by itself, and one for all names imported
from it. A relative module is written with a dot for each level. -/
def requestsOf (root file : Path) : Stmt → List Request
  | .importModules names _ => names.map fun name => ⟨name.name, name.name, [⟨name.name, name.asname⟩]⟩
  | .importFrom module names level _ => [{
      dotted := if level = 0 then module.getD "" else relativeModule root file module level
      shown := String.ofList (List.replicate level '.') ++ module.getD ""
      names := names.map fun name => ⟨name.name, name.asname⟩ }]
  | _ => []

/-- The place that the module of a request is looked for at. -/
def Request.place (root : Path) (request : Request) : Path :=
  root.pushAll ((segments request.dotted).drop (absorbed root (segments request.dotted)))

/-- The records that can answer a request: resolved to a package or to a source file, or unresolved. -/
def Request.answers (root : Path) (request : Request) : List ImportRecord :=
  [.resolved (request.place root) request.names,
    .resolved ((request.place root).setExtension sourceExtension) request.names,
    .unresolved request.shown request.names]

/-- What a statement imports, by name. -/
def importedBy : Stmt → List ImportedName
  | .importModules names _ | .importFrom _ names _ _ => names.map fun name => ⟨name.name, name.asname⟩
  | _ => []

/-! ## Answers -/

theorem follow_singleton (files : FileTree) (place : Path) (last : String) :
    follow files place [last] =
      if files.isDirectory (place.push last) then some (place.push last)
      else if files.isFile ((place.push last).setExtension sourceExtension) then
        some ((place.push last).setExtension sourceExtension)
      else none := rfl

theorem follow_eq_some {files : FileTree} {place path : Path} {names : List String}
    (h : follow files place names = some path) :
    path = place.pushAll names ∨ path = (place.pushAll names).setExtension sourceExtension := by
  induction names generalizing place with
  | nil => cases h
  | cons name rest ih =>
    cases rest with
    | nil =>
      rw [follow_singleton] at h
      split at h
      · exact .inl (Option.some.inj h).symm
      split at h
      · exact .inr (Option.some.inj h).symm
      · cases h
    | cons next more =>
      rw [follow_cons_cons] at h
      split at h
      · exact ih h
      · cases h

theorem record_mem_answers (files : FileTree) (root : Path) (dotted shown : String)
    (names : List Alias) : record files root dotted shown names ∈
      Request.answers root ⟨dotted, shown, names.map importedName⟩ := by
  rw [record]
  cases h : resolveModule files root dotted with
  | none => simp [Request.answers]
  | some path =>
    rcases follow_eq_some h with hpath | hpath <;> simp [Request.answers, Request.place, hpath]

theorem forall₂_importsOf (files : FileTree) (root file : Path) (stmt : Stmt) :
    List.Forall₂ (fun request record => record ∈ request.answers root)
      (requestsOf root file stmt) (importsOf files root file stmt) := by
  cases stmt with
  | importModules names line =>
    rw [requestsOf, importsOf, List.forall₂_map_left_iff, List.forall₂_map_right_iff, List.forall₂_same]
    exact fun name _ => record_mem_answers files root name.name name.name [name]
  | importFrom module names level line =>
    exact .cons (record_mem_answers files root _ _ names) .nil
  | _ => exact .nil

theorem flatMap_names_requestsOf (root file : Path) (stmt : Stmt) :
    (requestsOf root file stmt).flatMap Request.names = importedBy stmt := by
  cases stmt with
  | importModules names line => rw [requestsOf, importedBy, List.flatMap_map, ← List.map_eq_flatMap]
  | importFrom module names level line => rw [requestsOf, importedBy, List.flatMap_singleton]
  | _ => rfl

theorem names_of_mem_answers {root : Path} {request : Request} {record : ImportRecord}
    (h : record ∈ request.answers root) : record.names = request.names := by
  simp only [Request.answers, List.mem_cons, List.not_mem_nil, or_false] at h
  rcases h with rfl | rfl | rfl <;> rfl

/-! ## Other files -/

/-- The records are the same, but for whether and where they are resolved: to a package, or to the source
file that is called like it. -/
def SameRequest : ImportRecord → ImportRecord → Prop
  | .unresolved module names, .unresolved module' names' => module = module' ∧ names = names'
  | .resolved path names, .resolved path' names' => names = names' ∧
    (path' = path ∨ path' = path.setExtension sourceExtension ∨ path = path'.setExtension sourceExtension)
  | first, second => first.names = second.names

theorem sameRequest_of_mem_answers {root : Path} {request : Request} {first second : ImportRecord}
    (h₁ : first ∈ request.answers root) (h₂ : second ∈ request.answers root) :
    SameRequest first second := by
  simp only [Request.answers, List.mem_cons, List.not_mem_nil, or_false] at h₁ h₂
  rcases h₁ with rfl | rfl | rfl <;> rcases h₂ with rfl | rfl | rfl <;>
    simp [SameRequest, ImportRecord.names]

/-- What answers the same requests is related one by one, if any two answers to one request are. -/
theorem forall₂_of_forall₂ {α β : Type} {R : α → β → Prop} {S : β → β → Prop} {xs : List α}
    {ys zs : List β} (h₁ : List.Forall₂ R xs ys) (h₂ : List.Forall₂ R xs zs)
    (h : ∀ x y z, R x y → R x z → S y z) : List.Forall₂ S ys zs := by
  induction h₁ generalizing zs with
  | nil =>
    cases h₂
    exact .nil
  | cons hy _ ih =>
    cases h₂ with
    | cons hz hzs => exact .cons (h _ _ _ hy hz) (ih hzs)

end EntityGraph.Import

namespace EntityGraph

open Import

section Modules

variable {settings : Settings} {files : FileTree} {root path : Path} {body : List Stmt} {file : File}

/-- The files decide nothing but the imports of a graph. -/
theorem File.ofModule_files (h : File.ofModule settings files root path body = .ok file)
    (others : FileTree) : File.ofModule settings others root path body =
      .ok { file with imports := body.flatMap (importsOf others root path) } := by
  obtain ⟨declared, hdeclared, process, hprocess, rfl⟩ := File.ofModule_eq_ok.mp h
  rw [File.ofModule_eq_ok]
  exact ⟨declared, hdeclared, process, hprocess, rfl⟩

theorem forall₂_imports_ofModule (h : File.ofModule settings files root path body = .ok file) :
    List.Forall₂ (fun request record => record ∈ request.answers root)
      (body.flatMap (requestsOf root path)) file.imports := by
  obtain ⟨declared, -, process, -, rfl⟩ := File.ofModule_eq_ok.mp h
  refine List.rel_flatMap (R := Eq) (List.forall₂_refl body) ?_
  rintro stmt _ rfl
  exact forall₂_importsOf files root path stmt

/-- Each module that the statements of a module import from is answered by one record, in their order,
and the names of the records are those that the statements import. For other files there is a graph too,
and it has the same records, but for whether and where they are resolved, and the same other parts. -/
theorem File.ofModule_imports (h : File.ofModule settings files root path body = .ok file) :
    List.Forall₂ (fun request record => record ∈ request.answers root)
        (body.flatMap (requestsOf root path)) file.imports ∧
      file.imports.flatMap ImportRecord.names = body.flatMap importedBy ∧
      ∀ others : FileTree, ∃ imports,
        File.ofModule settings others root path body = .ok { file with imports := imports } ∧
          List.Forall₂ SameRequest file.imports imports := by
  have hanswers := forall₂_imports_ofModule h
  refine ⟨hanswers, ?_, fun others => ?_⟩
  · have hnames := flatMap_eq_of_forall₂ hanswers fun _ _ hmem => (names_of_mem_answers hmem).symm
    rw [← hnames, List.flatMap_assoc, funext (flatMap_names_requestsOf root path)]
  · have hother := File.ofModule_files h others
    exact ⟨_, hother, forall₂_of_forall₂ hanswers (forall₂_imports_ofModule hother)
      fun _ _ _ => sameRequest_of_mem_answers⟩

end Modules

/-- `import app.sub as sub, lib`, then `from .mod import helper as h, other`. -/
def sampleImports : List Stmt :=
  [.importModules [⟨"app.sub", some "sub"⟩, ⟨"lib", none⟩] 1,
    .importFrom (some "mod") [⟨"helper", some "h"⟩, ⟨"other", none⟩] 1 2]

/-- Of two modules of one statement, one is found and the other is not. Without any files neither is. -/
theorem File.ofModule_imports_partly : ∃ file,
    File.ofModule .default sampleFiles ⟨"proj"⟩ ⟨"proj/app/mod.py"⟩ sampleImports = .ok file ∧
      file.imports = [.resolved ⟨"proj/app/sub.py"⟩ [⟨"app.sub", some "sub"⟩],
        .unresolved "lib" [⟨"lib", none⟩],
        .resolved ⟨"proj/app/mod.py"⟩ [⟨"helper", some "h"⟩, ⟨"other", none⟩]] ∧
      file.imports.flatMap ImportRecord.names =
        [⟨"app.sub", some "sub"⟩, ⟨"lib", none⟩, ⟨"helper", some "h"⟩, ⟨"other", none⟩] ∧
      ∃ imports, File.ofModule .default .empty ⟨"proj"⟩ ⟨"proj/app/mod.py"⟩ sampleImports =
          .ok { file with imports := imports } ∧
        List.Forall₂ SameRequest file.imports imports := by
  have himports := @File.ofModule_imports .default sampleFiles ⟨"proj"⟩ ⟨"proj/app/mod.py"⟩
    sampleImports _ rfl
  exact ⟨_, rfl, by decide, himports.2.1, himports.2.2 .empty⟩

end EntityGraph
