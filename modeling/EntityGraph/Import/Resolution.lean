import EntityGraph.Files.FileTree
import EntityGraph.Graph.File
import EntityGraph.Program.Stmt

/-!
# Resolution of imports

An import names a module by a dotted path, which leads from a root directory to a package directory or
to a source file. An import that leads nowhere is recorded as unresolved; nothing is guessed.

* `relativeModule` turns the dots of a relative import into the packages that the file is in;
* `absorbed` is the number of leading segments that name the directories at the end of the root, as
  they do when a module is named from above the root;
* `resolveModule` follows a dotted path, and `importsOf` gives the records of a statement.
-/

namespace EntityGraph.Import

/-- The segments of a dotted path, without empty ones. -/
def segments (dotted : String) : List String :=
  ((Text.pieces (· == '.') dotted.toList).map String.ofList).filter (· ≠ "")

/-- The dotted path of an import in `file` with `level` dots before the module: the place of the file
below the root, without `level` segments at its end, and the module. -/
def relativeModule (root file : Path) (module : Option String) (level : Nat) : String :=
  let names := ((file.stripPrefix? root).getD file).normalNames
  ".".intercalate (names.take (names.length - level) ++ [module.getD ""])

/-! ## Dotted paths -/

/-- The largest number up to `bound` of first segments that are the last names of the root. -/
def absorbedUpTo (names segments : List String) : Nat → Nat
  | 0 => 0
  | k + 1 =>
    if names.drop (names.length - (k + 1)) = segments.take (k + 1) then k + 1
    else absorbedUpTo names segments k

/-- The number of first segments that only name the root. At least one segment stays. -/
def absorbed (root : Path) (segments : List String) : Nat :=
  let names := root.normalNames
  absorbedUpTo names segments (min names.length (segments.length - 1))

/-- The extension of source files. -/
def sourceExtension : String := "py"

/-- What the segments lead to: directories, and at the end a directory or a source file. -/
def follow (files : FileTree) (place : Path) : List String → Option Path
  | [] => none
  | [last] =>
    let package := place.push last
    if files.isDirectory package then some package
    else
      let source := package.setExtension sourceExtension
      if files.isFile source then some source else none
  | segment :: rest =>
    let package := place.push segment
    if files.isDirectory package then follow files package rest else none

def resolveModule (files : FileTree) (root : Path) (dotted : String) : Option Path :=
  let segments := segments dotted
  follow files root (segments.drop (absorbed root segments))

/-! ## Records -/

def importedName (imported : Alias) : ImportedName :=
  ⟨imported.name, imported.asname⟩

/-- The record of a dotted path; `shown` is how the source writes it. -/
def record (files : FileTree) (root : Path) (dotted shown : String) (names : List Alias) :
    ImportRecord :=
  match resolveModule files root dotted with
  | some path => .resolved path (names.map importedName)
  | none => .unresolved shown (names.map importedName)

/-- A relative or absolute module as the source writes it. -/
def shownModule (module : Option String) (level : Nat) : String :=
  String.ofList (List.replicate level '.') ++ module.getD ""

/-- The records of a statement in `file`: one for each module that it imports. -/
def importsOf (files : FileTree) (root file : Path) : Stmt → List ImportRecord
  | .importFrom module names level _ =>
    let dotted := if level = 0 then module.getD "" else relativeModule root file module level
    [record files root dotted (shownModule module level) names]
  | .importModules names _ => names.map fun name => record files root name.name name.name [name]
  | _ => []

end EntityGraph.Import
