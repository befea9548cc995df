import EntityGraph.Error
import EntityGraph.Settings
import EntityGraph.Toml.Document

/-!
# Configuration files

A project keeps its settings in a TOML file in its root.

* `Settings.ofToml` reads the text of such a file: what it does not set has its default, and keys that
  no setting has are ignored;
* `Settings.load` reads a file, `Settings.discover` the one in a root directory if there is one;
* `Settings.excludePatterns` compiles the patterns of the files that are left out.
-/

namespace EntityGraph

def configurationName : String := "py-entities.toml"

namespace Settings

/-! ## Reading -/

def textOfItem? : Toml.Item → Option String
  | .value (.string text) => some text
  | _ => none

def textOfValue? : Toml.Value → Option String
  | .string text => some text
  | _ => none

def textsOfItem? : Toml.Item → Option (List String)
  | .value (.array items) => items.mapM textOfValue?
  | _ => none

/-- The setting of this key, or its default if the table does not have the key. -/
def setting? {α : Type} (read : Toml.Item → Option α) (default : α) (key : String)
    (table : Toml.Table) : Option α :=
  match table.get? key with
  | none => some default
  | some item => read item

def ofTable? (table : Toml.Table) : Option Settings := do
  let token ← setting? textOfItem? default.entryGuardToken "entry_guard_token" table
  let literal ← setting? textOfItem? default.entryGuardLiteral "entry_guard_literal" table
  let constructors ← setting? textsOfItem? default.constructorNames "constructor_names" table
  let selfName ← setting? textOfItem? default.selfName "self_name" table
  let exclude ← setting? textsOfItem? default.exclude "exclude" table
  return ⟨token, literal, constructors, selfName, exclude⟩

def ofToml (text : String) : Except ExtractError Settings :=
  match (Toml.Document.read? text).bind ofTable? with
  | some settings => .ok settings
  | none => .error .malformedSettings

/-! ## Files -/

def load (files : FileTree) (path : Path) : Except ExtractError Settings :=
  match files.get? path with
  | none => .error (.fileNotFound path)
  | some entry =>
    match entry.readText with
    | .error cause => .error (.read cause)
    | .ok text => ofToml text

/-- The settings of the project at `root`. -/
def discover (files : FileTree) (root : Path) : Except ExtractError Settings :=
  let candidate := root.push configurationName
  if files.isFile candidate then load files candidate else .ok default

/-! ## Patterns -/

def pattern (text : String) : Except ExtractError Pattern :=
  match Pattern.ofText text with
  | .ok pattern => .ok pattern
  | .error cause => .error (.malformedPattern text cause)

/-- The exclude patterns, or what is wrong with the first one that is malformed. -/
def excludePatterns (settings : Settings) : Except ExtractError (List Pattern) :=
  settings.exclude.mapM pattern

end Settings

end EntityGraph
