import EntityGraph.Graph.File
import EntityGraph.Json.Fields
import EntityGraph.Settings

/-!
# Entity graphs from JSON

`ofJson?` of each type reads what `toJson` writes, and fails on everything else. Records may hold
further members, which are ignored; an alternative is named by exactly one member. A record can also
be written as an array of its fields.

A literal is read as the first that fits of a truth value, a text, a list of bytes, an ellipsis and
nothing, so a number that was written as a text comes back as a text.
-/

namespace EntityGraph

open Json (string? bool? word? byte? list? tagged? record? required? optional? defaulted?)

/-! ## References -/

/-- The name of an alternative without fields. -/
def Json.unit? : Json → Option String
  | .string name => some name
  | .object [(name, .null)] => some name
  | _ => none

def ConditionKind.ofText? : String → Option ConditionKind
  | "if" => some .ifThen
  | "try" => some .tryBlock
  | "while" => some .whileLoop
  | "ifExp" => some .ifExp
  | _ => none

def ConditionKind.ofJson? (value : Json) : Option ConditionKind :=
  value.unit?.bind ConditionKind.ofText?

/-- An owner, which may be null. -/
def ownerOfJson? : Json → Option (Option String)
  | .null => some none
  | value => some <$> value.string?

mutual

def Reference.ofJson? : Json → Option Reference
  | .object [(tag, value)] =>
    match tag with
    | "name" => .name <$> value.string?
    | "attribute" => Reference.attributeOfJson? value
    | "call" => .call <$> Call.ofJson? value
    | "logic" => Reference.logicOfJson? value
    | "unmodeled" => .unmodeled <$> value.string?
    | _ => none
  | _ => none

def Reference.attributeOfJson? : Json → Option Reference
  | .object members => do
    let owner ← Receiver.fieldOfJson? "owner" members
    let attr ← required? string? "attr" members
    return .attribute owner attr
  | _ => none

def Reference.logicOfJson? : Json → Option Reference
  | .object members => do
    let kind ← required? ConditionKind.ofJson? "kind" members
    let condition ← Reference.optionFieldOfJson? "condition" members
    let process ← Reference.listFieldOfJson? "process" members
    let elseBranch ← Reference.optionFieldOfJson? "else_branch" members
    let line ← required? word? "line" members
    return .logic kind condition process elseBranch line
  | .array [kind, condition, process, elseBranch, line] => do
    let kind ← ConditionKind.ofJson? kind
    let condition ← Reference.optionOfJson? condition
    let process ← Reference.listOfJson? process
    let elseBranch ← Reference.optionOfJson? elseBranch
    let line ← line.word?
    return .logic kind condition process elseBranch line
  | _ => none

def Receiver.ofJson? : Json → Option Receiver
  | .string "absent" => some .absent
  | .object [(tag, value)] =>
    match tag with
    | "one" => .one <$> Reference.ofJson? value
    | "many" => .many <$> Reference.listOfJson? value
    | "absent" =>
      match value with
      | .null => some .absent
      | _ => none
    | _ => none
  | _ => none

def Call.ofJson? : Json → Option Call
  | .object members => do
    let name ← required? string? "name" members
    let line ← required? word? "line" members
    let owner ← optional? string? "owner" members
    let takenVar ← Reference.listFieldOfJson? "taken_var" members
    return ⟨name, line, owner, takenVar⟩
  | .array [name, line, owner, takenVar] => do
    let name ← name.string?
    let line ← line.word?
    let owner ← ownerOfJson? owner
    let takenVar ← Reference.listOfJson? takenVar
    return ⟨name, line, owner, takenVar⟩
  | _ => none

def Receiver.fieldOfJson? (name : String) : List (String × Json) → Option Receiver
  | [] => none
  | (key, value) :: rest =>
    if key = name then Receiver.ofJson? value else Receiver.fieldOfJson? name rest

def Reference.allOfJson? : List Json → Option (List Reference)
  | [] => some []
  | value :: rest => do
    let reference ← Reference.ofJson? value
    let references ← Reference.allOfJson? rest
    return reference :: references

def Reference.listOfJson? : Json → Option (List Reference)
  | .array items => Reference.allOfJson? items
  | _ => none

def Reference.optionOfJson? : Json → Option (Option (List Reference))
  | .null => some none
  | .array items => some <$> Reference.allOfJson? items
  | _ => none

def Reference.listFieldOfJson? (name : String) : List (String × Json) → Option (List Reference)
  | [] => none
  | (key, value) :: rest =>
    if key = name then Reference.listOfJson? value else Reference.listFieldOfJson? name rest

def Reference.optionFieldOfJson? (name : String) :
    List (String × Json) → Option (Option (List Reference))
  | [] => some none
  | (key, value) :: rest =>
    if key = name then Reference.optionOfJson? value else Reference.optionFieldOfJson? name rest

end

/-! ## Entities -/

def Target.attributeOfJson? : Json → Option Target
  | .object members => do
    let owner ← required? string? "owner" members
    let attr ← required? string? "attr" members
    return .attribute owner attr
  | _ => none

def Target.subscriptOfJson? : Json → Option Target
  | .object members => do
    let base ← required? Reference.listOfJson? "base" members
    let index ← optional? Reference.listOfJson? "index" members
    return .subscript base index
  | _ => none

def Target.ofJson? (value : Json) : Option Target := do
  let (tag, value) ← tagged? value
  match tag with
  | "name" => .name <$> value.string?
  | "attribute" => Target.attributeOfJson? value
  | "subscript" => Target.subscriptOfJson? value
  | _ => none

def Variable.ofJson? (value : Json) : Option Variable := do
  let fields ← record? ["targets", "points_to", "line"] 3 value
  let targets ← required? (list? Target.ofJson?) "targets" fields
  let pointsTo ← required? Reference.listOfJson? "points_to" fields
  let line ← required? word? "line" fields
  return ⟨targets, pointsTo, line⟩

mutual

def Entity.ofJson? : Json → Option Entity
  | .object [(tag, value)] =>
    match tag with
    | "call" => .call <$> Call.ofJson? value
    | "variable" => .binding <$> Variable.ofJson? value
    | "logic" => Entity.logicOfJson? value
    | _ => none
  | _ => none

def Entity.logicOfJson? : Json → Option Entity
  | .object members => do
    let kind ← required? ConditionKind.ofJson? "kind" members
    let condition ← optional? Reference.listOfJson? "condition" members
    let process ← Entity.listFieldOfJson? "process" members
    let elseBranch ← Entity.optionFieldOfJson? "else_branch" members
    let line ← required? word? "line" members
    return .logic kind condition process elseBranch line
  | .array [kind, condition, process, elseBranch, line] => do
    let kind ← ConditionKind.ofJson? kind
    let condition ← Reference.optionOfJson? condition
    let process ← Entity.listOfJson? process
    let elseBranch ← Entity.optionOfJson? elseBranch
    let line ← line.word?
    return .logic kind condition process elseBranch line
  | _ => none

def Entity.allOfJson? : List Json → Option (List Entity)
  | [] => some []
  | value :: rest => do
    let entity ← Entity.ofJson? value
    let entities ← Entity.allOfJson? rest
    return entity :: entities

def Entity.listOfJson? : Json → Option (List Entity)
  | .array items => Entity.allOfJson? items
  | _ => none

def Entity.optionOfJson? : Json → Option (Option (List Entity))
  | .null => some none
  | .array items => some <$> Entity.allOfJson? items
  | _ => none

def Entity.listFieldOfJson? (name : String) : List (String × Json) → Option (List Entity)
  | [] => none
  | (key, value) :: rest =>
    if key = name then Entity.listOfJson? value else Entity.listFieldOfJson? name rest

def Entity.optionFieldOfJson? (name : String) :
    List (String × Json) → Option (Option (List Entity))
  | [] => some none
  | (key, value) :: rest =>
    if key = name then Entity.optionOfJson? value else Entity.optionFieldOfJson? name rest

end

/-! ## Declarations -/

def Constant.ofJson? : Json → Option Constant
  | .bool value => some (.bool value)
  | .string text => some (.str text)
  | .array items => .bytes <$> items.mapM byte?
  | .object [("...", .null)] => some .ellipsis
  | .null => some .none
  | _ => none

mutual

def Output.ofJson? : Json → Option Output
  | .object [(tag, value)] =>
    match tag with
    | "name" => .name <$> value.string?
    | "constant" => .constant <$> Constant.ofJson? value
    | "opaque" => .dumped <$> value.string?
    | "group" => .group <$> Output.listOfJson? value
    | "pair" =>
      match value with
      | .array [first, second] => do
        let first ← Output.listOfJson? first
        let second ← Output.listOfJson? second
        return .pair first second
      | _ => none
    | "bin_op" =>
      match value with
      | .array [left, right] => do
        let left ← Output.listOfJson? left
        let right ← Output.listOfJson? right
        return .binOp left right
      | _ => none
    | _ => none
  | _ => none

def Output.allOfJson? : List Json → Option (List Output)
  | [] => some []
  | value :: rest => do
    let output ← Output.ofJson? value
    let outputs ← Output.allOfJson? rest
    return output :: outputs

def Output.listOfJson? : Json → Option (List Output)
  | .array items => Output.allOfJson? items
  | _ => none

end

def Function.ofJson? (value : Json) : Option Function := do
  let fields ←
    record? ["name", "line", "docstring", "inputs", "outputs", "process", "is_async"] 6 value
  let name ← required? string? "name" fields
  let line ← required? word? "line" fields
  let docstring ← optional? string? "docstring" fields
  let inputs ← required? (list? string?) "inputs" fields
  let outputs ← required? Output.listOfJson? "outputs" fields
  let process ← required? Entity.listOfJson? "process" fields
  let isAsync ← defaulted? bool? false "is_async" fields
  return ⟨name, line, docstring, inputs, outputs, process, isAsync⟩

def Class.ofJson? (value : Json) : Option Class := do
  let fields ← record? ["name", "line", "superclasses", "methods", "attributes"] 5 value
  let name ← required? string? "name" fields
  let line ← required? word? "line" fields
  let superclasses ← required? (list? string?) "superclasses" fields
  let methods ← required? (list? Function.ofJson?) "methods" fields
  let attributes ← required? (list? string?) "attributes" fields
  return ⟨name, line, superclasses, methods, attributes⟩

/-! ## Files -/

def ImportedName.ofJson? (value : Json) : Option ImportedName := do
  let fields ← record? ["name", "alias"] 2 value
  let name ← required? string? "name" fields
  let asname ← optional? string? "alias" fields
  return ⟨name, asname⟩

def Path.ofJson? (value : Json) : Option Path :=
  Path.mk <$> value.string?

/-- An alternative that the member `tag` names, or the first item of an array, and its other fields. -/
def Json.internallyTagged? (tag : String) : Json → Option (String × Json)
  | .object members => do
    let name ← required? string? tag members
    return (name, .object members)
  | .array (first :: rest) => do
    let name ← first.string?
    return (name, .array rest)
  | _ => none

def ImportRecord.ofJson? (value : Json) : Option ImportRecord := do
  let (status, value) ← value.internallyTagged? "status"
  match status with
  | "resolved" =>
    let fields ← record? ["path", "names"] 2 value
    let path ← required? Path.ofJson? "path" fields
    let names ← required? (list? ImportedName.ofJson?) "names" fields
    return .resolved path names
  | "unresolved" =>
    let fields ← record? ["module", "names"] 2 value
    let module ← required? string? "module" fields
    let names ← required? (list? ImportedName.ofJson?) "names" fields
    return .unresolved module names
  | _ => none

def CoverageGap.ofJson? (value : Json) : Option CoverageGap := do
  let (gap, value) ← value.internallyTagged? "gap"
  match gap with
  | "nested_class" =>
    let fields ← record? ["class", "name", "line"] 3 value
    let outer ← required? string? "class" fields
    let name ← required? string? "name" fields
    let line ← required? word? "line" fields
    return .nestedClass outer name line
  | _ => none

def File.ofJson? (value : Json) : Option File := do
  let fields ←
    record? ["path", "process", "functions", "classes", "constants", "imports", "gaps"] 6 value
  let path ← required? Path.ofJson? "path" fields
  let process ← required? Entity.listOfJson? "process" fields
  let functions ← required? (list? Function.ofJson?) "functions" fields
  let classes ← required? (list? Class.ofJson?) "classes" fields
  let constants ← required? (list? string?) "constants" fields
  let imports ← required? (list? ImportRecord.ofJson?) "imports" fields
  let gaps ← defaulted? (list? CoverageGap.ofJson?) [] "gaps" fields
  return ⟨path, process, functions, classes, constants, imports, gaps⟩

/-! ## Settings -/

/-- Settings of which each may be missing, and then has its default. -/
def Settings.ofJson? (value : Json) : Option Settings := do
  let fields ←
    record? ["entry_guard_token", "entry_guard_literal", "constructor_names", "self_name", "exclude"] 0
      value
  let token ← defaulted? string? default.entryGuardToken "entry_guard_token" fields
  let literal ← defaulted? string? default.entryGuardLiteral "entry_guard_literal" fields
  let constructors ←
    defaulted? (list? string?) default.constructorNames "constructor_names" fields
  let selfName ← defaulted? string? default.selfName "self_name" fields
  let exclude ← defaulted? (list? string?) default.exclude "exclude" fields
  return ⟨token, literal, constructors, selfName, exclude⟩

end EntityGraph
