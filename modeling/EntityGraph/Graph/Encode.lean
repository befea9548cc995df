import EntityGraph.Graph.File
import EntityGraph.Json.Basic
import EntityGraph.Settings

/-!
# Written form of entity graphs

`toJson` of each type writes its values. An alternative is an object whose only member is named for
it; fields come in the order of the record; what is absent is null, or left out where the form says
so. Import records and gaps name their alternative in their first member.
-/

namespace EntityGraph

/-- An object with one member. -/
def Json.tag (name : String) (value : Json) : Json :=
  .object [(name, value)]

def Json.ofStrings (texts : List String) : Json :=
  .array (texts.map .string)

/-- Null stands for what is absent. -/
def Json.ofOption : Option Json → Json
  | none => .null
  | some value => value

/-! ## References -/

def ConditionKind.toJson (kind : ConditionKind) : Json :=
  .string kind.text

mutual

def Reference.toJson : Reference → Json
  | .name id => .tag "name" (.string id)
  | .attribute owner attr => .tag "attribute" (.object [("owner", owner.toJson), ("attr", .string attr)])
  | .call made => .tag "call" made.toJson
  | .logic kind condition process elseBranch line =>
    .tag "logic" (.object
      [("kind", kind.toJson), ("condition", Reference.optionToJson condition),
        ("process", .array (Reference.listToJson process)),
        ("else_branch", Reference.optionToJson elseBranch), ("line", .nat line)])
  | .unmodeled kind => .tag "unmodeled" (.string kind)

def Receiver.toJson : Receiver → Json
  | .one reference => .tag "one" reference.toJson
  | .many references => .tag "many" (.array (Reference.listToJson references))
  | .absent => .string "absent"

def Call.toJson : Call → Json
  | ⟨name, line, owner, takenVar⟩ =>
    .object
      [("name", .string name), ("line", .nat line), ("owner", .ofOption (owner.map .string)),
        ("taken_var", .array (Reference.listToJson takenVar))]

def Reference.listToJson : List Reference → List Json
  | [] => []
  | reference :: rest => reference.toJson :: Reference.listToJson rest

def Reference.optionToJson : Option (List Reference) → Json
  | none => .null
  | some references => .array (Reference.listToJson references)

end

/-! ## Entities -/

def Target.toJson : Target → Json
  | .name id => .tag "name" (.string id)
  | .attribute owner attr =>
    .tag "attribute" (.object [("owner", .string owner), ("attr", .string attr)])
  | .subscript base index =>
    .tag "subscript" (.object
      [("base", .array (Reference.listToJson base)), ("index", Reference.optionToJson index)])

def Variable.toJson (bound : Variable) : Json :=
  .object
    [("targets", .array (bound.targets.map Target.toJson)),
      ("points_to", .array (Reference.listToJson bound.pointsTo)), ("line", .nat bound.line)]

mutual

def Entity.toJson : Entity → Json
  | .call made => .tag "call" made.toJson
  | .binding bound => .tag "variable" bound.toJson
  | .logic kind condition process elseBranch line =>
    .tag "logic" (.object
      [("kind", kind.toJson), ("condition", Reference.optionToJson condition),
        ("process", .array (Entity.listToJson process)),
        ("else_branch", Entity.optionToJson elseBranch), ("line", .nat line)])

def Entity.listToJson : List Entity → List Json
  | [] => []
  | entity :: rest => entity.toJson :: Entity.listToJson rest

def Entity.optionToJson : Option (List Entity) → Json
  | none => .null
  | some entities => .array (Entity.listToJson entities)

end

/-! ## Declarations -/

/-- A literal as the plain value nearest to it, so that numbers become texts. -/
def Constant.toJson : Constant → Json
  | .bool value => .bool value
  | .str text => .string text
  | .number spelling => .string spelling
  | .bytes content => .array (content.map fun b => .nat b.toNat)
  | .ellipsis => .string "..."
  | .none => .null

mutual

def Output.toJson : Output → Json
  | .name id => .tag "name" (.string id)
  | .constant value => .tag "constant" value.toJson
  | .dumped dump => .tag "opaque" (.string dump)
  | .group items => .tag "group" (.array (Output.listToJson items))
  | .pair first second =>
    .tag "pair" (.array [.array (Output.listToJson first), .array (Output.listToJson second)])
  | .binOp left right =>
    .tag "bin_op" (.array [.array (Output.listToJson left), .array (Output.listToJson right)])

def Output.listToJson : List Output → List Json
  | [] => []
  | output :: rest => output.toJson :: Output.listToJson rest

end

/-- A member that is left out if there is no value. -/
def Json.memberOf (name : String) (value : Option Json) : List (String × Json) :=
  (value.map fun value => (name, value)).toList

def Function.toJson (function : Function) : Json :=
  .object
    ([("name", .string function.name), ("line", .nat function.line)] ++
      Json.memberOf "docstring" (function.docstring.map .string) ++
      [("inputs", .ofStrings function.inputs),
        ("outputs", .array (Output.listToJson function.outputs)),
        ("process", .array (Entity.listToJson function.process)),
        ("is_async", .bool function.isAsync)])

def Class.toJson (declared : Class) : Json :=
  .object
    [("name", .string declared.name), ("line", .nat declared.line),
      ("superclasses", .ofStrings declared.superclasses),
      ("methods", .array (declared.methods.map Function.toJson)),
      ("attributes", .ofStrings declared.attributes)]

/-! ## Files -/

def ImportedName.toJson (name : ImportedName) : Json :=
  .object (("name", .string name.name) :: Json.memberOf "alias" (name.asname.map .string))

def ImportRecord.toJson : ImportRecord → Json
  | .resolved path names =>
    .object
      [("status", .string "resolved"), ("path", .string path.text),
        ("names", .array (names.map ImportedName.toJson))]
  | .unresolved module names =>
    .object
      [("status", .string "unresolved"), ("module", .string module),
        ("names", .array (names.map ImportedName.toJson))]

def CoverageGap.toJson : CoverageGap → Json
  | .nestedClass outer name line =>
    .object
      [("gap", .string "nested_class"), ("class", .string outer), ("name", .string name),
        ("line", .nat line)]

def File.toJson (file : File) : Json :=
  .object
    ([("path", .string file.path.text), ("process", .array (Entity.listToJson file.process)),
        ("functions", .array (file.functions.map Function.toJson)),
        ("classes", .array (file.classes.map Class.toJson)), ("constants", .ofStrings file.constants),
        ("imports", .array (file.imports.map ImportRecord.toJson))] ++
      Json.memberOf "gaps"
        (if file.gaps.isEmpty then none else some (.array (file.gaps.map CoverageGap.toJson))))

/-! ## Settings -/

def Settings.toJson (settings : Settings) : Json :=
  .object
    [("entry_guard_token", .string settings.entryGuardToken),
      ("entry_guard_literal", .string settings.entryGuardLiteral),
      ("constructor_names", .ofStrings settings.constructorNames),
      ("self_name", .string settings.selfName), ("exclude", .ofStrings settings.exclude)]

end EntityGraph
