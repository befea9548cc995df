import EntityGraph.Graph.Decode
import EntityGraph.Graph.Encode
import EntityGraph.Proofs.Graph.Renumber
import EntityGraph.Proofs.Program.Renumber

/-!
# Graphs that are written and read back

Everything in a graph comes back as it was written but for two kinds of literals: a number and an
ellipsis are written as the texts that they are spelled by, and come back as texts. `reread` of each
type says so. Lines are read back up to 64 bits, so they are cut to words first.

* `File.ofJson?_toJson`: a file is read back, with texts in place of numbers and ellipses;
* `File.reread_eq_self_iff`: nothing changes exactly if no function returns a number or an ellipsis.
-/

namespace EntityGraph

open Json (string? bool? word? byte? list? required? optional? defaulted? get?)

/-! ## What comes back -/

/-- The literal that is read where this one was written. -/
def Constant.reread : Constant → Constant
  | .number spelling => .str spelling
  | .ellipsis => .str "..."
  | value => value

/-- Numbers and ellipses have no written form of their own. -/
def Constant.isPlain : Constant → Bool
  | .number _ | .ellipsis => false
  | _ => true

theorem Constant.reread_eq_self_iff (value : Constant) :
    value.reread = value ↔ value.isPlain = true := by
  cases value <;> simp [reread, isPlain]

namespace Output

mutual

def reread : Output → Output
  | .constant value => .constant value.reread
  | .group items => .group (rereadAll items)
  | .pair first second => .pair (rereadAll first) (rereadAll second)
  | .binOp left right => .binOp (rereadAll left) (rereadAll right)
  | output => output

def rereadAll : List Output → List Output
  | [] => []
  | output :: rest => reread output :: rereadAll rest

end

mutual

/-- The literals in an output, from left to right. -/
def literals : Output → List Constant
  | .constant value => [value]
  | .group items => literalsOfAll items
  | .pair first second => literalsOfAll first ++ literalsOfAll second
  | .binOp left right => literalsOfAll left ++ literalsOfAll right
  | _ => []

def literalsOfAll : List Output → List Constant
  | [] => []
  | output :: rest => literals output ++ literalsOfAll rest

end

mutual

theorem reread_eq_self_iff :
    ∀ output : Output, output.reread = output ↔ ∀ value ∈ output.literals, value.isPlain = true
  | .name _ | .dumped _ => by simp [reread, literals]
  | .constant value => by simp [reread, literals, Constant.reread_eq_self_iff]
  | .group items => by simp [reread, literals, rereadAll_eq_self_iff items]
  | .pair first second | .binOp first second => by
    simp [reread, literals, rereadAll_eq_self_iff first, rereadAll_eq_self_iff second,
      or_imp, forall_and]

theorem rereadAll_eq_self_iff : ∀ outputs : List Output,
    rereadAll outputs = outputs ↔ ∀ value ∈ literalsOfAll outputs, value.isPlain = true
  | [] => by simp [rereadAll, literalsOfAll]
  | output :: rest => by
    simp [rereadAll, literalsOfAll, reread_eq_self_iff output, rereadAll_eq_self_iff rest, or_imp,
      forall_and]

end

end Output

def Function.reread (function : Function) : Function :=
  { function with outputs := Output.rereadAll function.outputs }

def Class.reread (declared : Class) : Class :=
  { declared with methods := declared.methods.map Function.reread }

def File.reread (file : File) : File :=
  { file with
    functions := file.functions.map Function.reread
    classes := file.classes.map Class.reread }

/-- The functions of the file, and the methods of its classes. -/
def File.allFunctions (file : File) : List Function :=
  file.functions ++ file.classes.flatMap Class.methods

/-- The literals that the functions of the file return. -/
def File.literals (file : File) : List Constant :=
  file.allFunctions.flatMap fun function => Output.literalsOfAll function.outputs

theorem Function.reread_eq_self_iff (function : Function) :
    function.reread = function ↔
      ∀ value ∈ Output.literalsOfAll function.outputs, value.isPlain = true := by
  rw [← Output.rereadAll_eq_self_iff]
  cases function
  simp [reread]

theorem map_eq_self_iff {α : Type} {f : α → α} {xs : List α} : xs.map f = xs ↔ ∀ x ∈ xs, f x = x := by
  have h := List.map_inj_left (f := f) (g := id) (l := xs)
  rwa [List.map_id] at h

theorem Class.reread_eq_self_iff (declared : Class) :
    declared.reread = declared ↔ ∀ method ∈ declared.methods, method.reread = method := by
  rw [← map_eq_self_iff]
  cases declared
  simp [reread]

/-- Reading changes nothing exactly if no function returns a number or an ellipsis. -/
theorem File.reread_eq_self_iff (file : File) :
    file.reread = file ↔ ∀ value ∈ file.literals, value.isPlain = true := by
  have hparts : file.reread = file ↔ (∀ function ∈ file.functions, function.reread = function) ∧
      ∀ declared ∈ file.classes, declared.reread = declared := by
    rw [← map_eq_self_iff, ← map_eq_self_iff]
    cases file
    simp [reread]
  rw [hparts]
  simp only [Class.reread_eq_self_iff, Function.reread_eq_self_iff, literals, allFunctions,
    List.flatMap_append, List.mem_append, List.mem_flatMap]
  constructor
  · rintro ⟨hf, hc⟩ value (⟨function, hm, hv⟩ | ⟨method, ⟨declared, hd, hm⟩, hv⟩)
    · exact hf function hm value hv
    · exact hc declared hd method hm value hv
  · intro h
    exact ⟨fun function hm value hv => h value (.inl ⟨function, hm, hv⟩),
      fun declared hd method hm value hv => h value (.inr ⟨method, ⟨declared, hd, hm⟩, hv⟩)⟩

/-! ## Values -/

theorem word?_toWord (line : Nat) : word? (.nat (toWord line)) = some (toWord line) :=
  if_pos (Nat.mod_lt _ (by decide))

/-- A list is read back if its items are. -/
theorem mapM_map {α β γ : Type} {read : β → Option γ} {write : α → β} {back : α → γ} {xs : List α}
    (h : ∀ x, read (write x) = some (back x)) : (xs.map write).mapM read = some (xs.map back) := by
  induction xs with
  | nil => rfl
  | cons x xs ih => simp [h, ih]

theorem list?_map {α γ : Type} {read : Json → Option γ} {write : α → Json} {back : α → γ}
    (h : ∀ x, read (write x) = some (back x)) (xs : List α) :
    list? read (.array (xs.map write)) = some (xs.map back) :=
  mapM_map h

theorem list?_map_self {α : Type} {read : Json → Option α} {write : α → Json}
    (h : ∀ x, read (write x) = some x) (xs : List α) : list? read (.array (xs.map write)) = some xs :=
  (list?_map h xs).trans (congrArg some (List.map_id xs))

theorem list?_ofStrings (texts : List String) : list? string? (.ofStrings texts) = some texts :=
  list?_map_self (fun _ => by rfl) texts

theorem byte?_toNat (b : UInt8) : byte? (.nat b.toNat) = some b := by
  rw [byte?, if_pos b.toNat_lt, UInt8.ofNat_toNat]

/-! ## References -/

theorem ConditionKind.ofJson?_toJson (kind : ConditionKind) :
    ConditionKind.ofJson? kind.toJson = some kind := by
  cases kind <;> rfl

mutual

/-- References have one written form each. -/
theorem Reference.ofJson?_toJson : ∀ reference : Reference,
    Reference.ofJson? (reference.renumber toWord).toJson = some (reference.renumber toWord)
  | .name _ | .unmodeled _ => rfl
  | .attribute owner _ => by
    simp [Reference.renumber, Reference.toJson, Json.tag, Reference.ofJson?,
      Reference.attributeOfJson?, Receiver.fieldOfJson?, required?, get?, string?,
      Receiver.ofJson?_toJson owner]
  | .call made => by
    simp [Reference.renumber, Reference.toJson, Json.tag, Reference.ofJson?, Call.ofJson?_toJson made]
  | .logic kind condition process elseBranch line => by
    simp [Reference.renumber, Reference.toJson, Json.tag, Reference.ofJson?, Reference.logicOfJson?,
      Reference.optionFieldOfJson?, Reference.listFieldOfJson?, Reference.listOfJson?, required?, get?,
      ConditionKind.ofJson?_toJson, word?_toWord, Reference.optionOfJson?_toJson condition,
      Reference.allOfJson?_toJson process, Reference.optionOfJson?_toJson elseBranch]

theorem Receiver.ofJson?_toJson : ∀ receiver : Receiver,
    Receiver.ofJson? (receiver.renumber toWord).toJson = some (receiver.renumber toWord)
  | .one reference => by
    simp [Receiver.renumber, Receiver.toJson, Json.tag, Receiver.ofJson?,
      Reference.ofJson?_toJson reference]
  | .many references => by
    simp [Receiver.renumber, Receiver.toJson, Json.tag, Receiver.ofJson?, Reference.listOfJson?,
      Reference.allOfJson?_toJson references]
  | .absent => rfl

theorem Call.ofJson?_toJson : ∀ made : Call,
    Call.ofJson? (made.renumber toWord).toJson = some (made.renumber toWord)
  | ⟨name, line, owner, takenVar⟩ => by
    cases owner <;>
      simp [Call.renumber, Call.toJson, Json.ofOption, Call.ofJson?, Reference.listFieldOfJson?,
        Reference.listOfJson?, required?, optional?, get?, string?, word?_toWord,
        Reference.allOfJson?_toJson takenVar]

theorem Reference.allOfJson?_toJson : ∀ references : List Reference,
    Reference.allOfJson? (Reference.listToJson (Reference.renumberAll toWord references)) =
      some (Reference.renumberAll toWord references)
  | [] => rfl
  | reference :: rest => by
    simp [Reference.renumberAll, Reference.listToJson, Reference.allOfJson?,
      Reference.ofJson?_toJson reference, Reference.allOfJson?_toJson rest]

theorem Reference.optionOfJson?_toJson : ∀ references : Option (List Reference),
    Reference.optionOfJson? (Reference.optionToJson (Reference.renumberIn toWord references)) =
      some (Reference.renumberIn toWord references)
  | none => rfl
  | some references => by
    simp [Reference.renumberIn, Reference.optionToJson, Reference.optionOfJson?,
      Reference.allOfJson?_toJson references]

end

/-! ## Entities -/

theorem Reference.allOfJson?_listToJson (references : List Reference) :
    Reference.allOfJson? (Reference.listToJson (references.map (Reference.renumber toWord))) =
      some (references.map (Reference.renumber toWord)) := by
  rw [← Reference.renumberAll_eq_map]
  exact Reference.allOfJson?_toJson references

theorem Target.ofJson?_toJson (target : Target) :
    Target.ofJson? (target.renumber toWord).toJson = some (target.renumber toWord) := by
  cases target with
  | name id => rfl
  | «attribute» owner attr => rfl
  | subscript base index =>
    cases index <;>
      simp [Target.renumber, Target.toJson, Json.tag, Target.ofJson?, Json.tagged?,
        Target.subscriptOfJson?, required?, optional?, get?, Reference.listOfJson?,
        Reference.optionToJson, Reference.allOfJson?_listToJson]

theorem Variable.ofJson?_toJson (bound : Variable) :
    Variable.ofJson? (bound.renumber toWord).toJson = some (bound.renumber toWord) := by
  have htargets := list?_map Target.ofJson?_toJson bound.targets
  simp [Variable.renumber, Variable.toJson, Variable.ofJson?, Json.record?, required?, get?,
    Reference.listOfJson?, Reference.allOfJson?_listToJson, word?_toWord, Function.comp_def, htargets]

mutual

theorem Entity.ofJson?_toJson : ∀ entity : Entity,
    Entity.ofJson? (entity.renumber toWord).toJson = some (entity.renumber toWord)
  | .call made => by
    simp [Entity.renumber, Entity.toJson, Json.tag, Entity.ofJson?, Call.ofJson?_toJson made]
  | .binding bound => by
    simp [Entity.renumber, Entity.toJson, Json.tag, Entity.ofJson?, Variable.ofJson?_toJson bound]
  | .logic kind condition process elseBranch line => by
    cases condition <;>
      simp [Entity.renumber, Entity.toJson, Json.tag, Entity.ofJson?, Entity.logicOfJson?,
        Entity.listFieldOfJson?, Entity.optionFieldOfJson?, Entity.listOfJson?, required?, optional?,
        get?, ConditionKind.ofJson?_toJson, word?_toWord, Reference.optionToJson,
        Reference.listOfJson?, Reference.allOfJson?_listToJson, Entity.allOfJson?_toJson process,
        Entity.optionOfJson?_toJson elseBranch]

theorem Entity.allOfJson?_toJson : ∀ entities : List Entity,
    Entity.allOfJson? (Entity.listToJson (Entity.renumberAll toWord entities)) =
      some (Entity.renumberAll toWord entities)
  | [] => rfl
  | entity :: rest => by
    simp [Entity.renumberAll, Entity.listToJson, Entity.allOfJson?, Entity.ofJson?_toJson entity,
      Entity.allOfJson?_toJson rest]

theorem Entity.optionOfJson?_toJson : ∀ entities : Option (List Entity),
    Entity.optionOfJson? (Entity.optionToJson (Entity.renumberIn toWord entities)) =
      some (Entity.renumberIn toWord entities)
  | none => rfl
  | some entities => by
    simp [Entity.renumberIn, Entity.optionToJson, Entity.optionOfJson?,
      Entity.allOfJson?_toJson entities]

end

theorem Entity.listOfJson?_toJson (entities : List Entity) :
    Entity.listOfJson? (.array (Entity.listToJson (entities.map (Entity.renumber toWord)))) =
      some (entities.map (Entity.renumber toWord)) := by
  rw [← Entity.renumberAll_eq_map]
  exact Entity.allOfJson?_toJson entities

/-! ## Declarations -/

theorem Constant.ofJson?_toJson (value : Constant) :
    Constant.ofJson? value.toJson = some value.reread := by
  cases value with
  | bytes content =>
    have h : (content.map fun b => Json.nat b.toNat).mapM byte? = some (content.map id) :=
      mapM_map byte?_toNat
    rw [List.map_id] at h
    simp [Constant.toJson, Constant.ofJson?, Constant.reread, h]
  | _ => rfl

mutual

theorem Output.ofJson?_toJson : ∀ output : Output, Output.ofJson? output.toJson = some output.reread
  | .name _ | .dumped _ => rfl
  | .constant value => by
    simp [Output.toJson, Json.tag, Output.ofJson?, Output.reread, Constant.ofJson?_toJson]
  | .group items => by
    simp [Output.toJson, Json.tag, Output.ofJson?, Output.reread, Output.listOfJson?,
      Output.allOfJson?_toJson items]
  | .pair first second | .binOp first second => by
    simp [Output.toJson, Json.tag, Output.ofJson?, Output.reread, Output.listOfJson?,
      Output.allOfJson?_toJson first, Output.allOfJson?_toJson second]

theorem Output.allOfJson?_toJson : ∀ outputs : List Output,
    Output.allOfJson? (Output.listToJson outputs) = some (Output.rereadAll outputs)
  | [] => rfl
  | output :: rest => by
    simp [Output.listToJson, Output.allOfJson?, Output.rereadAll, Output.ofJson?_toJson output,
      Output.allOfJson?_toJson rest]

end

theorem Function.ofJson?_toJson (function : Function) :
    Function.ofJson? (function.renumber toWord).toJson = some (function.renumber toWord).reread := by
  obtain ⟨name, line, docstring, inputs, outputs, process, isAsync⟩ := function
  cases docstring <;>
    simp [Function.renumber, Function.toJson, Function.ofJson?, Function.reread, Json.record?,
      Json.memberOf, required?, optional?, defaulted?, get?, string?, bool?, word?_toWord,
      list?_ofStrings, Output.listOfJson?, Output.allOfJson?_toJson, Entity.listOfJson?_toJson]

theorem Class.ofJson?_toJson (declared : Class) :
    Class.ofJson? (declared.renumber toWord).toJson = some (declared.renumber toWord).reread := by
  have hmethods := list?_map Function.ofJson?_toJson declared.methods
  simp [Class.renumber, Class.toJson, Class.ofJson?, Class.reread, Json.record?, required?, get?,
    string?, word?_toWord, list?_ofStrings, Function.comp_def, hmethods]

/-! ## Files -/

theorem ImportedName.ofJson?_toJson (name : ImportedName) :
    ImportedName.ofJson? name.toJson = some name := by
  obtain ⟨name, asname⟩ := name
  cases asname <;> rfl

theorem ImportRecord.ofJson?_toJson (record : ImportRecord) :
    ImportRecord.ofJson? record.toJson = some record := by
  have hnames : ∀ names : List ImportedName,
      list? ImportedName.ofJson? (.array (names.map ImportedName.toJson)) = some names :=
    list?_map_self ImportedName.ofJson?_toJson
  cases record <;>
    simp [ImportRecord.toJson, ImportRecord.ofJson?, Json.internallyTagged?, Json.record?, required?,
      get?, string?, Path.ofJson?, hnames]

theorem CoverageGap.ofJson?_toJson (gap : CoverageGap) :
    CoverageGap.ofJson? (gap.renumber toWord).toJson = some (gap.renumber toWord) := by
  cases gap
  simp [CoverageGap.renumber, CoverageGap.toJson, CoverageGap.ofJson?, Json.internallyTagged?,
    Json.record?, required?, get?, string?, word?_toWord]

/-- A file is read back, with texts in place of numbers and ellipses. -/
theorem File.ofJson?_toJson (file : File) :
    File.ofJson? (file.renumber toWord).toJson = some (file.renumber toWord).reread := by
  have hfunctions := list?_map Function.ofJson?_toJson file.functions
  have hclasses := list?_map Class.ofJson?_toJson file.classes
  have hgaps := list?_map CoverageGap.ofJson?_toJson file.gaps
  have himports : list? ImportRecord.ofJson? (.array (file.imports.map ImportRecord.toJson)) =
      some file.imports :=
    list?_map_self ImportRecord.ofJson?_toJson file.imports
  by_cases hempty : file.gaps = [] <;>
    simp [File.renumber, File.toJson, File.ofJson?, File.reread, Json.record?, Json.memberOf,
      required?, defaulted?, get?, string?, Path.ofJson?, list?_ofStrings, Entity.listOfJson?_toJson,
      Function.comp_def, hfunctions, hclasses, himports, hgaps, hempty]

end EntityGraph
