import EntityGraph.Graph.Symbols
import Mathlib.Data.List.Induction

/-!
# Declarations by name

A declaration is found by its name in two ways: by a search from the front, and in the map of all symbols.
The search finds the first declaration of a name and the map has the last, so that the two agree exactly
where these are the same.

* `SymbolMap.get?_insert`, `SymbolMap.get?_ofList`: of several values for a name the last one stays;
* `Class.methodsNamed`, `File.functionsNamed`, `File.classesNamed`: all declarations of a name;
* `get?_symbols`: what the maps have for a name;
* `File.symbols_lookup_iff`: when the search agrees with the maps;
* `File.symbols_lookup_redefined`: of a function that is defined twice they find different definitions.
-/

namespace EntityGraph

/-! ## Maps -/

namespace SymbolMap

variable {α : Type}

theorem get?_cons (key name : String) (value : α) (rest : SymbolMap α) :
    get? key ((name, value) :: rest) = if key = name then some value else get? key rest := by
  rw [get?, List.lookup_cons]
  by_cases h : key = name
  · simp [h]
  · rw [beq_false_of_ne h, if_neg h]
    rfl

theorem get?_insert (key name : String) (value : α) (map : SymbolMap α) :
    get? key (insert name value map) = if key = name then some value else get? key map := by
  induction map with
  | nil => rw [insert, get?_cons]
  | cons entry rest ih =>
    obtain ⟨first, old⟩ := entry
    rw [insert, get?_cons]
    split
    · next heq =>
      rw [get?_cons, heq]
      split <;> rfl
    · next hne =>
      split
      · rw [get?_cons, get?_cons]
      · rw [get?_cons, ih]
        -- The name is inserted further back, and cannot be the first one.
        by_cases h : key = first
        · rw [if_pos h, if_pos h, if_neg (h ▸ hne)]
        · rw [if_neg h, if_neg h]

/-- Of the values for a name, the last one is in the map. -/
theorem get?_ofList (entries : List (String × α)) (key : String) :
    get? key (ofList entries) = (entries.filter (·.1 = key)).getLast?.map Prod.snd := by
  induction entries using List.reverseRecOn with
  | nil => rfl
  | append_singleton entries entry ih =>
    rw [ofList, List.foldl_append, List.foldl_cons, List.foldl_nil, get?_insert, ← ofList, ih,
      List.filter_append]
    by_cases h : key = entry.1
    · simp [h]
    · simp [h, Ne.symm h]

/-- The map of declarations has the last one of each name. -/
theorem get?_ofList_map (name : α → String) (declared : List α) (key : String) :
    get? key (ofList (declared.map fun x => (name x, x))) =
      (declared.filter (name · = key)).getLast? := by
  rw [get?_ofList, List.filter_map, List.getLast?_map, Option.map_map]
  exact Option.map_id'

end SymbolMap

/-! ## Declarations of a name -/

/-- The methods of a name, as they are defined. -/
def Class.methodsNamed (declared : Class) (name : String) : List Function :=
  declared.methods.filter (·.name = name)

namespace File

variable (file : File) (name : String)

def functionsNamed : List Function :=
  file.functions.filter (·.name = name)

def classesNamed : List Class :=
  file.classes.filter (·.name = name)

/-- The declaration that a search by name finds: a class, or a function if there is no such class. -/
def found? : Option SymbolRef :=
  ((file.class? name).map .classSymbol).or ((file.function? name).map .functionSymbol)

end File

open SymbolMap (get?)

theorem Class.get?_symbols (declared : Class) (name : String) :
    get? name declared.symbols = (declared.methodsNamed name).getLast? :=
  SymbolMap.get?_ofList_map Function.name declared.methods name

theorem Class.method?_eq (declared : Class) (name : String) :
    declared.method? name = (declared.methodsNamed name).head? := by
  rw [method?, methodsNamed, List.head?_filter]

namespace File

variable (file : File) (name : String)

theorem get?_symbols :
    get? name (file.symbols none) =
      ((file.classesNamed name).getLast?.map .classSymbol).or
        ((file.functionsNamed name).getLast?.map .functionSymbol) := by
  rw [symbols, List.filter_eq_self.mpr fun _ _ => rfl, SymbolMap.get?_ofList_map, allSymbols,
    List.filter_append, List.getLast?_append, List.filter_map, List.filter_map, List.getLast?_map,
    List.getLast?_map]
  rfl

theorem found?_eq :
    file.found? name =
      ((file.classesNamed name).head?.map .classSymbol).or
        ((file.functionsNamed name).head?.map .functionSymbol) := by
  rw [found?, class?, function?, classesNamed, functionsNamed, List.head?_filter, List.head?_filter]

/-- The map agrees with the search if the last class of the name is the first one too; if there is no class,
its last function has to be the first. -/
theorem get?_symbols_eq_found?_iff :
    get? name (file.symbols none) = file.found? name ↔
      (file.classesNamed name).getLast? = (file.classesNamed name).head? ∧
        (file.classesNamed name = [] →
          (file.functionsNamed name).getLast? = (file.functionsNamed name).head?) := by
  have hfunction : Function.Injective SymbolRef.functionSymbol := fun _ _ => SymbolRef.functionSymbol.inj
  rw [get?_symbols, found?_eq]
  cases file.classesNamed name with
  | nil => simp [(Option.map_injective hfunction).eq_iff]
  | cons first rest => simp [List.getLast?_cons]

end File

/-- The map of all symbols has the last class of a name, or the last function if there is no class, and has
nothing for a name exactly if a search by name finds neither. It agrees with the search exactly if the
last declaration it has is also the first of its name, and so does the map of the methods of a class. -/
theorem File.symbols_lookup_iff (file : File) (declared : Class) (name : String) :
    (get? name (file.symbols none) =
        ((file.classesNamed name).getLast?.map .classSymbol).or
          ((file.functionsNamed name).getLast?.map .functionSymbol) ∧
      (get? name (file.symbols none) = none ↔ file.class? name = none ∧ file.function? name = none) ∧
      (get? name (file.symbols none) =
          ((file.class? name).map .classSymbol).or ((file.function? name).map .functionSymbol) ↔
        (file.classesNamed name).getLast? = (file.classesNamed name).head? ∧
          (file.classesNamed name = [] →
            (file.functionsNamed name).getLast? = (file.functionsNamed name).head?))) ∧
    get? name declared.symbols = (declared.methodsNamed name).getLast? ∧
      (get? name declared.symbols = none ↔ declared.method? name = none) ∧
      (get? name declared.symbols = declared.method? name ↔
        (declared.methodsNamed name).getLast? = (declared.methodsNamed name).head?) := by
  have hnone : get? name (file.symbols none) = none ↔
      file.class? name = none ∧ file.function? name = none := by
    rw [get?_symbols, class?, function?, ← List.head?_filter, ← List.head?_filter]
    simp [classesNamed, functionsNamed]
  refine ⟨⟨file.get?_symbols name, hnone, file.get?_symbols_eq_found?_iff name⟩,
    declared.get?_symbols name, ?_, ?_⟩
  · rw [declared.get?_symbols, declared.method?_eq]
    simp
  · rw [declared.get?_symbols, declared.method?_eq]

/-- A function without parameters that does nothing. -/
def sampleDefinition (name : String) (line : Nat) : Function :=
  ⟨name, line, none, [], [], [], false⟩

/-- A file that defines the function `f` twice, and a class that defines the method `x` twice. -/
def sampleRedefined : File :=
  ⟨⟨"m.py"⟩, [], [sampleDefinition "f" 1, sampleDefinition "f" 3],
    [⟨"C", 5, [], [sampleDefinition "x" 6, sampleDefinition "x" 8], []⟩], [], [], []⟩

theorem File.symbols_lookup_redefined :
    sampleRedefined.class? "f" = none ∧
      get? "f" (sampleRedefined.symbols none) ≠
        (sampleRedefined.function? "f").map .functionSymbol ∧
      (get? "f" (sampleRedefined.symbols none)).map SymbolRef.line = some 3 ∧
      (sampleRedefined.function? "f").map Function.line = some 1 ∧
      sampleRedefined.classes.map (fun declared => (get? "x" declared.symbols).map Function.line) =
        [some 8] ∧
      sampleRedefined.classes.map (fun declared => (declared.method? "x").map Function.line) =
        [some 6] := by
  refine ⟨by decide, fun heq => ?_, by decide, by decide, by decide, by decide⟩
  have hline := congrArg (Option.map SymbolRef.line) heq
  revert hline
  decide

end EntityGraph
