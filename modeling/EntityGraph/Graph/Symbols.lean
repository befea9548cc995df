import EntityGraph.Graph.File

/-!
# Symbols

The declarations of a file by name.

* `SymbolMap` holds one value a name, in the order of the names; `SymbolMap.insert` replaces the
  value of a name that is there;
* `File.allSymbols` lists all functions, then all classes; `File.symbols` maps their names, where a
  later one of the same name replaces an earlier one;
* `Class.symbols` does the same for methods.
-/

namespace EntityGraph

/-- Values by name, the names in increasing order. -/
abbrev SymbolMap (α : Type) :=
  List (String × α)

namespace SymbolMap

variable {α : Type}

/-- The map with a value for the name, in place of the one before. -/
def insert (name : String) (value : α) : SymbolMap α → SymbolMap α
  | [] => [(name, value)]
  | (key, old) :: rest =>
    if key = name then (name, value) :: rest
    else if name < key then (name, value) :: (key, old) :: rest
    else (key, old) :: insert name value rest

/-- The map of the values, inserted from left to right. -/
def ofList (entries : List (String × α)) : SymbolMap α :=
  entries.foldl (fun map (name, value) => insert name value map) []

def get? (name : String) (map : SymbolMap α) : Option α :=
  map.lookup name

end SymbolMap

/-- A top-level declaration. -/
inductive SymbolRef where
  | functionSymbol (declared : Function)
  | classSymbol (declared : Class)

namespace SymbolRef

def name : SymbolRef → String
  | .functionSymbol f => f.name
  | .classSymbol c => c.name

def line : SymbolRef → Nat
  | .functionSymbol f => f.line
  | .classSymbol c => c.line

end SymbolRef

def File.allSymbols (file : File) : List SymbolRef :=
  file.functions.map .functionSymbol ++ file.classes.map .classSymbol

/-- The symbols by name, of the names in `filter` only if there is one. -/
def File.symbols (file : File) (filter : Option (List String)) : SymbolMap SymbolRef :=
  let chosen := file.allSymbols.filter fun symbol =>
    match filter with
    | none => true
    | some names => names.contains symbol.name
  .ofList (chosen.map fun symbol => (symbol.name, symbol))

def Class.symbols (declared : Class) : SymbolMap Function :=
  .ofList (declared.methods.map fun method => (method.name, method))

end EntityGraph
