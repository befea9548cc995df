/-!
# Settings

What a project can decide about extraction: how its entry guard reads, which methods construct, what
a method calls its object, and which files are left out.
-/

namespace EntityGraph

structure Settings where
  entryGuardToken : String
  entryGuardLiteral : String
  constructorNames : List String
  selfName : String
  exclude : List String
  deriving DecidableEq

namespace Settings

def default : Settings where
  entryGuardToken := "__name__"
  entryGuardLiteral := "main"
  constructorNames := ["__init__", "__new__"]
  selfName := "self"
  exclude := []

def isConstructor (settings : Settings) (name : String) : Bool :=
  settings.constructorNames.contains name

end Settings

end EntityGraph
