import EntityGraph.Graph.Entity
import EntityGraph.Program.Expr

/-!
# Declarations

* `Output` describes a value that a function returns, `Function` and `Class` what is declared;
* `Function.calls` are the calls that a function makes directly;
* `Class.method?` is the first method of a name.
-/

namespace EntityGraph

/-- A returned value, decomposed; `dumped` is the dump of an expression that is not. -/
inductive Output where
  | name (id : String)
  | constant (value : Constant)
  | dumped (dump : String)
  | group (items : List Output)
  | pair (first second : List Output)
  | binOp (left right : List Output)

structure Function where
  name : String
  line : Nat
  docstring : Option String
  inputs : List String
  outputs : List Output
  process : List Entity
  isAsync : Bool

structure Class where
  name : String
  line : Nat
  superclasses : List String
  methods : List Function
  attributes : List String

def Function.calls (function : Function) : List Call :=
  function.process.filterMap Entity.call?

def Class.method? (declared : Class) (name : String) : Option Function :=
  declared.methods.find? (·.name = name)

end EntityGraph
