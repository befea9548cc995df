import EntityGraph.Graph.Reference

/-!
# Entities

What the statements of a program do, in the order in which they do it.

* `Entity` is a call, a binding of targets, or a conditional over further entities;
* `Target` is what a binding binds, `Variable` the binding;
* `Entity.hasCall` tells whether a call occurs in an entity, `Entity.count` how many entities it is
  together with those inside it.
-/

namespace EntityGraph

inductive Target where
  | name (id : String)
  | attribute (owner attr : String)
  | subscript (base : List Reference) (index : Option (List Reference))

/-- The targets of a binding, with the references of the value that they share. -/
structure Variable where
  targets : List Target
  pointsTo : List Reference
  line : Nat

inductive Entity where
  | call (call : Call)
  | binding (bound : Variable)
  | logic (kind : ConditionKind) (condition : Option (List Reference)) (process : List Entity)
    (elseBranch : Option (List Entity)) (line : Nat)

def Target.name? : Target → Option String
  | .name id => some id
  | _ => none

def Variable.targetNames (bound : Variable) : List String :=
  bound.targets.filterMap Target.name?

namespace Entity

def call? : Entity → Option Call
  | .call made => some made
  | _ => none

def binding? : Entity → Option Variable
  | .binding bound => some bound
  | _ => none

mutual

def hasCall : Entity → Bool
  | .call _ => true
  | .binding bound => Reference.anyHasCall bound.pointsTo
  | .logic _ condition process elseBranch _ =>
    Reference.anyHasCallIn condition || anyHasCall process || anyHasCallIn elseBranch

def anyHasCall : List Entity → Bool
  | [] => false
  | entity :: rest => hasCall entity || anyHasCall rest

/-- An absent branch has no calls. -/
def anyHasCallIn : Option (List Entity) → Bool
  | none => false
  | some entities => anyHasCall entities

end

mutual

/-- The number of entities: the entity itself and those inside it, at every depth. -/
def count : Entity → Nat
  | .call _ => 1
  | .binding _ => 1
  | .logic _ _ process elseBranch _ => 1 + countAll process + countIn elseBranch

def countAll : List Entity → Nat
  | [] => 0
  | entity :: rest => count entity + countAll rest

/-- An absent branch has no entities. -/
def countIn : Option (List Entity) → Nat
  | none => 0
  | some entities => countAll entities

end

end Entity

end EntityGraph
