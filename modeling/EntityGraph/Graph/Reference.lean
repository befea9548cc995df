/-!
# References

What the expressions of a program refer to, in the order in which they say it.

* `Reference` is a name, an attribute of a receiver, a call, a conditional, or the kind of an
  expression that is not looked into;
* `Receiver` is what stands before the dot of an attribute;
* `Call` is a call, with the references among its arguments;
* `Reference.hasCall` tells whether a call occurs in a reference outside the arguments of calls.
-/

namespace EntityGraph

/-- The statements and expressions that decide what runs. -/
inductive ConditionKind where
  | ifThen
  | tryBlock
  | whileLoop
  | ifExp
  deriving DecidableEq

def ConditionKind.text : ConditionKind → String
  | .ifThen => "if"
  | .tryBlock => "try"
  | .whileLoop => "while"
  | .ifExp => "ifExp"

mutual

inductive Reference where
  | name (id : String)
  | attribute (owner : Receiver) (attr : String)
  | call (call : Call)
  | logic (kind : ConditionKind) (condition : Option (List Reference)) (process : List Reference)
    (elseBranch : Option (List Reference)) (line : Nat)
  | unmodeled (kind : String)

/-- What an attribute is taken of; it is absent where a call cannot be resolved. -/
inductive Receiver where
  | one (reference : Reference)
  | many (references : List Reference)
  | absent

/-- A call by name, qualified by its owner if the name is an attribute. -/
structure Call where
  name : String
  line : Nat
  owner : Option String
  takenVar : List Reference

end

def Call.isQualified (call : Call) : Bool :=
  call.owner.isSome

namespace Reference

def name? : Reference → Option String
  | .name id => some id
  | _ => none

def call? : Reference → Option Call
  | .call made => some made
  | _ => none

mutual

def hasCall : Reference → Bool
  | .name _ => false
  | .attribute owner _ => receiverHasCall owner
  | .call _ => true
  | .logic _ condition process elseBranch _ =>
    anyHasCallIn condition || anyHasCall process || anyHasCallIn elseBranch
  | .unmodeled _ => false

def receiverHasCall : Receiver → Bool
  | .one reference => hasCall reference
  | .many references => anyHasCall references
  | .absent => false

def anyHasCall : List Reference → Bool
  | [] => false
  | reference :: rest => hasCall reference || anyHasCall rest

/-- An absent list has no calls. -/
def anyHasCallIn : Option (List Reference) → Bool
  | none => false
  | some references => anyHasCall references

end

end Reference

end EntityGraph
