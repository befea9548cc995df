import EntityGraph.Text.Utf8

/-!
# Concrete trees

A concrete tree is what a parser makes of a source: every token and every phrase is a node with a
kind, a range of the source's bytes and, often, a field name that tells its part in the phrase above.
Some nodes are extra: they stand anywhere (comments, pieces skipped in a faulty source) and belong to
no phrase, unless a field names them.

* `Label` is a node without its children, `Node` the tree;
* `items` are the named children that are not extra, `parts` all children that are not extra;
* `child?` and `childrenAt` find children by field;
* `withoutExtras` leaves out all extra nodes without a field, at every depth;
* `ofPreorder?` builds the tree from its labels in preorder.
-/

namespace EntityGraph.Concrete

structure Label where
  kind : String
  field : Option String
  named : Bool
  extra : Bool
  missing : Bool
  /-- The bytes of the source from `start` up to `stop`. -/
  start : Nat
  stop : Nat
  /-- The row of the first byte, the first row of the source being 0. -/
  row : Nat
  deriving DecidableEq

structure Node where
  label : Label
  children : List Node

namespace Label

/-- The line of the first byte, the first line of the source being 1. -/
def line (label : Label) : Nat :=
  label.row + 1

def isItem (label : Label) : Bool :=
  label.named && !label.extra

def text (source : ByteArray) (label : Label) : String :=
  Text.slice source label.start label.stop

end Label

/-! ## Children -/

def items (children : List Node) : List Node :=
  children.filter (·.label.isItem)

def parts (children : List Node) : List Node :=
  children.filter (!·.label.extra)

/-- The first child with the field, extra or not. -/
def child? (field : String) (children : List Node) : Option Node :=
  children.find? (·.label.field = some field)

def childrenAt (field : String) (children : List Node) : List Node :=
  children.filter (·.label.field = some field)

def hasPart (kind : String) (children : List Node) : Bool :=
  (parts children).any (·.label.kind = kind)

/-- The text of the first child with the field. -/
def text? (source : ByteArray) (field : String) (children : List Node) : Option String :=
  (child? field children).map (·.label.text source)

/-! ## Extra nodes -/

/-- Whether the node belongs to no phrase at all. -/
def Label.isStray (label : Label) : Bool :=
  label.extra && label.field.isNone

mutual

def Node.withoutExtras : Node → Node
  | ⟨label, children⟩ => ⟨label, withoutExtrasAll children⟩

def withoutExtrasAll : List Node → List Node
  | [] => []
  | node :: rest =>
    if node.label.isStray then withoutExtrasAll rest else node.withoutExtras :: withoutExtrasAll rest

end

/-! ## Preorder -/

mutual

/-- The labels of a tree in preorder, each with the number of its children. -/
def Node.preorder : Node → List (Label × Nat)
  | ⟨label, children⟩ => (label, children.length) :: preorderAll children

def preorderAll : List Node → List (Label × Nat)
  | [] => []
  | node :: rest => node.preorder ++ preorderAll rest

end

/-- Reads the labels from right to left: the trees that begin at each place, the children of a node
being the trees that follow its label. -/
def forestOfPreorder? : List (Label × Nat) → Option (List Node)
  | [] => some []
  | (label, count) :: rest =>
    match forestOfPreorder? rest with
    | none => none
    | some trees =>
      let children := trees.take count
      if children.length = count then some (⟨label, children⟩ :: trees.drop count) else none

/-- The tree with these labels in preorder, if there is exactly one. -/
def Node.ofPreorder? (labels : List (Label × Nat)) : Option Node :=
  match forestOfPreorder? labels with
  | some [tree] => some tree
  | _ => none

/-- What a parser makes of a source: the tree, and whether any of the source did not fit. -/
structure Tree where
  root : Node
  hasError : Bool

end EntityGraph.Concrete
