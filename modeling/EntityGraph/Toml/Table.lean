/-!
# Values and tables of TOML

* `Value` is a value of a document, `Table` a table with what is known of how it came about;
* `Table.descend` changes the table that a path leads to, and makes the tables on the way;
* `Table.addPair` sets a key, `Table.openTable` and `Table.openArray` enter what a header names.

A table is defined once. A table that was only mentioned on the way to another is implicit and may
still be defined; one that came about by dotted keys may only get further dotted keys.
-/

namespace EntityGraph.Toml

mutual

/-- A value. Numbers and dates are only checked, so nothing is kept of them. -/
inductive Value where
  | string (text : String)
  | bool (value : Bool)
  | number
  | date
  | array (items : List Value)
  | inline (table : Table)

inductive Item where
  | value (value : Value)
  | table (table : Table)
  | tables (tables : List Table)

inductive Table where
  | mk (implicit dotted : Bool) (entries : List (String × Item))

end

namespace Table

def empty : Table :=
  .mk false false []

def implicit : Table → Bool
  | .mk implicit _ _ => implicit

def dotted : Table → Bool
  | .mk _ dotted _ => dotted

def entries : Table → List (String × Item)
  | .mk _ _ entries => entries

def get? (key : String) (table : Table) : Option Item :=
  table.entries.lookup key

def set (key : String) (item : Item) : Table → Table
  | .mk implicit dotted entries => .mk implicit dotted ((key, item) :: entries.filter (·.1 ≠ key))

/-- The table with the one that the path leads to changed. A path of dotted keys passes through
implicit tables only; in an array of tables it leads on from the last. -/
def descend (byDots : Bool) (change : Table → Option Table) : List String → Table → Option Table
  | [], table => change table
  | key :: path, table =>
    match table.get? key with
    | none => do
      let child ← descend byDots change path (.mk true byDots [])
      return table.set key (.table child)
    | some (.value _) => none
    | some (.tables tables) => do
      let last ← tables.getLast?
      let child ← descend byDots change path last
      return table.set key (.tables (tables.dropLast ++ [child]))
    | some (.table child) =>
      if byDots && !child.implicit then none
      else do
        let child ← descend byDots change path child
        return table.set key (.table child)

/-- The table with a value for a key that it does not have. A key after dots goes into a table that
came about by dots, and no other does. -/
def insert? (afterDots : Bool) (key : String) (value : Value) (table : Table) : Option Table :=
  if table.dotted ≠ afterDots then none
  else
    match table.get? key with
    | some _ => none
    | none => some (table.set key (.value value))

/-- The table with a value for a dotted key. -/
def addPair (table : Table) (path : List String) (value : Value) : Option Table :=
  match path.getLast? with
  | none => none
  | some key =>
    let path := path.dropLast
    table.descend true (insert? (!path.isEmpty) key value) path

def addPairs (table : Table) : List (List String × Value) → Option Table
  | [] => some table
  | (path, value) :: rest => (table.addPair path value).bind fun table => table.addPairs rest

/-- The table with the one of this name defined by these pairs, unless it is defined already. -/
def define (key : String) (pairs : List (List String × Value)) (table : Table) : Option Table :=
  let start :=
    match table.get? key with
    | none => some empty
    | some (.table (.mk true false entries)) => some (.mk false false entries)
    | some _ => none
  start.bind fun start => (start.addPairs pairs).map fun defined => table.set key (.table defined)

/-- The table with one more element, made of these pairs, in the array of tables of this name. -/
def append (key : String) (pairs : List (List String × Value)) (table : Table) : Option Table :=
  let before :=
    match table.get? key with
    | none => some []
    | some (.tables tables) => some tables
    | some _ => none
  before.bind fun before =>
    (empty.addPairs pairs).map fun last => table.set key (.tables (before ++ [last]))

/-- The table with what a header of this path begins: a table, or an element of an array. -/
def addSection (table : Table) (isArray : Bool) (path : List String)
    (pairs : List (List String × Value)) : Option Table :=
  match path.getLast? with
  | none => none
  | some key => table.descend false (if isArray then append key pairs else define key pairs) path.dropLast

end Table

end EntityGraph.Toml
