import EntityGraph.Text.Blank

/-!
# Paths

A path is kept as it was written. Its meaning goes by components: the pieces between slashes, without
empty ones and without `.`, except for a leading slash and a leading `.`.

* `components` and `normalNames` read a path, `fileName?` and `extension?` its last component;
* `push` appends a piece, `parent?` removes the last component, `setExtension` replaces the extension;
* `stripPrefix?` is the rest of a path below another;
* `Path.le` orders paths by their components.
-/

namespace EntityGraph

structure Path where
  text : String
  deriving DecidableEq

namespace Path

/-! ## Pieces -/

/-- The pieces of a text between slashes. -/
def split (text : String) : List String :=
  (Text.pieces (· == '/') text.toList).map String.ofList

/-- How a path begins: with a slash, with a piece `.`, or with neither. -/
inductive Start where
  | root
  | current
  | plain
  deriving DecidableEq

/-- The beginning of a path, and the pieces after it. -/
def opened (path : Path) : Start × List String :=
  match split path.text with
  | [] => (.plain, [])
  | [piece] => if piece = "." then (.current, []) else (.plain, [piece])
  | piece :: rest =>
    if piece = "" then (.root, rest) else if piece = "." then (.current, rest)
    else (.plain, piece :: rest)

/-- The path that begins so and has these pieces. -/
def ofPieces (start : Start) (pieces : List String) : Path :=
  match start, pieces with
  | .root, _ => ⟨"/" ++ "/".intercalate pieces⟩
  | .current, [] => ⟨"."⟩
  | .current, _ => ⟨"./" ++ "/".intercalate pieces⟩
  | .plain, _ => ⟨"/".intercalate pieces⟩

/-- Whether a piece says nothing: it is empty or `.`. -/
def isSilent (piece : String) : Bool :=
  piece == "" || piece == "."

/-- The pieces without those at the end that say nothing. -/
def trimPieces (pieces : List String) : List String :=
  (pieces.reverse.dropWhile isSilent).reverse

/-! ## Components -/

inductive Component where
  | root
  | current
  | parent
  | normal (name : String)
  deriving DecidableEq

def Component.ofPiece (piece : String) : Component :=
  if piece = ".." then .parent else .normal piece

def Start.components : Start → List Component
  | .root => [.root]
  | .current => [.current]
  | .plain => []

def components (path : Path) : List Component :=
  let (start, pieces) := path.opened
  start.components ++ (pieces.filter (!isSilent ·)).map Component.ofPiece

/-- The names in a path, without `/`, `.` and `..`. -/
def normalNames (path : Path) : List String :=
  path.components.filterMap fun
    | .normal name => some name
    | _ => none

def isAbsolute (path : Path) : Bool :=
  path.text.toList.head? == some '/'

/-! ## Order -/

def Component.rank : Component → Nat
  | .root => 0
  | .current => 1
  | .parent => 2
  | .normal _ => 3

def Component.le : Component → Component → Bool
  | .normal a, .normal b => a ≤ b
  | a, b => a.rank ≤ b.rank

/-- Lists in dictionary order. -/
def componentsLe : List Component → List Component → Bool
  | [], _ => true
  | _ :: _, [] => false
  | a :: as, b :: bs => if a = b then componentsLe as bs else a.le b

def le (a b : Path) : Bool :=
  componentsLe a.components b.components

/-! ## Building paths -/

/-- The path with a piece appended; a piece that begins with a slash replaces the path. -/
def push (path : Path) (piece : String) : Path :=
  if (Path.mk piece).isAbsolute then ⟨piece⟩
  else if path.text = "" ∨ path.text.toList.getLast? = some '/' then ⟨path.text ++ piece⟩
  else ⟨path.text ++ "/" ++ piece⟩

/-- The path without its last component. -/
def parent? (path : Path) : Option Path :=
  let (start, pieces) := path.opened
  match trimPieces pieces with
  | [] => if start = .current then some ⟨""⟩ else none
  | rest => some (ofPieces start (trimPieces rest.dropLast))

/-- The last component, if it is a name. -/
def fileName? (path : Path) : Option String :=
  match (trimPieces path.opened.2).getLast? with
  | none => none
  | some piece => if piece = ".." then none else some piece

/-- A file name cut at its last dot, unless that is its first character. -/
def cutName (name : String) : String × Option String :=
  match (Text.pieces (· == '.') name.toList).reverse with
  | [] | [_] | [_, []] => (name, none)
  | extension :: stem =>
    (".".intercalate (stem.reverse.map String.ofList), some (String.ofList extension))

def extension? (path : Path) : Option String :=
  path.fileName?.bind fun name => (cutName name).2

/-- The path with another extension. A path without a file name stays as it is, and what follows the
file name is dropped. -/
def setExtension (path : Path) (extension : String) : Path :=
  match path.fileName? with
  | none => path
  | some name =>
    let (start, pieces) := path.opened
    let name := (cutName name).1 ++ if extension = "" then "" else "." ++ extension
    ofPieces start ((trimPieces pieces).dropLast ++ [name])

/-! ## Paths below another -/

/-- The pieces that are left after `count` components, and after the silent ones that follow. -/
def dropComponents : Nat → List String → List String
  | _, [] => []
  | count, piece :: rest =>
    if isSilent piece then dropComponents count rest
    else
      match count with
      | 0 => piece :: rest
      | count + 1 => dropComponents count rest

/-- The rest of the path below `base`, if it begins with the components of `base`. -/
def stripPrefix? (path base : Path) : Option Path :=
  if base.components.isPrefixOf path.components then
    let (start, pieces) := path.opened
    match base.components.length with
    | 0 => some (ofPieces start (trimPieces pieces))
    | count =>
      some ⟨"/".intercalate
        (trimPieces (dropComponents (count - start.components.length) pieces))⟩
  else none

end Path

end EntityGraph
