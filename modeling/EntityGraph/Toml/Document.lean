import EntityGraph.Toml.Number
import EntityGraph.Toml.Table
import EntityGraph.Toml.Text

/-!
# TOML documents

`Document.read?` reads the text of a document as a table, if it is one. Values nest at most
`nestingLimit` deep.
-/

namespace EntityGraph.Toml

/-! ## Values -/

/-- A word as a value. -/
def wordValue? (word : List Char) : Option Value :=
  match bool? word with
  | some value => some (.bool value)
  | none =>
    if isDateTime word || isTime word then some .date
    else if (integer? word).isSome || isFloat word then some .number
    else none

/-- A word, and the rest after it. A blank may stand between a date and a time. -/
def word? (text : List Char) : Option (Value × List Char) :=
  let word := text.takeWhile isWordChar
  match text.dropWhile isWordChar with
  | ' ' :: rest =>
    if isDate word && (rest.head?.map Char.isDigit).getD false then
      if isOffsetTime (rest.takeWhile isWordChar) then some (.date, rest.dropWhile isWordChar) else none
    else (wordValue? word).map (·, ' ' :: rest)
  | rest => (wordValue? word).map (·, rest)

/-- The elements of an array up to its closing bracket, of which there are less than `bound`. -/
def elements? (value? : List Char → Option (Value × List Char)) :
    Nat → List Char → Option (List Value × List Char)
  | 0, _ => none
  | bound + 1, text => do
    match ← skipLines? false text with
    | ']' :: rest => return ([], rest)
    | text =>
      let (value, rest) ← value? text
      match ← skipLines? false rest with
      | ',' :: rest =>
        let (values, rest) ← elements? value? bound rest
        return (value :: values, rest)
      | ']' :: rest => return ([value], rest)
      | _ => none

/-- A key, its value, and the rest after blanks. -/
def pair? (value? : List Char → Option (Value × List Char)) (text : List Char) :
    Option ((List String × Value) × List Char) := do
  let (key, rest) ← key? text
  let (value, rest) ← value? (skipBlanks (← after? '=' rest))
  return ((key, value), skipBlanks rest)

/-- The pairs of an inline table up to its closing brace, of which there is at least one and less than
`bound`. -/
def inlinePairs? (value? : List Char → Option (Value × List Char)) :
    Nat → List Char → Option (List (List String × Value) × List Char)
  | 0, _ => none
  | bound + 1, text => do
    let (pair, rest) ← pair? value? text
    match rest with
    | ',' :: rest =>
      let (pairs, rest) ← inlinePairs? value? bound rest
      return (pair :: pairs, rest)
    | '\x7d' :: rest => return ([pair], rest)
    | _ => none

def inlineTable? (value? : List Char → Option (Value × List Char)) (text : List Char) :
    Option (Value × List Char) :=
  match skipBlanks text with
  | '\x7d' :: rest => some (.inline .empty, rest)
  | text => do
    let (pairs, rest) ← inlinePairs? value? text.length text
    let table ← Table.empty.addPairs pairs
    return (.inline table, rest)

/-- A value inside which values nest at most `depth` deep. -/
def value? : Nat → List Char → Option (Value × List Char)
  | _, '"' :: rest => (string? ('"' :: rest)).map fun (text, rest) => (.string (String.ofList text), rest)
  | _, '\'' :: rest =>
    (string? ('\'' :: rest)).map fun (text, rest) => (.string (String.ofList text), rest)
  | 0, '[' :: _ => none
  | 0, '\x7b' :: _ => none
  | depth + 1, '[' :: rest =>
    (elements? (value? depth) (rest.length + 1) rest).map fun (values, rest) => (.array values, rest)
  | depth + 1, '\x7b' :: rest => inlineTable? (value? depth) rest
  | _, text => word? text

/-! ## Lines -/

/-- What a line of a document says. -/
inductive Line where
  | pair (path : List String) (value : Value)
  | header (isArray : Bool) (path : List String)

/-- A header after its opening bracket. -/
def header? (text : List Char) : Option (Line × List Char) :=
  match text with
  | '[' :: rest => do
    let (path, rest) ← key? rest
    match rest with
    | ']' :: ']' :: rest => return (.header true path, ← lineEnd? rest)
    | _ => none
  | text => do
    let (path, rest) ← key? text
    return (.header false path, ← lineEnd? (← after? ']' rest))

def line? (text : List Char) : Option (Line × List Char) :=
  match text with
  | '[' :: rest => header? rest
  | text => do
    let ((path, value), rest) ← pair? (value? (nestingLimit - 1)) text
    return (.pair path value, ← lineEnd? rest)

/-- The lines of a text, of which there are less than `bound`. -/
def lines? : Nat → List Char → Option (List Line)
  | 0, _ => none
  | bound + 1, text =>
    match skipBlanks text with
    | [] => some []
    | '#' :: rest => do lines? bound (← lineEnd? ('#' :: rest))
    | '\n' :: rest => lines? bound rest
    | '\r' :: rest => do lines? bound (← newline? ('\r' :: rest))
    | text => do
      let (line, rest) ← line? text
      let further ← lines? bound rest
      return line :: further

/-! ## Documents -/

/-- The pairs before the first header, and the lines from there on. -/
def leadingPairs : List Line → List (List String × Value) × List Line
  | .pair path value :: rest =>
    let (pairs, rest) := leadingPairs rest
    ((path, value) :: pairs, rest)
  | lines => ([], lines)

/-- The table with the sections that the lines make, read from the last: `pairs` are those that follow
a line up to the next header. -/
def sections : List Line → List (Bool × List String × List (List String × Value))
  | [] => []
  | .pair .. :: rest => sections rest
  | .header isArray path :: rest => (isArray, path, (leadingPairs rest).1) :: sections rest

def Document.ofLines? (lines : List Line) : Option Table := do
  let root ← Table.empty.addPairs (leadingPairs lines).1
  (sections lines).foldlM (fun table (isArray, path, pairs) => table.addSection isArray path pairs) root

/-- The byte order mark, which a text may begin with. -/
def byteOrderMark : Char := '\uFEFF'

def Document.read? (text : String) : Option Table := do
  let chars :=
    match text.toList with
    | c :: rest => if c = byteOrderMark then rest else c :: rest
    | [] => []
  Document.ofLines? (← lines? (chars.length + 1) chars)

end EntityGraph.Toml
