import EntityGraph.Concrete.Node
import EntityGraph.Program.Expr
import EntityGraph.Text.Blank

/-!
# Typed expressions of a concrete tree

`Expr.ofNode` reads a concrete node as a typed expression. It never fails: a node of a kind without
a constructor becomes `Expr.other`, and a missing part becomes `Expr.missing`. Extra nodes are read
only where a field names them.

* `Phrase.ofKind` tells the forms of expression apart by the kind of the node;
* `Expr.ofNode` reads one node, `Expr.ofItems`, `Expr.ofFirst?`, `Expr.ofField?` and `Expr.ofFields`
  read the children of a node by their place;
* `openLeft` merges the operands of a boolean operation: `a and b and c` has three of them.
-/

namespace EntityGraph

open Concrete

/-! ## Forms of expression -/

namespace Concrete

/-- The forms of expression. A `wrapper` stands for the expression in it, a `pattern` of strings for
several literals written side by side. -/
inductive Phrase where
  | name
  | attribute
  | call
  | binary
  | unary
  | not
  | boolean
  | comparison
  | conditional
  | subscript
  | slice
  | string
  | strings
  | number
  | constant (value : Constant)
  | tuple
  | list
  | set
  | dictionary
  | comprehension (kind : ComprehensionKind)
  | lambda
  | await
  | yield
  | splat
  | named
  | wrapper
  | other

def Phrase.ofKind : String → Phrase
  | "identifier" | "keyword_identifier" => .name
  | "attribute" => .attribute
  | "call" => .call
  | "binary_operator" => .binary
  | "unary_operator" => .unary
  | "not_operator" => .not
  | "boolean_operator" => .boolean
  | "comparison_operator" => .comparison
  | "conditional_expression" => .conditional
  | "subscript" => .subscript
  | "slice" => .slice
  | "string" => .string
  | "concatenated_string" => .strings
  | "integer" | "float" => .number
  | "true" => .constant (.bool true)
  | "false" => .constant (.bool false)
  | "none" => .constant .none
  | "ellipsis" => .constant .ellipsis
  | "tuple" | "expression_list" | "pattern_list" | "tuple_pattern" => .tuple
  | "list" | "list_pattern" => .list
  | "set" => .set
  | "dictionary" => .dictionary
  | "list_comprehension" => .comprehension .list
  | "set_comprehension" => .comprehension .set
  | "dictionary_comprehension" => .comprehension .dict
  | "generator_expression" => .comprehension .generator
  | "lambda" => .lambda
  | "await" => .await
  | "yield" => .yield
  | "list_splat" | "list_splat_pattern" | "dictionary_splat" => .splat
  | "named_expression" => .named
  | "parenthesized_expression" | "as_pattern" | "type" => .wrapper
  | _ => .other

end Concrete

/-! ## Parts without expressions below them -/

/-- The operand as a list of operands: opened if it is an operation with the same operator. -/
def openLeft (op : String) : Expr → List Expr
  | .boolOp inner values line => if inner = op then values else [.boolOp inner values line]
  | operand => [operand]

/-- The text of an operator, with single blanks between its words. -/
def operatorText (text : String) : String :=
  " ".intercalate ((Text.words text.toList).map String.ofList)

/-- The letters before the quote of a string, in lower case. -/
def stringLetters (source : ByteArray) (children : List Node) : List Char :=
  match (parts children).find? (·.label.kind = "string_start") with
  | none => []
  | some start => ((start.label.text source).toList.takeWhile Char.isAlpha).map Char.toLower

def isFormatted (source : ByteArray) (children : List Node) : Bool :=
  (stringLetters source children).contains 'f'

/-- The literal text of a string, without what is interpolated. -/
def literalText (source : ByteArray) (children : List Node) : String :=
  String.join (((items children).filter (·.label.kind = "string_content")).map (·.label.text source))

/-- The literals of a sequence of strings. -/
def stringParts (children : List Node) : List Node :=
  (items children).filter (·.label.kind = "string")

/-! ## Expressions -/

namespace Expr

mutual

def ofNode (source : ByteArray) : Node → Expr
  | ⟨label, children⟩ =>
    let line := label.line
    match Phrase.ofKind label.kind with
    | .name => .name (label.text source) line
    | .attribute =>
      .attribute ((ofField? source "object" children).getD (missing line))
        ((text? source "attribute" children).getD "") line
    | .call =>
      .call ((ofField? source "function" children).getD (missing line))
        (argumentsOf source children) (keywordsOf source children) line
    | .binary =>
      .binOp ((ofField? source "left" children).getD (missing line))
        ((text? source "operator" children).getD "")
        ((ofField? source "right" children).getD (missing line)) line
    | .unary =>
      .unaryOp ((text? source "operator" children).getD "")
        ((ofField? source "argument" children).getD (missing line)) line
    | .not => .unaryOp "not" ((ofField? source "argument" children).getD (missing line)) line
    | .boolean =>
      let op := (text? source "operator" children).getD ""
      .boolOp op
        (openLeft op ((ofField? source "left" children).getD (missing line)) ++
          [(ofField? source "right" children).getD (missing line)]) line
    | .comparison =>
      let ops := (childrenAt "operators" children).map fun op => operatorText (op.label.text source)
      match ofItems source children with
      | [] => .compare (missing line) ops [] line
      | left :: comparators => .compare left ops comparators line
    | .conditional =>
      let operands := ofItems source children
      .ifExp (operands[1]?.getD (missing line)) (operands[0]?.getD (missing line))
        (operands[2]?.getD (missing line)) line
    | .subscript =>
      let index :=
        match ofFields source "subscript" children with
        | [single] => single
        | several => .tuple several line
      .subscript ((ofField? source "value" children).getD (missing line)) index line
    | .slice =>
      .slice (slicePart? source 0 children) (slicePart? source 1 children)
        (slicePart? source 2 children) line
    | .string =>
      let letters := stringLetters source children
      if letters.contains 'f' then .joinedStr (segments source line children) line
      else if letters.contains 'b' then
        .constant (.bytes (literalText source children).toUTF8.toList) line
      else .constant (.str (literalText source children)) line
    | .strings =>
      if (stringParts children).any (isFormatted source ·.children) then
        .joinedStr (segmentsOfStrings source children) line
      else
        .constant (.str (String.join ((stringParts children).map (literalText source ·.children)))) line
    | .number => .constant (.number (label.text source)) line
    | .constant value => .constant value line
    | .tuple => .tuple (ofItems source children) line
    | .list => .list (ofItems source children) line
    | .set => .set (ofItems source children) line
    | .dictionary =>
      let entries := ofEntries source children
      .dict (entries.map (·.1)) (entries.map (·.2)) line
    | .comprehension kind => .comprehension kind line
    | .lambda => .lambda line
    | .await => .await ((ofFirst? source children).getD (missing line)) line
    | .yield =>
      match hasPart "from" children, ofFirst? source children with
      | true, some value => .yieldFrom value line
      | _, value => .yield value line
    | .splat => .starred ((ofFirst? source children).getD (missing line)) line
    | .named =>
      .namedExpr ((ofField? source "name" children).getD (missing line))
        ((ofField? source "value" children).getD (missing line)) line
    | .wrapper => (ofFirst? source children).getD (missing line)
    | .other => .other label.kind line

/-- The items, each read as an expression. -/
def ofItems (source : ByteArray) : List Node → List Expr
  | [] => []
  | node :: rest =>
    if node.label.isItem then ofNode source node :: ofItems source rest else ofItems source rest

/-- The first item, read as an expression. -/
def ofFirst? (source : ByteArray) : List Node → Option Expr
  | [] => none
  | node :: rest => if node.label.isItem then some (ofNode source node) else ofFirst? source rest

/-- The first child with the field, read as an expression. -/
def ofField? (source : ByteArray) (field : String) : List Node → Option Expr
  | [] => none
  | node :: rest =>
    if node.label.field = some field then some (ofNode source node) else ofField? source field rest

/-- The children with the field, each read as an expression. -/
def ofFields (source : ByteArray) (field : String) : List Node → List Expr
  | [] => []
  | node :: rest =>
    if node.label.field = some field then ofNode source node :: ofFields source field rest
    else ofFields source field rest

/-- The positional arguments of a call with these children. A generator can be the only argument
without parentheses of its own. -/
def argumentsOf (source : ByteArray) : List Node → List Expr
  | [] => []
  | ⟨label, children⟩ :: rest =>
    if label.field = some "arguments" then
      if label.kind = "generator_expression" then [ofNode source ⟨label, children⟩]
      else positional source children
    else argumentsOf source rest

/-- The keyword arguments of a call with these children. -/
def keywordsOf (source : ByteArray) : List Node → List Keyword
  | [] => []
  | ⟨label, children⟩ :: rest =>
    if label.field = some "arguments" then
      if label.kind = "generator_expression" then [] else keywords source children
    else keywordsOf source rest

def positional (source : ByteArray) : List Node → List Expr
  | [] => []
  | node :: rest =>
    if node.label.isItem && node.label.kind ≠ "keyword_argument" &&
        node.label.kind ≠ "dictionary_splat" then
      ofNode source node :: positional source rest
    else positional source rest

def keywords (source : ByteArray) : List Node → List Keyword
  | [] => []
  | ⟨label, children⟩ :: rest =>
    if label.isItem && label.kind = "keyword_argument" then
      ⟨text? source "name" children, (ofField? source "value" children).getD (missing label.line)⟩ ::
        keywords source rest
    else if label.isItem && label.kind = "dictionary_splat" then
      ⟨none, (ofFirst? source children).getD (missing label.line)⟩ :: keywords source rest
    else keywords source rest

/-- The bound of a slice that has this number of colons before it. -/
def slicePart? (source : ByteArray) : Nat → List Node → Option Expr
  | _, [] => none
  | 0, node :: rest =>
    if node.label.extra then slicePart? source 0 rest
    else if node.label.kind = ":" then none
    else if node.label.named then (slicePart? source 0 rest).or (some (ofNode source node))
    else slicePart? source 0 rest
  | colons + 1, node :: rest =>
    if !node.label.extra && node.label.kind = ":" then slicePart? source colons rest
    else slicePart? source (colons + 1) rest

/-- The text and the interpolations of a string that starts on `line`. -/
def segments (source : ByteArray) (line : Nat) : List Node → List Expr
  | [] => []
  | ⟨label, children⟩ :: rest =>
    if label.isItem && label.kind = "string_content" then
      .constant (.str (label.text source)) line :: segments source line rest
    else if label.isItem && label.kind = "interpolation" then
      .formattedValue
        (((ofField? source "expression" children).or (ofFirst? source children)).getD
          (missing label.line)) label.line :: segments source line rest
    else segments source line rest

/-- The segments of all strings among the items. -/
def segmentsOfStrings (source : ByteArray) : List Node → List Expr
  | [] => []
  | ⟨label, children⟩ :: rest =>
    if label.isItem && label.kind = "string" then
      segments source label.line children ++ segmentsOfStrings source rest
    else segmentsOfStrings source rest

/-- The entries of a dictionary, with no key for those of another mapping. -/
def ofEntries (source : ByteArray) : List Node → List (Option Expr × Expr)
  | [] => []
  | ⟨label, children⟩ :: rest =>
    if label.isItem && label.kind = "pair" then
      (some ((ofField? source "key" children).getD (missing label.line)),
        (ofField? source "value" children).getD (missing label.line)) :: ofEntries source rest
    else if label.isItem && label.kind = "dictionary_splat" then
      (none, (ofFirst? source children).getD (missing label.line)) :: ofEntries source rest
    else ofEntries source rest

end

end Expr

end EntityGraph
