import EntityGraph.Program.Expr
import EntityGraph.Text.Utf8

/-!
# Dumped expressions

`Expr.dump` writes an expression as one line that shows its structure without line numbers: the name
of its kind, then its parts in parentheses. Kinds that have no parts of interest are written by their
name alone. Texts stand in single quotes as they are.
-/

namespace EntityGraph

/-- The literal as it stands in a dump. Bytes are shown as the text that they spell. -/
def Constant.dump : Constant → String
  | .bool true => "True"
  | .bool false => "False"
  | .str text => "'" ++ text ++ "'"
  | .number spelling => spelling
  | .bytes content => "b'" ++ Text.decodeLossy content ++ "'"
  | .ellipsis => "Ellipsis"
  | .none => "None"

namespace Expr

/-- Parts of a list, as a dump separates them. -/
def joined (parts : List String) : String :=
  ", ".intercalate parts

mutual

def dump : Expr → String
  | .name id _ => "Name(id='" ++ id ++ "')"
  | .attribute value attr _ => "Attribute(value=" ++ dump value ++ ", attr='" ++ attr ++ "')"
  | .call func args keywords _ =>
    "Call(func=" ++ dump func ++ ", args=[" ++ joined (dumpAll args) ++ "], keywords=[" ++
      joined (dumpKeywords keywords) ++ "])"
  | .binOp left op right _ =>
    "BinOp(left=" ++ dump left ++ ", op='" ++ op ++ "', right=" ++ dump right ++ ")"
  | .unaryOp op operand _ => "UnaryOp(op='" ++ op ++ "', operand=" ++ dump operand ++ ")"
  | .boolOp op values _ => "BoolOp(op='" ++ op ++ "', values=[" ++ joined (dumpAll values) ++ "])"
  | .compare left ops comparators _ =>
    "Compare(left=" ++ dump left ++ ", ops=[" ++ joined (ops.map fun op => "'" ++ op ++ "'") ++
      "], comparators=[" ++ joined (dumpAll comparators) ++ "])"
  | .ifExp test body orelse _ =>
    "IfExp(test=" ++ dump test ++ ", body=" ++ dump body ++ ", orelse=" ++ dump orelse ++ ")"
  | .subscript value index _ => "Subscript(value=" ++ dump value ++ ", slice=" ++ dump index ++ ")"
  | .slice lower upper step _ =>
    "Slice(lower=" ++ dumpPart lower ++ ", upper=" ++ dumpPart upper ++ ", step=" ++ dumpPart step ++
      ")"
  | .joinedStr values _ => "JoinedStr(values=[" ++ joined (dumpAll values) ++ "])"
  | .formattedValue value _ => "FormattedValue(value=" ++ dump value ++ ")"
  | .constant value _ => "Constant(value=" ++ value.dump ++ ")"
  | .tuple elts _ => "Tuple(elts=[" ++ joined (dumpAll elts) ++ "])"
  | .list elts _ => "List(elts=[" ++ joined (dumpAll elts) ++ "])"
  | .set elts _ => "Set(elts=[" ++ joined (dumpAll elts) ++ "])"
  | .dict keys values _ =>
    "Dict(keys=[" ++ joined (dumpParts keys) ++ "], values=[" ++ joined (dumpAll values) ++ "])"
  | .await value _ => "Await(value=" ++ dump value ++ ")"
  | .yield none _ => "Yield()"
  | .yield (some value) _ => "Yield(value=" ++ dump value ++ ")"
  | .yieldFrom value _ => "YieldFrom(value=" ++ dump value ++ ")"
  | .starred value _ => "Starred(value=" ++ dump value ++ ")"
  | .namedExpr target value _ =>
    "NamedExpr(target=" ++ dump target ++ ", value=" ++ dump value ++ ")"
  | .comprehension kind _ => kind.kindName ++ "()"
  | .lambda _ => "Lambda()"
  | .other kind _ => kind ++ "()"

def dumpAll : List Expr → List String
  | [] => []
  | value :: rest => dump value :: dumpAll rest

def dumpKeywords : List Keyword → List String
  | [] => []
  | ⟨some arg, value⟩ :: rest =>
    ("keyword(arg='" ++ arg ++ "', value=" ++ dump value ++ ")") :: dumpKeywords rest
  | ⟨none, value⟩ :: rest => ("keyword(value=" ++ dump value ++ ")") :: dumpKeywords rest

/-- A part that may be absent. -/
def dumpPart : Option Expr → String
  | none => "None"
  | some value => dump value

def dumpParts : List (Option Expr) → List String
  | [] => []
  | part :: rest => dumpPart part :: dumpParts rest

end

end Expr

end EntityGraph
