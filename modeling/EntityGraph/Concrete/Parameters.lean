import EntityGraph.Concrete.Node
import EntityGraph.Program.Stmt

/-!
# Parameter lists

A parameter list is read from left to right. `Parameter` is what one item of it says, and
`Parameters.ofList` groups the names: those before a positional separator can only be passed by
position, those after a splat or a keyword separator only by keyword.
-/

namespace EntityGraph

open Concrete

namespace Concrete

inductive Parameter where
  | plain (name : String)
  | splat (name : Option String)
  | mapping (name : Option String)
  | keywordSeparator
  | positionalSeparator
  | unknown
  deriving DecidableEq

/-- The item itself, or what a type annotation is attached to if that is not a plain name. -/
def annotated (node : Node) : Node :=
  if node.label.kind = "typed_parameter" then
    match items node.children with
    | inner :: _ => if inner.label.kind = "identifier" then node else inner
    | [] => node
  else node

/-- The text of the first item. -/
def firstText? (source : ByteArray) (children : List Node) : Option String :=
  (items children).head?.map (·.label.text source)

/-- What a name, if there is one, says as a parameter. -/
def Parameter.ofName? : Option String → Parameter
  | some name => .plain name
  | none => .unknown

def Parameter.ofNode (source : ByteArray) (node : Node) : Parameter :=
  let ⟨label, children⟩ := annotated node
  match label.kind with
  | "identifier" => .plain (label.text source)
  | "typed_parameter" => .ofName? (firstText? source children)
  | "default_parameter" | "typed_default_parameter" => .ofName? (text? source "name" children)
  | "list_splat_pattern" => .splat (firstText? source children)
  | "dictionary_splat_pattern" => .mapping (firstText? source children)
  | "keyword_separator" => .keywordSeparator
  | "positional_separator" => .positionalSeparator
  | _ => .unknown

end Concrete

namespace Parameters

def empty : Parameters :=
  ⟨[], [], none, [], none⟩

/-- Adds the parameters from left to right; `keywordOnly` tells whether names now go to the
parameters that are passed by keyword only. -/
def addAll (params : Parameters) (keywordOnly : Bool) : List Parameter → Parameters
  | [] => params
  | .plain name :: rest =>
    if keywordOnly then addAll { params with kwonly := params.kwonly ++ [name] } keywordOnly rest
    else addAll { params with args := params.args ++ [name] } keywordOnly rest
  | .splat name :: rest => addAll { params with vararg := name } true rest
  | .mapping name :: rest => addAll { params with kwarg := name } keywordOnly rest
  | .keywordSeparator :: rest => addAll params true rest
  | .positionalSeparator :: rest =>
    addAll { params with posonly := params.posonly ++ params.args, args := [] } keywordOnly rest
  | .unknown :: rest => addAll params keywordOnly rest

def ofList (parameters : List Parameter) : Parameters :=
  addAll empty false parameters

/-- The parameters of the items of a parameter list. -/
def ofItems (source : ByteArray) (children : List Node) : Parameters :=
  ofList ((items children).map (Parameter.ofNode source))

end Parameters

end EntityGraph
