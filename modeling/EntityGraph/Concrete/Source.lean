import EntityGraph.Concrete.Stmt

/-!
# Parsed sources

A source with the concrete tree that a parser made of it. Parsing is not done here: a `SourceReader`
stands for it.
-/

namespace EntityGraph

/-- What makes a concrete tree of a source, if it can. -/
abbrev SourceReader := String → Option Concrete.Tree

structure ParsedSource where
  language : String
  source : String
  tree : Concrete.Tree

namespace ParsedSource

def hasErrors (parsed : ParsedSource) : Bool :=
  parsed.tree.hasError

/-- The text of the whole tree. -/
def rootText (parsed : ParsedSource) : String :=
  parsed.tree.root.label.text parsed.source.toUTF8

/-- The typed statements of the source. -/
def statements (parsed : ParsedSource) : List Stmt :=
  moduleOf parsed.source.toUTF8 parsed.tree.root

end ParsedSource

end EntityGraph
