import EntityGraph.Extraction.References
import EntityGraph.Files.FileTree
import EntityGraph.Glob.Pattern

/-!
# Errors

Why a file or a project cannot be extracted, and how that is said.
-/

namespace EntityGraph

inductive ExtractError where
  | read (cause : ReadError)
  | notParsed
  | unsupportedLanguage (path : Path)
  | fileNotFound (path : Path)
  | malformedSettings
  | malformedPattern (pattern : String) (cause : Pattern.Error)
  | unexpectedCallee (callee : UnexpectedCallee)
  deriving DecidableEq

def UnexpectedCallee.message (callee : UnexpectedCallee) : String :=
  "Unexpected callee node `" ++ callee.kind ++ "` at line " ++ toString callee.line

def ExtractError.message : ExtractError → String
  | .read cause => "IO error: " ++ cause.message
  | .notParsed => "Parse error: Failed to parse source"
  | .unsupportedLanguage path => "Language not supported: " ++ path.text
  | .fileNotFound path => "File not found: " ++ path.text
  | .malformedSettings => "Config error: Invalid py-entities.toml"
  | .malformedPattern pattern cause =>
    "Config error: Invalid exclude pattern '" ++ pattern ++ "': " ++ cause.message
  | .unexpectedCallee callee => callee.message

end EntityGraph
