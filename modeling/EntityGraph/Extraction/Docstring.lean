import EntityGraph.Program.Stmt
import EntityGraph.Text.Blank

/-!
# Docstrings

The string literal that opens a body describes what the body belongs to.

* `Docstring.clean` removes the indentation that the lines after the first have in common, blanks at
  the ends of lines, and blank lines at both ends;
* `docstring?` is the cleaned description of a body.
-/

namespace EntityGraph

namespace Docstring

/-- The text with eight spaces for each tab. -/
def expandTabs (text : List Char) : List Char :=
  text.flatMap fun c => if c = '\t' then List.replicate 8 ' ' else [c]

/-- The bytes of the blanks that a line begins with. -/
def indent (line : List Char) : Nat :=
  Text.byteLength line - Text.byteLength (Text.trimStart line)

def isBlankLine (line : List Char) : Bool :=
  line.all Text.isBlank

/-- The least indentation of the lines that are not blank. -/
def margin (lines : List (List Char)) : Nat :=
  (((lines.filter (!isBlankLine ·)).map indent).min?).getD 0

/-- The line without its margin and without blanks at its end; empty if it has no such margin. -/
def dedent (margin : Nat) (line : List Char) : List Char :=
  Text.trimEnd ((Text.dropBytes? margin line).getD [])

/-- The lines without empty ones at both ends. -/
def stripLines (lines : List (List Char)) : List (List Char) :=
  ((lines.dropWhile List.isEmpty).reverse.dropWhile List.isEmpty).reverse

def cleanLines : List (List Char) → List (List Char)
  | [] => []
  | first :: rest => stripLines (Text.trimStart first :: rest.map (dedent (margin rest)))

def clean (text : String) : String :=
  "\n".intercalate ((cleanLines (Text.lines (expandTabs text.toList))).map String.ofList)

end Docstring

def docstring? : List Stmt → Option String
  | .expr (.constant (.str text) _) _ :: _ => some (Docstring.clean text)
  | _ => none

end EntityGraph
