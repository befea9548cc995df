import EntityGraph.Project.Run

/-!
# Listings

A working directory written as lines, with the concrete trees of its sources. The first character of a
line tells what it is:

* `+` opens a directory of this path, and `=` a file;
* `|` is a line of the file, and `>` a last line that no line feed ends;
* `:` is a node of the concrete tree of the file, in preorder: kind, field, flags, first and last byte,
  row and number of children, with tabs between them. The flags are letters: `n` for a named node, `x`
  for an extra and `m` for a missing one, and `e` on the first node of a tree with errors.

`Listing.workspace?` reads a listing, and gives nothing if a line cannot be read.
-/

namespace EntityGraph.CommandLine

/-- A file of a listing: its text, the labels of its concrete tree, and whether that has errors. -/
structure ListedFile where
  path : Path
  text : String
  nodes : List (Concrete.Label × Nat)
  hasError : Bool

inductive ListedEntry where
  | file (file : ListedFile)
  | directory (path : Path)

abbrev Listing :=
  List ListedEntry

namespace Listing

/-! ## Lines -/

/-- The label of a node and the number of its children. -/
def node? (line : List Char) : Option (Concrete.Label × Nat) := do
  match (Text.pieces (· == '\t') line).map String.ofList with
  | [kind, field, flags, start, stop, row, count] =>
    let has (flag : Char) : Bool := flags.toList.contains flag
    let label : Concrete.Label := {
      kind := kind
      field := if field = "" then none else some field
      named := has 'n'
      extra := has 'x'
      missing := has 'm'
      start := ← start.toNat?
      stop := ← stop.toNat?
      row := ← row.toNat? }
    return (label, ← count.toNat?)
  | _ => none

/-- Whether a node is marked as the root of a tree with errors. -/
def marksError (line : List Char) : Bool :=
  match Text.pieces (· == '\t') line with
  | _ :: _ :: flags :: _ => flags.contains 'e'
  | _ => false

/-- The listing with one more line. -/
def addLine? (listing : Listing) (line : List Char) : Option Listing :=
  match line, listing with
  | '+' :: path, _ => some (.directory ⟨String.ofList path⟩ :: listing)
  | '=' :: path, _ => some (.file ⟨⟨String.ofList path⟩, "", [], false⟩ :: listing)
  | '|' :: text, .file file :: before =>
    some (.file { file with text := file.text ++ String.ofList text ++ "\n" } :: before)
  | '>' :: text, .file file :: before =>
    some (.file { file with text := file.text ++ String.ofList text } :: before)
  | ':' :: text, .file file :: before =>
    (node? text).map fun node =>
      .file { file with
        nodes := node :: file.nodes
        hasError := file.hasError || marksError text } :: before
  | _, _ => none

/-! ## Workspaces -/

def addEntry (files : FileTree) : ListedEntry → FileTree
  | .file file => files.insert file.path (.file file.text.toUTF8)
  | .directory path => files.insert path (.directory [])

/-- The text of a source and its concrete tree. -/
def source? : ListedEntry → Option (String × Concrete.Tree)
  | .file file =>
    (Concrete.Node.ofPreorder? file.nodes.reverse).map fun root => (file.text, ⟨root, file.hasError⟩)
  | .directory _ => none

def workspace (listing : Listing) : Workspace :=
  let sources := listing.filterMap source?
  ⟨listing.reverse.foldl addEntry .empty, fun text => sources.lookup text⟩

def workspace? (lines : List (List Char)) : Option Workspace :=
  (lines.foldlM addLine? []).map workspace

end Listing

end EntityGraph.CommandLine
