import EntityGraph.Ignore.Glob
import EntityGraph.Text.Blank
import EntityGraph.Text.Utf8

/-!
# Rules of ignore files

Each line of an ignore file is a rule for the paths below the directory of the file: it ignores those
that fit, or keeps them if it begins with `!`. The last rule that concerns a path decides.

* `Rule.ofLine?` reads a line, `Rules.ofContent` a file;
* `Rules.verdict?` is what the rules say about a path.
-/

namespace EntityGraph.Ignore

inductive Verdict where
  | ignored
  | kept
  deriving DecidableEq

structure Rule where
  verdict : Verdict
  /-- Whether the rule concerns directories alone. -/
  forDirectories : Bool
  glob : Glob

namespace Rule

/-! ## Lines -/

/-- A line without the blanks at its end, unless a backslash keeps the last one. -/
def trimLine (line : List Char) : List Char :=
  if ['\\', ' '].isSuffixOf line then line else Text.trimEnd line

/-- A line whose signs at the beginning are taken off. -/
structure Heading where
  verdict : Verdict
  anchored : Bool
  rest : List Char

def Heading.ofLine : List Char → Heading
  | '\\' :: '!' :: rest => ⟨.ignored, false, '!' :: rest⟩
  | '\\' :: '#' :: rest => ⟨.ignored, false, '#' :: rest⟩
  | '!' :: '/' :: rest => ⟨.kept, true, rest⟩
  | '!' :: rest => ⟨.kept, false, rest⟩
  | '/' :: rest => ⟨.ignored, true, rest⟩
  | rest => ⟨.ignored, false, rest⟩

/-- A line without a slash at its end, and whether it had one. A backslash before that slash goes too. -/
def dropSlash (line : List Char) : Bool × List Char :=
  match line.reverse with
  | '/' :: '\\' :: rest => (true, rest.reverse)
  | '/' :: rest => (true, rest.reverse)
  | _ => (false, line)

/-- The glob of a line: without a slash it fits at any depth, and `/**` at its end is what is inside a
directory, not the directory. -/
def globText (anchored : Bool) (line : List Char) : List Char :=
  let placed :=
    if anchored ∨ '/' ∈ line ∨ line = ['*', '*'] then line else ['*', '*', '/'] ++ line
  if ['/', '*', '*'].isSuffixOf placed then placed ++ ['/', '*'] else placed

/-- The rule of a line. There is none if the line is blank, a comment, or no glob. -/
def ofLine? (line : List Char) : Option Rule :=
  if line.head? = some '#' then none
  else
    let trimmed := trimLine line
    if trimmed.isEmpty then none
    else
      let heading := Heading.ofLine trimmed
      let (forDirectories, rest) := dropSlash heading.rest
      (Glob.ofText? (String.ofList (globText heading.anchored rest))).map fun glob =>
        ⟨heading.verdict, forDirectories, glob⟩

/-- Whether the rule concerns a path below the directory of its file. -/
def concerns (rule : Rule) (path : String) (isDirectory : Bool) : Bool :=
  (isDirectory || !rule.forDirectories) && rule.glob.fits path

end Rule

/-! ## Files -/

/-- The rules of one file, in order. -/
abbrev Rules :=
  List Rule

namespace Rules

/-- The pieces of bytes between line feeds. -/
def byteLines : List UInt8 → List (List UInt8)
  | [] => [[]]
  | b :: rest =>
    if b = 10 then [] :: byteLines rest
    else
      match byteLines rest with
      | [] => [[b]]
      | line :: more => (b :: line) :: more

/-- The lines of a file up to the first that is not UTF-8. -/
def textLines (lines : List (List UInt8)) : List (List Char) :=
  match lines with
  | [] => []
  | line :: rest =>
    match Text.decode? ⟨line.toArray⟩ with
    | some text => Text.dropReturn text.toList :: textLines rest
    | none => []

/-- The lines without byte order marks at the beginning of the first. -/
def dropMark : List (List Char) → List (List Char)
  | [] => []
  | first :: rest => first.dropWhile (· = '\uFEFF') :: rest

def ofContent (content : ByteArray) : Rules :=
  (dropMark (textLines (byteLines content.data.toList))).filterMap Rule.ofLine?

/-- What the last rule that concerns a path says about it. -/
def verdict? (rules : Rules) (path : String) (isDirectory : Bool) : Option Verdict :=
  ((rules.filter (·.concerns path isDirectory)).getLast?).map Rule.verdict

end Rules

end EntityGraph.Ignore
