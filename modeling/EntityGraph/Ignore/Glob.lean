/-!
# Globs of ignore files

The patterns that lines of ignore files describe paths with, over the bytes of a path.

* `?` is one byte and `*` any number of bytes of one component; `[…]` is a byte of a class and `[!…]` or
  `[^…]` one outside it;
* `**` that fills a component is any number of components;
* braces hold a choice of globs with commas between them, and a backslash takes the meaning of the next
  character away.

`symbols?` reads the characters of a glob, `tokens?` what they say together, and `fits` decides whether
a path fits. The tokens of a glob leave several rests of a text each; a text fits if one of them is empty.
-/

namespace EntityGraph.Ignore.Glob

inductive Token where
  | byte (b : UInt8)
  | anyByte
  | anyBytes
  | oneOf (negated : Bool) (ranges : List (UInt8 × UInt8))
  | leadingComponents
  | innerComponents
  | everythingBelow
  | choice (branches : List (List Token))

end EntityGraph.Ignore.Glob

namespace EntityGraph.Ignore

/-- A glob by its tokens. -/
abbrev Glob :=
  List Glob.Token

namespace Glob

/-! ## Characters -/

inductive Symbol where
  | literal (c : Char)
  | question
  | star
  | oneOf (negated : Bool) (ranges : List (UInt8 × UInt8))
  | openBrace
  | comma
  | closeBrace
  deriving DecidableEq

def Symbol.ofChar : Char → Symbol
  | '?' => .question
  | '*' => .star
  | '\x7b' => .openBrace
  | ',' => .comma
  | '\x7d' => .closeBrace
  | c => .literal c

/-- The ranges of a class, after those of its earlier characters, the last one first. A dash after a
character makes a range of it and the next one, unless it is the last character. -/
def classRanges? (dash : Bool) (ranges : List (Char × Char)) : List Char → Option (List (Char × Char))
  | [] => some (if dash then ('-', '-') :: ranges else ranges)
  | c :: rest =>
    if dash then
      match ranges with
      | (first, _) :: earlier =>
        if c < first then none else classRanges? false ((first, c) :: earlier) rest
      | [] => none
    else if c = '-' then classRanges? true ranges rest
    else classRanges? false ((c, c) :: ranges) rest

/-- The bytes of a range. Of characters beyond ASCII each byte counts for itself. -/
def byteRanges (range : Char × Char) : List (UInt8 × UInt8) :=
  let single (b : UInt8) : UInt8 × UInt8 := (b, b)
  let low := String.utf8EncodeChar range.1
  if range.1 = range.2 then low.map single
  else
    match low.getLast?, String.utf8EncodeChar range.2 with
    | some last, first :: others => low.dropLast.map single ++ (last, first) :: others.map single
    | _, _ => []

/-- A class with the number of its characters, nothing if it does not end, or a fault. -/
inductive ClassReading where
  | complete (symbol : Symbol) (length : Nat)
  | endless
  | malformed

/-- The class after an opening bracket. Its first character belongs to it even if it is a bracket. -/
def readClass (text : List Char) : ClassReading :=
  let (negated, body) :=
    match text with
    | '!' :: body | '^' :: body => (true, body)
    | body => (false, body)
  match body with
  | [] => .endless
  | first :: rest =>
    let content := rest.takeWhile (· ≠ ']')
    if content.length = rest.length then .endless
    else
      match classRanges? false [(first, first)] content with
      | none => .malformed
      | some ranges =>
        .complete (.oneOf negated (ranges.flatMap byteRanges))
          (text.length - rest.length + content.length + 1)

/-- The symbols of a text without its first characters, or nothing if a class is malformed or nothing
follows a backslash. The bracket of a class that does not end stands for itself. -/
def symbols? : Nat → List Char → Option (List Symbol)
  | _, [] => some []
  | skipped + 1, _ :: rest => symbols? skipped rest
  | 0, '\\' :: rest =>
    match rest.head? with
    | none => none
    | some c => (.literal c :: ·) <$> symbols? 1 rest
  | 0, '[' :: rest =>
    match readClass rest with
    | .complete symbol length => (symbol :: ·) <$> symbols? length rest
    | .endless => (.literal '[' :: ·) <$> symbols? 0 rest
    | .malformed => none
  | 0, c :: rest => (Symbol.ofChar c :: ·) <$> symbols? 0 rest

/-! ## Tokens -/

/-- Braces that are still open: the branches before, and the tokens of the branch being read. -/
structure Level where
  branches : List Glob
  tokens : Glob

namespace Level

def empty : Level :=
  ⟨[], []⟩

def put (level : Level) (token : Token) : Level :=
  { level with tokens := level.tokens ++ [token] }

def putChar (level : Level) (c : Char) : Level :=
  { level with tokens := level.tokens ++ (String.utf8EncodeChar c).map .byte }

def slash : UInt8 := 47

/-- Whether a component of the path begins after the tokens. -/
def endsComponent (level : Level) : Bool :=
  match level.tokens.getLast? with
  | some (.byte b) => b == slash
  | some .leadingComponents | some .innerComponents => true
  | _ => false

/-- The tokens with this one in place of the slash at their end. -/
def widen (level : Level) (token : Token) : Level :=
  match level.tokens.getLast? with
  | some .leadingComponents => level
  | _ => { level with tokens := level.tokens.dropLast ++ [token] }

/-- The tokens with `**/` after them. -/
def putInner (level : Level) : Level :=
  if level.tokens.isEmpty then level.put .leadingComponents
  else if level.endsComponent then level.widen .innerComponents
  else (level.put .anyBytes).putChar '/'

/-- The tokens with `**` after them, at the end of the glob if `final` and else of a branch. -/
def putEnd (final : Bool) (level : Level) : Level :=
  if level.tokens.isEmpty then level.put (if final then .leadingComponents else .anyBytes)
  else if level.endsComponent then level.widen .everythingBelow
  else level.put .anyBytes

/-- The level around braces, with the choice that they are. Empty branches do not count. -/
def close (outer inner : Level) : Level :=
  let branches := (inner.branches ++ [inner.tokens]).filter (!·.isEmpty)
  if branches.isEmpty then outer else outer.put (.choice branches)

end Level

/-- Whether a branch of braces ends here. -/
def endsBranch : List Symbol → Bool
  | .comma :: _ | .closeBrace :: _ => true
  | _ => false

/-- The tokens that symbols say after those of `level`, inside the braces of `outer`. Nothing if braces
do not match. -/
def tokens? (outer : List Level) (level : Level) : List Symbol → Option Glob
  | [] => if outer.isEmpty then some level.tokens else none
  | .star :: .star :: .literal '/' :: rest => tokens? outer level.putInner rest
  | .star :: .star :: rest =>
    let level :=
      if rest.isEmpty then level.putEnd true
      else if !outer.isEmpty && endsBranch rest then level.putEnd false
      else level.put .anyBytes
    tokens? outer level rest
  | .star :: rest => tokens? outer (level.put .anyBytes) rest
  | .question :: rest => tokens? outer (level.put .anyByte) rest
  | .oneOf negated ranges :: rest => tokens? outer (level.put (.oneOf negated ranges)) rest
  | .literal c :: rest => tokens? outer (level.putChar c) rest
  | .openBrace :: rest => tokens? (level :: outer) .empty rest
  | .comma :: rest =>
    if outer.isEmpty then tokens? outer (level.putChar ',') rest
    else tokens? outer ⟨level.branches ++ [level.tokens], []⟩ rest
  | .closeBrace :: rest =>
    match outer with
    | [] => none
    | around :: outer => tokens? outer (around.close level) rest

def ofText? (text : String) : Option Glob :=
  (symbols? 0 text.toList).bind (tokens? [] .empty)

/-! ## Matching -/

/-- The text from each place on up to the end of its first component, and the rest there. -/
def componentRests : List UInt8 → List (List UInt8)
  | [] => [[]]
  | b :: rest => (b :: rest) :: if b = Level.slash then [] else componentRests rest

/-- The text from each place on, its end included. -/
def allRests : List UInt8 → List (List UInt8)
  | [] => [[]]
  | b :: rest => (b :: rest) :: allRests rest

/-- The text after each slash. -/
def slashRests : List UInt8 → List (List UInt8)
  | [] => []
  | b :: rest => if b = Level.slash then rest :: slashRests rest else slashRests rest

mutual

/-- What a token may leave of a text. -/
def Token.rests : Token → List UInt8 → List (List UInt8)
  | .byte _, [] => []
  | .byte b, c :: rest => if c = b then [rest] else []
  | .anyByte, [] => []
  | .anyByte, c :: rest => if c = Level.slash then [] else [rest]
  | .anyBytes, text => componentRests text
  | .oneOf _ _, [] => []
  | .oneOf negated ranges, c :: rest =>
    if (ranges.any fun (first, last) => first ≤ c && c ≤ last) = !negated then [rest] else []
  | .leadingComponents, text => text :: slashRests text
  | .innerComponents, [] => []
  | .innerComponents, c :: rest => if c = Level.slash then rest :: slashRests rest else []
  | .everythingBelow, [] => []
  | .everythingBelow, c :: rest => if c = Level.slash then allRests rest else []
  | .choice branches, text => branchRests branches text

/-- What the tokens may leave of a text, one after the other. -/
def tokenRests : List Token → List UInt8 → List (List UInt8)
  | [], text => [text]
  | token :: tokens, text =>
    ((token.rests text).flatMap fun rest => tokenRests tokens rest).eraseDups

/-- What one of the branches may leave of a text. -/
def branchRests : List (List Token) → List UInt8 → List (List UInt8)
  | [], _ => []
  | branch :: branches, text => tokenRests branch text ++ branchRests branches text

end

/-- Whether a path fits the glob. A glob that is `**` alone fits every path. -/
def fits (glob : Glob) (path : String) : Bool :=
  match glob with
  | [.leadingComponents] => true
  | _ => (tokenRests glob (path.toList.flatMap String.utf8EncodeChar)).any List.isEmpty

end Glob

end EntityGraph.Ignore
