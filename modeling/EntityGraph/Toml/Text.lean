/-!
# Texts of TOML

The parts of a TOML document below its values: blanks, comments, line ends and strings. Each reader
takes a text from its beginning and gives what is left of it; control characters other than the tab
stand nowhere, and a carriage return only before a line feed.

* `skipBlanks`, `lineEnd?` and `skipLines?` pass over what separates values;
* `string?` reads a string of any of the four kinds, `key?` a dotted key.
-/

namespace EntityGraph.Toml

/-- Whether the character may stand in a comment or a string. -/
def isPlain (c : Char) : Bool :=
  c = '\t' || (' ' ≤ c && c.toNat ≠ 0x7F)

def isBlank (c : Char) : Bool :=
  c = ' ' || c = '\t'

def skipBlanks (text : List Char) : List Char :=
  text.dropWhile isBlank

def newline? : List Char → Option (List Char)
  | '\n' :: rest => some rest
  | '\r' :: '\n' :: rest => some rest
  | _ => none

/-- The rest after blanks, a comment and the end of the line. -/
def lineEnd? (text : List Char) : Option (List Char) :=
  let rest :=
    match skipBlanks text with
    | '#' :: comment => comment.dropWhile isPlain
    | rest => rest
  if rest.isEmpty then some [] else newline? rest

/-- The rest after blanks, comments and line ends; none if a comment or a line does not end. -/
def skipLines? (inComment : Bool) : List Char → Option (List Char)
  | [] => if inComment then none else some []
  | '\n' :: rest => skipLines? false rest
  | '\r' :: '\n' :: rest => skipLines? false rest
  | c :: rest =>
    if inComment then if isPlain c then skipLines? true rest else none
    else if isBlank c then skipLines? false rest
    else if c = '#' then skipLines? true rest
    else if c = '\r' then none
    else some (c :: rest)

/-! ## Strings -/

def hexValue? (c : Char) : Option Nat :=
  if '0' ≤ c ∧ c ≤ '9' then some (c.toNat - '0'.toNat)
  else if 'a' ≤ c ∧ c ≤ 'f' then some (c.toNat - 'a'.toNat + 10)
  else if 'A' ≤ c ∧ c ≤ 'F' then some (c.toNat - 'A'.toNat + 10)
  else none

/-- The character with these hexadecimal digits, if there is one. -/
def scalar? (digits : List Char) : Option Char := do
  let values ← digits.mapM hexValue?
  let code := values.foldl (fun code value => code * 16 + value) 0
  if code.isValidChar then some (Char.ofNat code) else none

/-- What a single character after a backslash stands for. -/
def escaped? : Char → Option Char
  | 'b' => some (Char.ofNat 0x08)
  | 't' => some '\t'
  | 'n' => some '\n'
  | 'f' => some (Char.ofNat 0x0C)
  | 'r' => some '\r'
  | '"' => some '"'
  | '\\' => some '\\'
  | _ => none

/-- What was read with a character before it. -/
def prepend (c : Char) : Option (List Char × List Char) → Option (List Char × List Char) :=
  Option.map fun (text, rest) => (c :: text, rest)

/-- A basic string after its opening quote: its text and the rest. -/
def basic? : List Char → Option (List Char × List Char)
  | [] => none
  | '"' :: rest => some ([], rest)
  | '\\' :: 'u' :: a :: b :: c :: d :: rest =>
    (scalar? [a, b, c, d]).bind fun scalar => prepend scalar (basic? rest)
  | '\\' :: 'U' :: a :: b :: c :: d :: e :: f :: g :: h :: rest =>
    (scalar? [a, b, c, d, e, f, g, h]).bind fun scalar => prepend scalar (basic? rest)
  | '\\' :: c :: rest => (escaped? c).bind fun escaped => prepend escaped (basic? rest)
  | c :: rest => if isPlain c && c ≠ '\\' then prepend c (basic? rest) else none

/-- A literal string after its opening quote. -/
def literal? : List Char → Option (List Char × List Char)
  | [] => none
  | '\'' :: rest => some ([], rest)
  | c :: rest => if isPlain c then prepend c (literal? rest) else none

/-- Whether a backslash before this text removes the line end and the blanks after it. -/
def continuesLine (text : List Char) : Bool :=
  (newline? (skipBlanks text)).isSome

/-- A basic string of several lines after its opening quotes. Up to two quotes may stand before the
closing ones; `trimming` tells whether blanks and line ends are passed over. -/
def basicLines? (trimming : Bool) : List Char → Option (List Char × List Char)
  | [] => none
  | '\n' :: rest => if trimming then basicLines? true rest else prepend '\n' (basicLines? false rest)
  | '\r' :: '\n' :: rest =>
    if trimming then basicLines? true rest else prepend '\n' (basicLines? false rest)
  | '"' :: '"' :: '"' :: '"' :: '"' :: rest => some (['"', '"'], rest)
  | '"' :: '"' :: '"' :: '"' :: rest => some (['"'], rest)
  | '"' :: '"' :: '"' :: rest => some ([], rest)
  | '\\' :: 'u' :: a :: b :: c :: d :: rest =>
    (scalar? [a, b, c, d]).bind fun scalar => prepend scalar (basicLines? false rest)
  | '\\' :: 'U' :: a :: b :: c :: d :: e :: f :: g :: h :: rest =>
    (scalar? [a, b, c, d, e, f, g, h]).bind fun scalar => prepend scalar (basicLines? false rest)
  | '\\' :: c :: rest =>
    match escaped? c with
    | some escaped => prepend escaped (basicLines? false rest)
    | none => if continuesLine (c :: rest) then basicLines? true (c :: rest) else none
  | c :: rest =>
    if trimming && isBlank c then basicLines? true rest
    else if isPlain c && c ≠ '\\' then prepend c (basicLines? false rest)
    else none

/-- A literal string of several lines after its opening quotes. -/
def literalLines? : List Char → Option (List Char × List Char)
  | [] => none
  | '\n' :: rest => prepend '\n' (literalLines? rest)
  | '\r' :: '\n' :: rest => prepend '\n' (literalLines? rest)
  | '\'' :: '\'' :: '\'' :: '\'' :: '\'' :: rest => some (['\'', '\''], rest)
  | '\'' :: '\'' :: '\'' :: '\'' :: rest => some (['\''], rest)
  | '\'' :: '\'' :: '\'' :: rest => some ([], rest)
  | c :: rest => if isPlain c then prepend c (literalLines? rest) else none

/-- The text without a line end at its beginning. -/
def skipNewline (text : List Char) : List Char :=
  (newline? text).getD text

def string? : List Char → Option (List Char × List Char)
  | '"' :: '"' :: '"' :: rest => basicLines? false (skipNewline rest)
  | '"' :: rest => basic? rest
  | '\'' :: '\'' :: '\'' :: rest => literalLines? (skipNewline rest)
  | '\'' :: rest => literal? rest
  | _ => none

/-! ## Keys -/

def isBareKeyChar (c : Char) : Bool :=
  c.isAlphanum || c = '_' || c = '-'

/-- One part of a key. -/
def simpleKey? : List Char → Option (String × List Char)
  | '"' :: rest => (basic? rest).map fun (key, rest) => (String.ofList key, rest)
  | '\'' :: rest => (literal? rest).map fun (key, rest) => (String.ofList key, rest)
  | text =>
    match text.takeWhile isBareKeyChar with
    | [] => none
    | key => some (String.ofList key, text.dropWhile isBareKeyChar)

/-- The parts of a key, of which there are at most `bound`, with blanks around its dots. -/
def keyParts? : Nat → List Char → Option (List String × List Char)
  | 0, _ => none
  | bound + 1, text => do
    let (part, rest) ← simpleKey? (skipBlanks text)
    match skipBlanks rest with
    | '.' :: rest =>
      let (parts, rest) ← keyParts? bound rest
      return (part :: parts, rest)
    | rest => return ([part], rest)

/-- A key has less parts than this. -/
def nestingLimit : Nat := 80

def key? (text : List Char) : Option (List String × List Char) :=
  keyParts? (nestingLimit - 1) text

end EntityGraph.Toml
