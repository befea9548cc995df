/-!
# Exclude patterns

A pattern describes the paths of the files that are left out, over the characters of the whole path.

* `?` is any character, `*` any sequence of characters, slashes included;
* `[…]` is a character of a class, `[!…]` one outside it; in a class `a-z` is a range;
* `**` is a whole component of the pattern: nothing, or any text that ends in a slash, or all of it.

`Pattern.compile` reads a pattern or says what is wrong with it, and `Pattern.accepts` decides whether
a text fits.
-/

namespace EntityGraph

namespace Pattern

/-- One character, or the characters from one to another. -/
inductive Specifier where
  | single (c : Char)
  | range (first last : Char)
  deriving DecidableEq

inductive Token where
  | char (c : Char)
  | anyChar
  | anySequence
  | anyComponents
  | within (specifiers : List Specifier)
  | outside (specifiers : List Specifier)
  deriving DecidableEq

inductive ErrorKind where
  | wildcards
  | component
  | range
  deriving DecidableEq

/-- What is wrong with a pattern, and the position of the character where that shows. -/
structure Error where
  position : Nat
  kind : ErrorKind
  deriving DecidableEq

def ErrorKind.message : ErrorKind → String
  | .wildcards => "wildcards are either regular `*` or recursive `**`"
  | .component => "recursive wildcards must form a single path component"
  | .range => "invalid range pattern"

def Error.message (error : Error) : String :=
  "Pattern syntax error near position " ++ toString error.position ++ ": " ++ error.kind.message

/-! ## Reading -/

def specifiers : List Char → List Specifier
  | first :: '-' :: last :: rest => .range first last :: specifiers rest
  | c :: rest => .single c :: specifiers rest
  | [] => []

/-- The class that begins with `first`, and the text after its closing bracket. The first character
belongs to the class even if it is a bracket. -/
def classFrom? (first : Char) (rest : List Char) : Option (List Specifier × List Char) :=
  match rest.dropWhile (· ≠ ']') with
  | [] => none
  | _ :: after => some (specifiers (first :: rest.takeWhile (· ≠ ']')), after)

/-- The class after an opening bracket, and the text after it. -/
def class? : List Char → Option (Token × List Char)
  | '!' :: first :: rest => (classFrom? first rest).map fun (found, after) => (.outside found, after)
  | '!' :: [] => none
  | first :: rest => (classFrom? first rest).map fun (found, after) => (.within found, after)
  | [] => none

/-- The tokens with one more `**`, which adds nothing directly after another one. -/
def addComponents (tokens : List Token) : List Token :=
  if 1 < tokens.length ∧ tokens.getLast? = some .anyComponents then tokens
  else tokens ++ [.anyComponents]

theorem length_lt_of_classFrom? {first : Char} {rest after : List Char} {found : List Specifier}
    (h : classFrom? first rest = some (found, after)) : after.length < rest.length := by
  unfold classFrom? at h
  split at h
  · cases h
  · rename_i hd
    cases h
    have := (List.dropWhile_sublist (l := rest) (· ≠ ']')).length_le
    rw [hd] at this
    exact this

theorem length_lt_of_class? {text after : List Char} {token : Token}
    (h : class? text = some (token, after)) : after.length < text.length := by
  unfold class? at h
  split at h
  · obtain ⟨⟨found, rest⟩, hc, he⟩ := Option.map_eq_some_iff.1 h
    cases he
    have := length_lt_of_classFrom? hc
    simp only [List.length_cons]
    omega
  · cases h
  · obtain ⟨⟨found, rest⟩, hc, he⟩ := Option.map_eq_some_iff.1 h
    cases he
    have := length_lt_of_classFrom? hc
    simp only [List.length_cons]
    omega
  · cases h

/-- Reads the text of a pattern from `position` on. `opens` tells whether a component begins there,
and `tokens` is what was read before. -/
def compileFrom (position : Nat) (opens : Bool) (tokens : List Token) :
    List Char → Except Error (List Token)
  | [] => .ok tokens
  | '*' :: '*' :: '*' :: _ => .error ⟨position + 2, .wildcards⟩
  | '*' :: '*' :: rest =>
    if opens then
      match rest with
      | [] => .ok (addComponents tokens)
      | '/' :: rest => compileFrom (position + 3) true (addComponents tokens) rest
      | _ :: _ => .error ⟨position + 2, .component⟩
    else .error ⟨position - 1, .component⟩
  | '*' :: rest => compileFrom (position + 1) false (tokens ++ [.anySequence]) rest
  | '?' :: rest => compileFrom (position + 1) false (tokens ++ [.anyChar]) rest
  | '[' :: rest =>
    match h : class? rest with
    | none => .error ⟨position, .range⟩
    | some (token, after) =>
      have := length_lt_of_class? h
      compileFrom (position + 1 + (rest.length - after.length)) false (tokens ++ [token]) after
  | c :: rest => compileFrom (position + 1) (c == '/') (tokens ++ [.char c]) rest
termination_by text => text.length

def compile (text : String) : Except Error (List Token) :=
  compileFrom 0 true [] text.toList

/-! ## Matching -/

def Specifier.accepts (c : Char) : Specifier → Bool
  | .single d => c == d
  | .range first last => first ≤ c && c ≤ last

/-- Whether a token for one character accepts it. -/
def Token.acceptsChar (c : Char) : Token → Bool
  | .char d => c == d
  | .anyChar => true
  | .within specifiers => specifiers.any (·.accepts c)
  | .outside specifiers => !specifiers.any (·.accepts c)
  | .anySequence | .anyComponents => false

/-- The text from each place on, its end included. -/
def suffixes : List Char → List (List Char)
  | [] => [[]]
  | c :: rest => (c :: rest) :: suffixes rest

/-- The text after each slash. -/
def afterSlashes : List Char → List (List Char)
  | [] => []
  | c :: rest => if c = '/' then rest :: afterSlashes rest else afterSlashes rest

def accepts : List Token → List Char → Bool
  | [], text => text.isEmpty
  | .anySequence :: tokens, text => (suffixes text).any (accepts tokens)
  | .anyComponents :: tokens, text => (text :: afterSlashes text ++ [[]]).any (accepts tokens)
  | token :: tokens, c :: rest => token.acceptsChar c && accepts tokens rest
  | _ :: _, [] => false

end Pattern

/-- A pattern with the text it was read from. -/
structure Pattern where
  text : String
  tokens : List Pattern.Token
  deriving DecidableEq

def Pattern.ofText (text : String) : Except Pattern.Error Pattern :=
  (Pattern.mk text ·) <$> Pattern.compile text

def Pattern.fits (pattern : Pattern) (text : String) : Bool :=
  Pattern.accepts pattern.tokens text.toList

end EntityGraph
