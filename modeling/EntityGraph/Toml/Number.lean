/-!
# Numbers and dates of TOML

A number, a date or a truth value is a word without quotes. `integer?`, `isFloat`, `isTime`,
`isDateTime` and `isBool` tell what a word is; nothing else is allowed.

* Digits may be separated by single underscores; decimal numbers have no leading zeros.
* Integers have 64 bits with a sign, and floats may not be too large.
* Dates must exist in the calendar, and a minute may have 61 seconds.
-/

namespace EntityGraph.Toml

/-- The digits of a group, without the single underscores between them. -/
def ungroup? (isDigit : Char → Bool) : List Char → Option (List Char)
  | [] => none
  | [c] => if isDigit c then some [c] else none
  | c :: '_' :: rest => if isDigit c then (ungroup? isDigit rest).map (c :: ·) else none
  | c :: rest => if isDigit c then (ungroup? isDigit rest).map (c :: ·) else none

def digitsValue (base : Nat) (digits : List Char) : Nat :=
  digits.foldl (fun value c =>
    value * base + (if c.isDigit then c.toNat - '0'.toNat else c.toLower.toNat - 'a'.toNat + 10)) 0

def unsigned : List Char → Bool × List Char
  | '-' :: rest => (true, rest)
  | '+' :: rest => (false, rest)
  | text => (false, text)

/-- The digits of a decimal number without leading zeros. -/
def decimal? (text : List Char) : Option (List Char) := do
  let digits ← ungroup? Char.isDigit text
  if text.head? = some '0' ∧ text.length ≠ 1 then none else some digits

/-! ## Integers -/

def isHexDigit (c : Char) : Bool :=
  c.isDigit || ('a' ≤ c && c ≤ 'f') || ('A' ≤ c && c ≤ 'F')

def isOctalDigit (c : Char) : Bool :=
  '0' ≤ c && c ≤ '7'

def isBinaryDigit (c : Char) : Bool :=
  c = '0' || c = '1'

def inRange? (value : Int) : Option Int :=
  if -0x8000000000000000 ≤ value ∧ value < 0x8000000000000000 then some value else none

def integer? : List Char → Option Int
  | '0' :: 'x' :: rest =>
    (ungroup? isHexDigit rest).bind fun digits => inRange? (digitsValue 16 digits)
  | '0' :: 'o' :: rest =>
    (ungroup? isOctalDigit rest).bind fun digits => inRange? (digitsValue 8 digits)
  | '0' :: 'b' :: rest =>
    (ungroup? isBinaryDigit rest).bind fun digits => inRange? (digitsValue 2 digits)
  | text =>
    let (negative, rest) := unsigned text
    (decimal? rest).bind fun digits =>
      let value := (digitsValue 10 digits : Int)
      inRange? (if negative then -value else value)

/-! ## Floats -/

/-- A word before and after the first character of a kind. -/
def cut (isMark : Char → Bool) (text : List Char) : List Char × Option (List Char) :=
  match text.dropWhile (!isMark ·) with
  | [] => (text, none)
  | _ :: after => (text.takeWhile (!isMark ·), some after)

/-- The digits of an exponent, with its sign. -/
def exponent? : Option (List Char) → Option Int
  | none => some 0
  | some text =>
    let (negative, rest) := unsigned text
    (ungroup? Char.isDigit rest).map fun digits =>
      let value := (digitsValue 10 digits : Int)
      if negative then -value else value

def fraction? : Option (List Char) → Option (List Char)
  | none => some []
  | some text => ungroup? Char.isDigit text

/-- Whether `digits` times a power of ten is at least halfway from the largest finite number of double
precision to the next power of two. -/
def isTooLarge (digits : List Char) (exponent : Int) : Bool :=
  let value := digitsValue 10 digits
  let bound := Nat.pow 2 1024 - Nat.pow 2 970
  if value = 0 then false
  else if 400 < exponent then true
  else if 0 ≤ exponent then bound ≤ value * Nat.pow 10 exponent.toNat
  else if exponent < -(digits.length : Int) then false
  else bound * Nat.pow 10 (-exponent).toNat ≤ value

def isFloat (text : List Char) : Bool :=
  let (negative, rest) := unsigned text
  if rest = ['i', 'n', 'f'] ∨ rest = ['n', 'a', 'n'] then true
  else
    let (mantissa, exponent) := cut (fun c => c = 'e' || c = 'E') rest
    let (whole, fraction) := cut (· = '.') mantissa
    match decimal? whole, fraction? fraction, exponent? exponent with
    | some whole, some digits, some power =>
      (fraction.isSome || exponent.isSome) &&
        (negative || !isTooLarge (whole ++ digits) (power - digits.length))
    | _, _, _ => false

/-! ## Dates and times -/

/-- The number that `count` digits at the beginning give, and the rest. -/
def fixed? (count : Nat) (text : List Char) : Option (Nat × List Char) :=
  let digits := text.take count
  if digits.length = count && digits.all Char.isDigit then
    some (digitsValue 10 digits, text.drop count)
  else none

def daysIn (year month : Nat) : Nat :=
  if month = 2 then if year % 4 = 0 ∧ (year % 100 ≠ 0 ∨ year % 400 = 0) then 29 else 28
  else if month = 4 ∨ month = 6 ∨ month = 9 ∨ month = 11 then 30
  else 31

/-- The rest after a character. -/
def after? (mark : Char) : List Char → Option (List Char)
  | c :: rest => if c = mark then some rest else none
  | [] => none

/-- The rest after a date. -/
def date? (text : List Char) : Option (List Char) := do
  let (year, rest) ← fixed? 4 text
  let (month, rest) ← fixed? 2 (← after? '-' rest)
  let (day, rest) ← fixed? 2 (← after? '-' rest)
  if 1 ≤ month ∧ month ≤ 12 ∧ 1 ≤ day ∧ day ≤ daysIn year month then some rest else none

/-- The rest after hours and minutes. -/
def minutes? (text : List Char) : Option (List Char) := do
  let (hour, rest) ← fixed? 2 text
  let (minute, rest) ← fixed? 2 (← after? ':' rest)
  if hour ≤ 23 ∧ minute ≤ 59 then some rest else none

/-- The rest after a time of day. -/
def time? (text : List Char) : Option (List Char) := do
  let (second, rest) ← fixed? 2 (← after? ':' (← minutes? text))
  if 60 < second then none
  else
    match rest with
    | '.' :: fraction =>
      match fraction.takeWhile Char.isDigit with
      | [] => none
      | _ => some (fraction.dropWhile Char.isDigit)
    | rest => some rest

/-- Whether the text is an offset from universal time, or empty. -/
def isOffset : List Char → Bool
  | [] => true
  | ['Z'] | ['z'] => true
  | sign :: rest => (sign = '+' || sign = '-') && minutes? rest = some []

def isTime (text : List Char) : Bool :=
  time? text = some []

/-- Whether the text is a time of day with or without an offset. -/
def isOffsetTime (text : List Char) : Bool :=
  match time? text with
  | some rest => isOffset rest
  | none => false

def isDate (text : List Char) : Bool :=
  date? text = some []

def isDateTime (text : List Char) : Bool :=
  match date? text with
  | some [] => true
  | some (mark :: rest) => (mark = 'T' || mark = 't') && isOffsetTime rest
  | none => false

/-! ## Words -/

/-- The characters of words. -/
def isWordChar (c : Char) : Bool :=
  c.isAlphanum || c = '_' || c = '+' || c = '-' || c = '.' || c = ':'

def bool? (text : List Char) : Option Bool :=
  if text = ['t', 'r', 'u', 'e'] then some true
  else if text = ['f', 'a', 'l', 's', 'e'] then some false
  else none

end EntityGraph.Toml
