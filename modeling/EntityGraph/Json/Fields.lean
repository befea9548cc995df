import EntityGraph.Json.Basic

/-!
# Values from JSON

What every reader of JSON needs: values of one kind, and the fields of records.

* `string?`, `bool?`, `word?` and `list?` read a value that must be of the kind;
* `tagged?` reads an object with exactly one member, the form of a choice among alternatives;
* `record?` are the fields of a record: the members of an object, or the items of an array in order;
* `required?`, `optional?` and `defaulted?` read a field, which may be missing or null as they say.
-/

namespace EntityGraph.Json

def string? : Json → Option String
  | .string text => some text
  | _ => none

def bool? : Json → Option Bool
  | .bool value => some value
  | _ => none

/-- A natural number of at most 64 bits. -/
def word? : Json → Option Nat
  | .nat value => if value < 0x10000000000000000 then some value else none
  | _ => none

def byte? : Json → Option UInt8
  | .nat value => if value < 256 then some (UInt8.ofNat value) else none
  | _ => none

/-- An array all of whose items are read. -/
def list? {α : Type} (read : Json → Option α) : Json → Option (List α)
  | .array items => items.mapM read
  | _ => none

def tagged? : Json → Option (String × Json)
  | .object [member] => some member
  | _ => none

/-! ## Records -/

/-- The fields of a record with these names. An array has at least the first `needed` of them. -/
def record? (names : List String) (needed : Nat) : Json → Option (List (String × Json))
  | .object members => some members
  | .array items =>
    if needed ≤ items.length ∧ items.length ≤ names.length then some (names.zip items) else none
  | _ => none

def required? {α : Type} (read : Json → Option α) (name : String)
    (fields : List (String × Json)) : Option α :=
  (get? name fields).bind read

/-- The value of a field, none if it is missing or null. -/
def optional? {α : Type} (read : Json → Option α) (name : String)
    (fields : List (String × Json)) : Option (Option α) :=
  match get? name fields with
  | none | some .null => some none
  | some value => some <$> read value

/-- The value of a field, which may be missing but not null. -/
def defaulted? {α : Type} (read : Json → Option α) (default : α) (name : String)
    (fields : List (String × Json)) : Option α :=
  match get? name fields with
  | none => some default
  | some value => read value

end EntityGraph.Json
