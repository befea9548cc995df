import Mathlib.Data.List.Forall2

/-!
# Reading texts from the front

A `Reader` takes a value off the front of a text and leaves the rest. `Reads` tells that it takes a value
off a text whatever comes after the text, and `ReadsAt` that it does so before certain characters: a
token ends at the first of them. `Refuses` and `RefusesAt` tell that there is nothing to take.

* `Reads.bind`, `Reads.orElse_right`: readers one after the other, and one where another refuses;
* `Reads.word`, `ReadsAt.token`: fixed words, and tokens;
* `Reads.items`: the items of a list with a comma and a blank between them.
-/

namespace EntityGraph.Text

/-- Takes a value off the front of a text, and gives it with the rest. -/
abbrev Reader (α : Type) :=
  StateT (List Char) Option α

variable {α β : Type}

namespace Reader

/-- Takes off a word that has to be there. -/
def word (expected : String) : Reader Unit := fun text =>
  if expected.toList.isPrefixOf text then some ((), text.drop expected.toList.length) else none

/-- Takes off everything before the first character that stops. -/
def token (stops : Char → Bool) : Reader String := fun text =>
  some (String.ofList (text.takeWhile (!stops ·)), text.dropWhile (!stops ·))

/-- Takes off a value and the word after it. -/
def before (reader : Reader α) (close : String) : Reader α := do
  let value ← reader
  word close
  return value

/-- Takes off one or more items, but no more than `bound`, and the word after them. -/
def someItems (item : Reader α) (close : String) : Nat → Reader (List α)
  | 0 => failure
  | bound + 1 => do
    let first ← item
    (do word close; return [first]) <|> do
      word ", "
      let further ← someItems item close bound
      return first :: further

/-- Takes off the items of a list and the word after them. -/
def items (item : Reader α) (close : String) : Reader (List α) := fun text =>
  (someItems item close text.length <|> do word close; return []) text

/-! ## One text -/

section Steps

variable {reader first second : Reader α} {next : α → Reader β} {text rest : List Char} {value : α}

theorem bind_of_some (h : reader text = some (value, rest)) : (reader >>= next) text = next value rest := by
  show (reader text >>= fun p => next p.1 p.2) = _
  rw [h]
  rfl

theorem bind_of_none (h : reader text = none) : (reader >>= next) text = none := by
  show (reader text >>= fun p => next p.1 p.2) = _
  rw [h]
  rfl

theorem orElse_of_some (h : first text = some (value, rest)) :
    (first <|> second) text = some (value, rest) := by
  show (first text <|> second text) = _
  rw [h]
  rfl

theorem orElse_of_none (h : first text = none) : (first <|> second) text = second text := by
  show (first text <|> second text) = _
  rw [h]
  rfl

/-- A word does not come where another character is than its first. -/
theorem word_of_ne {expected : String} {c d : Char} (hc : expected.toList.head? = some c) (hne : c ≠ d)
    (rest : List Char) : word expected (d :: rest) = none := by
  obtain ⟨more, hmore⟩ := List.head?_eq_some_iff.mp hc
  rw [word, hmore, List.isPrefixOf, beq_eq_false_iff_ne.mpr hne, Bool.false_and]
  rfl

end Steps

end Reader

open Reader

/-! ## Any text -/

/-- The reader takes the value off the text, whatever comes after it. -/
def Reads (reader : Reader α) (text : String) (value : α) : Prop :=
  ∀ rest, reader (text.toList ++ rest) = some (value, rest)

/-- The reader takes the value off the text if a character that stops comes next. -/
def ReadsAt (stops : Char → Bool) (reader : Reader α) (text : String) (value : α) : Prop :=
  ∀ c rest, stops c = true → reader (text.toList ++ c :: rest) = some (value, c :: rest)

/-- The reader takes nothing off a text that begins like this. -/
def Refuses (reader : Reader α) (text : String) : Prop :=
  ∀ rest, reader (text.toList ++ rest) = none

/-- The reader takes nothing off a text that a character that stops comes after. -/
def RefusesAt (stops : Char → Bool) (reader : Reader α) (text : String) : Prop :=
  ∀ c rest, stops c = true → reader (text.toList ++ c :: rest) = none

namespace Refuses

variable {reader : Reader α} {text : String}

theorem word {expected : String} {c d : Char} (hc : expected.toList.head? = some c)
    (hd : text.toList.head? = some d) (hne : c ≠ d) : Refuses (Reader.word expected) text := by
  intro rest
  obtain ⟨cs, hcs⟩ := List.head?_eq_some_iff.mp hd
  rw [hcs]
  exact word_of_ne hc hne (cs ++ rest)

theorem bind (h : Refuses reader text) (next : α → Reader β) : Refuses (reader >>= next) text :=
  fun rest => bind_of_none (h rest)

theorem append (h : Refuses reader text) (more : String) : Refuses reader (text ++ more) := by
  intro rest
  rw [String.toList_append, List.append_assoc]
  exact h (more.toList ++ rest)

end Refuses

namespace RefusesAt

variable {stops : Char → Bool} {reader first second : Reader α} {text close : String}

theorem word {expected : String} {c : Char} (hc : expected.toList.head? = some c) (h : stops c = false) :
    RefusesAt stops (Reader.word expected) "" := by
  intro d rest hd
  have hne : c ≠ d := fun heq => by rw [heq, hd] at h; cases h
  exact word_of_ne hc hne rest

theorem bind (h : RefusesAt stops reader text) (next : α → Reader β) :
    RefusesAt stops (reader >>= next) text :=
  fun c rest hc => bind_of_none (h c rest hc)

theorem orElse (hfirst : RefusesAt stops first text) (hsecond : RefusesAt stops second text) :
    RefusesAt stops (first <|> second) text :=
  fun c rest hc => (orElse_of_none (hfirst c rest hc)).trans (hsecond c rest hc)

theorem refuses (h : RefusesAt stops reader "") (hclose : ∃ c ∈ close.toList.head?, stops c = true) :
    Refuses reader close := by
  intro rest
  obtain ⟨c, hhead, hc⟩ := hclose
  obtain ⟨cs, hcs⟩ := List.head?_eq_some_iff.mp hhead
  rw [hcs]
  exact h c (cs ++ rest) hc

end RefusesAt

namespace Reads

variable {reader first second : Reader α} {next : α → Reader β} {text more : String} {value : α}
  {result : β}

theorem bind (h : Reads reader text value) (hnext : Reads (next value) more result) :
    Reads (reader >>= next) (text ++ more) result := by
  intro rest
  rw [String.toList_append, List.append_assoc]
  exact (bind_of_some (h (more.toList ++ rest))).trans (hnext rest)

theorem bind_pure (h : Reads reader text value) (f : α → β) :
    Reads (reader >>= fun value => pure (f value)) text (f value) :=
  fun rest => bind_of_some (h rest)

theorem word (expected : String) : Reads (word expected) expected () := by
  intro rest
  have hprefix : expected.toList.isPrefixOf (expected.toList ++ rest) = true :=
    List.isPrefixOf_iff_prefix.mpr (List.prefix_append _ _)
  rw [Reader.word, if_pos hprefix, List.drop_left]

theorem orElse_left (h : Reads first text value) : Reads (first <|> second) text value :=
  fun rest => orElse_of_some (h rest)

theorem orElse_right (hfirst : Refuses first text) (h : Reads second text value) :
    Reads (first <|> second) text value :=
  fun rest => (orElse_of_none (hfirst rest)).trans (h rest)

theorem readsAt (h : Reads reader text value) (stops : Char → Bool) : ReadsAt stops reader text value :=
  fun c rest _ => h (c :: rest)

end Reads

namespace ReadsAt

variable {stops ends : Char → Bool} {reader first second : Reader α} {next : α → Reader β}
  {text close more : String} {value : α} {result : β}

theorem token (h : ∀ c ∈ text.toList, stops c = false) : ReadsAt stops (token stops) text text := by
  intro c rest hc
  have hpos : ∀ d ∈ text.toList, (!stops d) = true := fun d hd => by rw [h d hd]; rfl
  rw [Reader.token, List.takeWhile_append_of_pos hpos, List.dropWhile_append_of_pos hpos,
    List.takeWhile_cons_of_neg (by simp [hc]), List.dropWhile_cons_of_neg (by simp [hc]),
    List.append_nil, String.ofList_toList]

/-- What is read next begins with a character that stops. -/
theorem bind (h : ReadsAt stops reader text value) (hnext : Reads (next value) more result)
    (hmore : ∃ c ∈ more.toList.head?, stops c = true) : Reads (reader >>= next) (text ++ more) result := by
  intro rest
  obtain ⟨c, hhead, hc⟩ := hmore
  obtain ⟨cs, hcs⟩ := List.head?_eq_some_iff.mp hhead
  have hvalue : reader (text.toList ++ (more.toList ++ rest)) = some (value, more.toList ++ rest) := by
    rw [hcs]
    exact h c (cs ++ rest) hc
  rw [String.toList_append, List.append_assoc]
  exact (bind_of_some hvalue).trans (hnext rest)

theorem before (h : ReadsAt stops reader text value)
    (hclose : ∃ c ∈ close.toList.head?, stops c = true) :
    Reads (before reader close) (text ++ close) value :=
  h.bind ((Reads.word close).bind_pure fun _ => value) hclose

theorem orElse_right (hfirst : RefusesAt stops first text) (h : ReadsAt stops second text value) :
    ReadsAt stops (first <|> second) text value :=
  fun c rest hc => (orElse_of_none (hfirst c rest hc)).trans (h c rest hc)

/-- Where what is read next does not come. -/
theorem bind_refusesAt (h : ReadsAt stops reader text value)
    (hends : ∀ c, ends c = true → stops c = true) (hnext : RefusesAt ends (next value) "") :
    RefusesAt ends (reader >>= next) text :=
  fun c rest hc => (bind_of_some (h c rest (hends c hc))).trans (hnext c rest hc)

end ReadsAt

/-! ## Lists of items -/

section Items

variable {stops : Char → Bool} {item : Reader α} {close : String} {texts : List String} {values : List α}

theorem length_le_length_intercalate (texts : List String) :
    texts.length ≤ (", ".intercalate texts).length + 1 := by
  induction texts with
  | nil => exact Nat.zero_le _
  | cons text rest ih =>
    cases rest with
    | nil => exact Nat.le_add_left 1 _
    | cons second more =>
      rw [String.intercalate_cons_cons, String.length_append, String.length_append, List.length_cons]
      have hcomma : ", ".length = 2 := rfl
      omega

/-- One or more items of a list that a bracket closes. -/
theorem Reads.someItems (hcomma : stops ',' = true) (hbracket : stops ']' = true)
    (hclose : close.toList.head? = some ']') (hitems : List.Forall₂ (ReadsAt stops item) texts values)
    (hne : texts ≠ []) {bound : Nat} (hbound : texts.length ≤ bound) :
    Reads (someItems item close bound) (", ".intercalate texts ++ close) values := by
  induction hitems generalizing bound with
  | nil => exact absurd rfl hne
  | @cons text value rest further hitem hrest ih =>
    obtain ⟨bound, rfl⟩ : ∃ b, bound = b + 1 := ⟨bound - 1, by rw [List.length_cons] at hbound; omega⟩
    rw [Reader.someItems]
    -- A bracket comes after the last item, and a comma after every other one.
    cases hrest with
    | nil =>
      rw [String.intercalate_singleton]
      refine hitem.bind ?_ ⟨']', hclose, hbracket⟩
      exact .orElse_left ((Reads.word close).bind_pure fun _ => [value])
    | cons hsecond hmore =>
      have hfurther := ih (List.cons_ne_nil _ _) (Nat.le_of_succ_le_succ hbound)
      rw [String.intercalate_cons_cons, String.append_assoc, String.append_assoc]
      refine hitem.bind (.orElse_right ?_ ?_) ⟨',', ?_, hcomma⟩
      · exact ((Refuses.word hclose rfl (by decide)).append _).bind _
      · exact (Reads.word ", ").bind (hfurther.bind_pure (value :: ·))
      · rw [String.toList_append]
        rfl

/-- The items of a list that a bracket closes. -/
theorem Reads.items (hcomma : stops ',' = true) (hbracket : stops ']' = true)
    (hclose : close.toList.head? = some ']') (hitems : List.Forall₂ (ReadsAt stops item) texts values)
    (hrefuse : RefusesAt stops item "") :
    Reads (items item close) (", ".intercalate texts ++ close) values := by
  intro rest
  by_cases hne : texts = []
  · subst hne
    cases hitems
    have hnone : ∀ bound, Refuses (Reader.someItems item close bound) close := by
      intro bound
      cases bound with
      | zero => exact fun _ => rfl
      | succ bound => exact (hrefuse.refuses ⟨']', hclose, hbracket⟩).bind _
    rw [String.intercalate_nil, String.empty_append]
    exact Reads.orElse_right (hnone _) ((Reads.word close).bind_pure fun _ => []) rest
  · have hbound : texts.length ≤ ((", ".intercalate texts ++ close).toList ++ rest).length := by
      have hlength := length_le_length_intercalate texts
      obtain ⟨cs, hcs⟩ := List.head?_eq_some_iff.mp hclose
      rw [String.toList_append, hcs, List.length_append, List.length_append, String.length_toList,
        List.length_cons]
      omega
    exact Reads.orElse_left (.someItems hcomma hbracket hclose hitems hne hbound) rest

end Items

end EntityGraph.Text
