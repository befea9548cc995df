import EntityGraph.Project.Registry
import Mathlib.Data.List.Induction

/-!
# Registered grammars

A registry knows a grammar by its name and, for each extension, the name of the grammar that was registered
last with it. A later grammar of the same name replaces an earlier one but does not take its extensions
back: they then lead to a grammar that need not declare them.

* `Registry.byName?_registerAll`, `Registry.lookup_owners_registerAll`: what the two parts of a registry
  hold after any registrations;
* `Registry.current`: the registrations that no later one has replaced;
* `Registry.byExtension?_registerAll`: which grammar an extension leads to, and when it is the newest of
  the current ones that declare it;
* `Registry.byExtension?_replaced`: an extension that another grammar declares leads to one that does not.
-/

namespace EntityGraph

def Grammar.declares (grammar : Grammar) (extension : String) : Bool :=
  grammar.extensions.contains extension

def Grammar.isNamed (grammar : Grammar) (name : String) : Bool :=
  grammar.name = name

namespace Registry

/-! ## Registrations in order -/

/-- The newest of the registrations that satisfy `p`; the oldest comes first. -/
def newest? (p : Grammar → Bool) (history : List Grammar) : Option Grammar :=
  (history.filter p).getLast?

/-- The registrations that no later one of the same name has replaced. -/
def current : List Grammar → List Grammar
  | [] => []
  | grammar :: later =>
    if later.any (·.isNamed grammar.name) then current later else grammar :: current later

section History

variable {p q : Grammar → Bool} {grammar found : Grammar} {history : List Grammar}

theorem newest?_append_singleton (p : Grammar → Bool) (history : List Grammar) (grammar : Grammar) :
    newest? p (history ++ [grammar]) = if p grammar then some grammar else newest? p history := by
  rw [newest?, List.filter_append]
  cases h : p grammar <;> simp [newest?, h]

theorem of_newest?_eq_some (h : newest? p history = some grammar) : grammar ∈ history ∧ p grammar :=
  List.mem_filter.mp (List.mem_of_getLast? h)

/-- Of the registrations with a property the newest stays the newest if others are left out. -/
theorem newest?_filter (h : newest? p history = some grammar) (hq : q grammar) :
    newest? p (history.filter q) = some grammar := by
  obtain ⟨front, hfront⟩ := List.getLast?_eq_some_iff.mp h
  have hswap : (history.filter q).filter p = (history.filter p).filter q := by
    simp only [List.filter_filter, Bool.and_comm]
  rw [newest?, hswap, hfront, List.filter_append]
  simp [hq]

/-- Two newest registrations are the same if each has the property that the other is the newest with. -/
theorem eq_of_newest? (h : newest? p history = some grammar) (hfound : newest? q history = some found)
    (hq : q grammar) (hp : p found) : found = grammar := by
  induction history using List.reverseRecOn with
  | nil => cases h
  | append_singleton history last ih =>
    rw [newest?_append_singleton] at h hfound
    split at h
    · cases h
      rw [if_pos hq] at hfound
      exact (Option.some.inj hfound).symm
    · next hnot =>
      split at hfound
      · cases hfound
        exact absurd hp hnot
      · exact ih h hfound

theorem newest?_eq_none_iff : newest? p history = none ↔ ∀ grammar ∈ history, p grammar = false := by
  simp [newest?]

theorem exists_newest?_isNamed (h : grammar ∈ history) :
    ∃ found, newest? (·.isNamed grammar.name) history = some found := by
  have hmem : grammar ∈ history.filter (·.isNamed grammar.name) :=
    List.mem_filter.mpr ⟨h, by simp [Grammar.isNamed]⟩
  exact ⟨_, List.getLast?_eq_some_getLast (List.ne_nil_of_mem hmem)⟩

theorem current_subset (history : List Grammar) : current history ⊆ history := by
  induction history with
  | nil => exact List.Subset.refl _
  | cons first later ih =>
    rw [current]
    split
    · exact List.Subset.trans ih (List.subset_cons_self _ _)
    · exact List.cons_subset_cons _ ih

theorem current_append_singleton (history : List Grammar) (grammar : Grammar) :
    current (history ++ [grammar]) =
      (current history).filter (!·.isNamed grammar.name) ++ [grammar] := by
  induction history with
  | nil => rfl
  | cons first later ih =>
    rw [List.cons_append, current, current, ih, List.any_append]
    cases hlater : later.any (·.isNamed first.name) with
    | true => simp
    | false =>
      by_cases hname : grammar.name = first.name <;> simp [Grammar.isNamed, hname, eq_comm]

/-- A registration is current if it is the newest of its name. -/
theorem mem_current_iff :
    grammar ∈ current history ↔ newest? (·.isNamed grammar.name) history = some grammar := by
  induction history using List.reverseRecOn with
  | nil => simp [current, newest?]
  | append_singleton history last ih =>
    rw [current_append_singleton, newest?_append_singleton, List.mem_append, List.mem_filter, ih,
      List.mem_singleton]
    by_cases hname : last.name = grammar.name
    · simp [Grammar.isNamed, hname, eq_comm]
    · have hne : grammar ≠ last := fun heq => hname (heq ▸ rfl)
      simp [Grammar.isNamed, hname, Ne.symm hname, hne]

/-- The newest registration with a property is the newest current one with it, if it is current. -/
theorem newest?_current (h : newest? p history = some grammar) (hcurrent : grammar ∈ current history) :
    newest? p (current history) = some grammar := by
  induction history using List.reverseRecOn with
  | nil => cases h
  | append_singleton history last ih =>
    rw [current_append_singleton] at hcurrent ⊢
    rw [newest?_append_singleton] at h ⊢
    split at h
    · next hlast => rwa [if_pos hlast]
    · next hlast =>
      rw [if_neg hlast]
      have hne : grammar ≠ last := fun heq => hlast (heq ▸ (of_newest?_eq_some h).2)
      have hkept := (List.mem_append.mp hcurrent).resolve_right (by simpa using hne)
      exact newest?_filter (ih h (List.mem_filter.mp hkept).1) (List.mem_filter.mp hkept).2

/-- The newest registration with a property is current exactly if the newest of its name has the property
too. -/
theorem mem_current_iff_of_newest? (h : newest? p history = some grammar)
    (hfound : newest? (·.isNamed grammar.name) history = some found) :
    grammar ∈ current history ↔ p found := by
  rw [mem_current_iff, hfound, Option.some_inj]
  constructor
  · rintro rfl
    exact (of_newest?_eq_some h).2
  · exact eq_of_newest? h hfound (by simp [Grammar.isNamed])

end History

/-! ## What a registry holds -/

theorem lookup_filter_ne {α : Type} {key other : String} (hne : other ≠ key)
    (pairs : List (String × α)) : (pairs.filter (·.1 ≠ key)).lookup other = pairs.lookup other := by
  induction pairs with
  | nil => rfl
  | cons pair rest ih =>
    by_cases hkey : pair.1 = key
    · rw [List.filter_cons_of_neg (by simpa using hkey), ih, List.lookup_cons, hkey,
        beq_false_of_ne hne]
    · rw [List.filter_cons_of_pos (by simpa using hkey), List.lookup_cons, List.lookup_cons, ih]

theorem lookup_put {α : Type} (key other : String) (value : α) (pairs : List (String × α)) :
    (put key value pairs).lookup other = if other = key then some value else pairs.lookup other := by
  rw [put, List.lookup_cons]
  by_cases hkey : other = key
  · simp [hkey]
  · rw [beq_false_of_ne hkey, if_neg hkey]
    exact lookup_filter_ne hkey pairs

theorem registerAll_append_singleton (registry : Registry) (history : List Grammar) (grammar : Grammar) :
    registry.registerAll (history ++ [grammar]) = (registry.registerAll history).register grammar := by
  rw [registerAll, List.foldl_append]
  rfl

theorem byName?_registerAll (history : List Grammar) (name : String) :
    (empty.registerAll history).byName? name = newest? (·.isNamed name) history := by
  induction history using List.reverseRecOn with
  | nil => rfl
  | append_singleton history grammar ih =>
    rw [registerAll_append_singleton, newest?_append_singleton, ← ih, byName?, register]
    rw [lookup_put]
    simp [Grammar.isNamed, eq_comm, byName?]

/-- The extensions of a grammar belong to its name, the others to what they belonged to before. -/
theorem lookup_owners_register (registry : Registry) (grammar : Grammar) (extension : String) :
    (registry.register grammar).owners.lookup extension =
      if grammar.declares extension then some grammar.name else registry.owners.lookup extension := by
  rw [register, Grammar.declares]
  induction grammar.extensions using List.reverseRecOn with
  | nil => rfl
  | append_singleton extensions last ih =>
    rw [List.foldl_append, List.foldl_cons, List.foldl_nil, lookup_put, ih]
    by_cases hlast : extension = last <;> simp [hlast]

theorem lookup_owners_registerAll (history : List Grammar) (extension : String) :
    (empty.registerAll history).owners.lookup extension =
      (newest? (·.declares extension) history).map Grammar.name := by
  induction history using List.reverseRecOn with
  | nil => rfl
  | append_singleton history grammar ih =>
    rw [registerAll_append_singleton, lookup_owners_register, newest?_append_singleton, ih]
    split <;> rfl

theorem mem_extensions_iff (registry : Registry) (extension : String) :
    extension ∈ registry.extensions ↔ (registry.owners.lookup extension).isSome := by
  rw [extensions, List.mem_mergeSort, List.mem_map, List.lookup_isSome_iff]
  exact exists_congr fun _ => and_congr_right' (by rw [beq_iff_eq, eq_comm])

/-! ## What an extension leads to -/

section Extensions

variable (history : List Grammar) (extension : String)

/-- An extension leads to the newest grammar of the name that its newest registration has. -/
theorem byExtension?_empty_registerAll :
    (empty.registerAll history).byExtension? extension =
      (newest? (·.declares extension) history).bind fun owner =>
        newest? (·.isNamed owner.name) history := by
  rw [byExtension?, lookup_owners_registerAll, Option.bind_map]
  exact congrArg _ (funext fun owner => byName?_registerAll history owner.name)

theorem isSome_byExtension?_iff :
    ((empty.registerAll history).byExtension? extension).isSome ↔
      extension ∈ (empty.registerAll history).extensions := by
  rw [mem_extensions_iff, lookup_owners_registerAll, byExtension?_empty_registerAll]
  cases howner : newest? (·.declares extension) history with
  | none => rfl
  | some owner =>
    obtain ⟨found, hfound⟩ := exists_newest?_isNamed (of_newest?_eq_some howner).1
    simp [hfound]

/-- The grammar that an extension leads to declares it exactly if the newest registration with the
extension is current. -/
theorem declares_byExtension?_iff :
    (∀ found ∈ (empty.registerAll history).byExtension? extension, found.declares extension) ↔
      ∀ owner ∈ newest? (·.declares extension) history, owner ∈ current history := by
  rw [byExtension?_empty_registerAll]
  cases howner : newest? (·.declares extension) history with
  | none => simp
  | some owner =>
    obtain ⟨found, hfound⟩ := exists_newest?_isNamed (of_newest?_eq_some howner).1
    simp [hfound, mem_current_iff_of_newest? howner hfound]

theorem byExtension?_eq_newest?_current_iff :
    (empty.registerAll history).byExtension? extension =
        newest? (·.declares extension) (current history) ↔
      ∀ owner ∈ newest? (·.declares extension) history, owner ∈ current history := by
  constructor
  · -- The newest current grammar with the extension declares it.
    intro heq
    rw [← declares_byExtension?_iff, heq]
    exact fun found hfound => (of_newest?_eq_some hfound).2
  · intro hcurrent
    rw [byExtension?_empty_registerAll]
    cases howner : newest? (·.declares extension) history with
    | none =>
      refine (newest?_eq_none_iff.mpr fun grammar hg => ?_).symm
      exact newest?_eq_none_iff.mp howner grammar (current_subset history hg)
    | some owner =>
      have hmem : owner ∈ current history := hcurrent owner howner
      rw [newest?_current howner hmem]
      exact mem_current_iff.mp hmem

end Extensions

/-- After any registrations an extension leads to a grammar exactly if it is supported, and then to the
current grammar that has the name of the newest registration with the extension. That is the newest of the
current grammars that declare the extension, and declares it at all, exactly if the newest registration
with the extension is current itself. -/
theorem byExtension?_registerAll (grammars : List Grammar) (extension : String) :
    let history := .python :: grammars
    let registry := standard.registerAll grammars
    let owner? := newest? (·.declares extension) history
    (∀ grammar, grammar ∈ current history ↔ registry.byName? grammar.name = some grammar) ∧
      ((registry.byExtension? extension).isSome ↔ extension ∈ registry.extensions) ∧
      registry.byExtension? extension = owner?.bind (fun owner => registry.byName? owner.name) ∧
      (registry.byExtension? extension = newest? (·.declares extension) (current history) ↔
        ∀ owner ∈ owner?, owner ∈ current history) ∧
      ((∀ found ∈ registry.byExtension? extension, found.declares extension) ↔
        ∀ owner ∈ owner?, owner ∈ current history) := by
  intro history registry owner?
  have hregistry : registry = empty.registerAll history := rfl
  rw [hregistry]
  refine ⟨fun grammar => ?_, isSome_byExtension?_iff history extension, ?_,
    byExtension?_eq_newest?_current_iff history extension, declares_byExtension?_iff history extension⟩
  · rw [byName?_registerAll, mem_current_iff]
  · rw [byExtension?_empty_registerAll]
    exact congrArg _ (funext fun owner => (byName?_registerAll history owner.name).symm)

/-- The extension x, registered with a and then with b, leads to b even after b is registered without it. -/
theorem byExtension?_replaced :
    let grammars : List Grammar := [⟨"a", ["x"]⟩, ⟨"b", ["x"]⟩, ⟨"b", ["y"]⟩]
    (standard.registerAll grammars).byExtension? "x" = some ⟨"b", ["y"]⟩ ∧
      newest? (·.declares "x") (current (.python :: grammars)) = some ⟨"a", ["x"]⟩ ∧
      "x" ∈ (standard.registerAll grammars).extensions :=
  ⟨by decide, by decide, (mem_extensions_iff _ _).mpr (by decide)⟩

end Registry

end EntityGraph
