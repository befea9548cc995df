import EntityGraph.Proofs.Graph.Symbols
import Mathlib.Data.List.Sort
import Mathlib.Data.String.Basic

/-!
# Filtered symbols

A map of symbols has its names in strictly increasing order, so it is the only such list with its entries
(`SymbolMap.IsOrdered`). Symbols that are filtered by name before they are put into a map are those that
the map of all symbols has for these names.

* `SymbolMap.isOrdered_insert`, `SymbolMap.isOrdered_ofList`: a map stays in order;
* `SymbolMap.mem_iff_get?`: the entries of a map in order are what it has for their names;
* `mem_symbols_iff`: the entries of a map of symbols, filtered or not;
* `File.symbols_filtered`: the filtered map is a part of the whole one.
-/

namespace EntityGraph

/-! ## Maps in order -/

namespace SymbolMap

variable {α : Type}

/-- The names strictly increase. -/
def IsOrdered (map : SymbolMap α) : Prop :=
  map.Pairwise fun a b => a.1 < b.1

theorem mem_insert {name : String} {value : α} {entry : String × α} {map : SymbolMap α}
    (h : entry ∈ insert name value map) : entry = (name, value) ∨ entry ∈ map := by
  induction map with
  | nil => exact .inl (List.mem_singleton.mp h)
  | cons first rest ih =>
    rw [insert] at h
    split at h
    · exact (List.mem_cons.mp h).imp_right (List.mem_cons_of_mem _)
    split at h
    · exact List.mem_cons.mp h
    · rcases List.mem_cons.mp h with rfl | h
      · exact .inr List.mem_cons_self
      · exact (ih h).imp_right (List.mem_cons_of_mem _)

theorem isOrdered_insert (name : String) (value : α) {map : SymbolMap α} (h : map.IsOrdered) :
    (insert name value map).IsOrdered := by
  induction map with
  | nil => exact List.pairwise_singleton _ _
  | cons first rest ih =>
    obtain ⟨key, old⟩ := first
    obtain ⟨hfirst, hrest⟩ := List.pairwise_cons.mp h
    rw [insert]
    split
    · next heq => exact .cons (heq ▸ hfirst) hrest
    split
    · next hlt =>
      exact .cons (List.forall_mem_cons.mpr ⟨hlt, fun entry he => hlt.trans (hfirst entry he)⟩) h
    · next hne hnot =>
      refine .cons (fun entry he => ?_) (ih hrest)
      rcases mem_insert he with rfl | he
      · exact lt_of_le_of_ne (not_lt.mp hnot) hne
      · exact hfirst entry he

theorem isOrdered_ofList (entries : List (String × α)) : (ofList entries).IsOrdered := by
  induction entries using List.reverseRecOn with
  | nil => exact .nil
  | append_singleton entries entry ih =>
    rw [ofList, List.foldl_append]
    exact isOrdered_insert _ _ ih

/-- What a map in order has for a name is its entry of that name. -/
theorem mem_iff_get? {map : SymbolMap α} (h : map.IsOrdered) {key : String} {value : α} :
    (key, value) ∈ map ↔ get? key map = some value := by
  induction map with
  | nil => simp [get?]
  | cons first rest ih =>
    obtain ⟨name, other⟩ := first
    obtain ⟨hfirst, hrest⟩ := List.pairwise_cons.mp h
    rw [get?_cons, List.mem_cons, ih hrest]
    by_cases hname : key = name
    · subst hname
      -- A further entry of the first name would come after itself.
      have hnone : get? key rest ≠ some value := fun hget =>
        lt_irrefl key (hfirst _ ((ih hrest).mpr hget))
      simp [hnone, eq_comm]
    · simp [hname]

/-- Maps in order are the same if they have the same entries. -/
theorem IsOrdered.eq_of_mem_iff {first second : SymbolMap α} (hfirst : first.IsOrdered)
    (hsecond : second.IsOrdered) (h : ∀ entry, entry ∈ first ↔ entry ∈ second) : first = second :=
  have : Std.Irrefl fun a b : String × α => a.1 < b.1 := ⟨fun _ => lt_irrefl _⟩
  have : Std.Antisymm fun a b : String × α => a.1 < b.1 := ⟨fun _ _ hab hba => absurd hab hba.asymm⟩
  List.Pairwise.eq_of_mem_iff hfirst hsecond h

end SymbolMap

/-! ## Symbols of a file -/

namespace File

variable (file : File)

/-- The last symbol of a name, among functions and classes alike. -/
def lastSymbol? (name : String) : Option SymbolRef :=
  (file.allSymbols.filter (·.name = name)).getLast?

theorem symbols_isOrdered (filter : Option (List String)) : (file.symbols filter).IsOrdered :=
  SymbolMap.isOrdered_ofList _

theorem get?_symbols_none (name : String) :
    SymbolMap.get? name (file.symbols none) = file.lastSymbol? name := by
  rw [symbols, List.filter_eq_self.mpr fun _ _ => rfl, SymbolMap.get?_ofList_map, lastSymbol?]

theorem get?_symbols_some (names : List String) (name : String) :
    SymbolMap.get? name (file.symbols (some names)) =
      if name ∈ names then file.lastSymbol? name else none := by
  rw [symbols, SymbolMap.get?_ofList_map, List.filter_filter, lastSymbol?]
  by_cases hname : name ∈ names
  · -- The filter keeps every symbol of the name.
    rw [if_pos hname, List.filter_congr fun symbol _ => ?_]
    by_cases h : symbol.name = name <;> simp [h, hname]
  · rw [if_neg hname, List.filter_eq_nil_iff.mpr fun symbol _ => ?_, List.getLast?_nil]
    by_cases h : symbol.name = name <;> simp [h, hname]

/-- As all classes come after all functions, the last symbol of a name is a class if there is one. -/
theorem lastSymbol?_class_iff (name : String) :
    (∃ declared ∈ file.classes, file.lastSymbol? name = some (.classSymbol declared)) ↔
      ∃ declared ∈ file.classes, declared.name = name := by
  rw [← file.get?_symbols_none, file.get?_symbols]
  constructor
  · rintro ⟨declared, hmem, hlast⟩
    obtain hnil | ⟨last, hlast'⟩ := (file.classesNamed name).getLast?.eq_none_or_eq_some
    · simp [hnil] at hlast
    · have hnamed := List.mem_of_getLast? hlast'
      exact ⟨last, List.mem_of_mem_filter hnamed, by simpa using (List.mem_filter.mp hnamed).2⟩
  · rintro ⟨declared, hmem, rfl⟩
    have hne : file.classesNamed declared.name ≠ [] :=
      List.ne_nil_of_mem (List.mem_filter.mpr ⟨hmem, by simp⟩)
    refine ⟨_, List.mem_of_mem_filter (List.getLast_mem hne), ?_⟩
    rw [List.getLast?_eq_some_getLast hne]
    rfl

end File

/-- The symbols of the names in a filter are the entries of the whole map with these names. All maps of
symbols have their names in strictly increasing order, and the whole one has exactly the last symbol of
each name: a class, if there is a class of that name. -/
theorem File.symbols_filtered (file : File) (names : List String) :
    file.symbols (some names) = (file.symbols none).filter (fun entry => names.contains entry.1) ∧
      (∀ filter, ((file.symbols filter).map Prod.fst).Pairwise (· < ·)) ∧
      (∀ name symbol, (name, symbol) ∈ file.symbols none ↔
        (file.allSymbols.filter (·.name = name)).getLast? = some symbol) ∧
      ∀ name, (∃ declared ∈ file.classes, (name, .classSymbol declared) ∈ file.symbols none) ↔
        ∃ declared ∈ file.classes, declared.name = name := by
  have hmem : ∀ name symbol, (name, symbol) ∈ file.symbols none ↔ file.lastSymbol? name = some symbol :=
    fun name symbol => by
      rw [SymbolMap.mem_iff_get? (file.symbols_isOrdered none), file.get?_symbols_none]
  refine ⟨?_, fun filter => List.pairwise_map.mpr (file.symbols_isOrdered filter), hmem, fun name => ?_⟩
  · refine (file.symbols_isOrdered _).eq_of_mem_iff ((file.symbols_isOrdered none).filter _) ?_
    rintro ⟨name, symbol⟩
    rw [SymbolMap.mem_iff_get? (file.symbols_isOrdered _), file.get?_symbols_some, List.mem_filter, hmem]
    by_cases hname : name ∈ names <;> simp [hname]
  · simp only [hmem]
    exact file.lastSymbol?_class_iff name

/-- A class that shadows a function, and a name in the filter that nothing has. -/
example : ((⟨⟨"m.py"⟩, [], [⟨"C", 1, none, [], [], [], false⟩, ⟨"a", 2, none, [], [], [], false⟩],
    [⟨"C", 3, [], [], []⟩], [], [], []⟩ : File).symbols (some ["b", "C"])).map
      (fun entry => (entry.1, entry.2.line)) = [("C", 3)] := by
  decide

end EntityGraph
