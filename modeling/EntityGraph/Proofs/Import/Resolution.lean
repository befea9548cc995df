import EntityGraph.Import.Resolution
import EntityGraph.Proofs.Files.Path
import Mathlib.Data.List.Infix
import Mathlib.Data.Nat.Find

/-!
# Dotted paths

What a dotted path leads to. `IsSegment` tells the names that can stand between dots, `Leads` says that
names lead from a place through existing directories, and `Shadows` that the first of some segments are
the last names of the root.

* `isSegment_of_mem_segments`: segments neither are empty nor have a dot;
* `segments_intercalate`: the segments of a joined path are those of its parts;
* `follow_append`, `follow_last`: existing directories are entered, and the last segment is a directory
  or a source file there;
* `length_components_of_follow`: a path that is found has one component for each segment;
* `absorbed_eq_zero_iff`: no segment is absorbed exactly if no first ones are the last names of the root.
-/

namespace EntityGraph.Import

open EntityGraph.Path (IsName)

/-- A name that can stand between the dots of a dotted path. -/
@[mk_iff]
structure IsSegment (name : String) : Prop where
  nonempty : name ≠ ""
  noSlash : '/' ∉ name.toList
  noDot : '.' ∉ name.toList

instance (name : String) : Decidable (IsSegment name) :=
  decidable_of_iff _ (isSegment_iff name).symm

theorem IsSegment.isName {name : String} (h : IsSegment name) : IsName name where
  nonempty := h.nonempty
  noSlash := h.noSlash
  notCurrent := by
    rintro rfl
    exact h.noDot (by decide)
  notParent := by
    rintro rfl
    exact h.noDot (by decide)

/-- The name of a source file. -/
def sourceName (name : String) : String :=
  name ++ "." ++ sourceExtension

theorem toList_sourceName (name : String) :
    (sourceName name).toList = name.toList ++ ['.', 'p', 'y'] := by
  simp [sourceName, sourceExtension]

theorem IsSegment.isName_sourceName {name : String} (h : IsSegment name) : IsName (sourceName name) := by
  -- No name as short as `.` or `..` ends in a source extension.
  have hshort : ∀ other : String, other.toList.length < 3 → sourceName name ≠ other := by
    rintro _ hlen rfl
    rw [toList_sourceName, List.length_append] at hlen
    exact absurd hlen (by simp)
  refine ⟨hshort _ (by decide), ?_, hshort _ (by decide), hshort _ (by decide)⟩
  rw [toList_sourceName, List.mem_append, not_or]
  exact ⟨h.noSlash, by decide⟩

/-! ## Segments -/

theorem segments_of_noDot {name : String} (hne : name ≠ "") (hdot : '.' ∉ name.toList) :
    segments name = [name] := by
  rw [segments, Text.pieces_of_forall_not]
  · simp [hne]
  · exact fun c hc => beq_eq_false_iff_ne.mpr fun e => hdot (e ▸ hc)

theorem segments_of_isSegment {name : String} (h : IsSegment name) : segments name = [name] :=
  segments_of_noDot h.nonempty h.noDot

/-- Segments neither are empty nor have a dot. -/
theorem isSegment_of_mem_segments {dotted name : String} (h : name ∈ segments dotted)
    (hslash : '/' ∉ name.toList) : IsSegment name := by
  obtain ⟨hpiece, hne⟩ := List.mem_filter.mp h
  obtain ⟨piece, hm, rfl⟩ := List.mem_map.mp hpiece
  refine ⟨of_decide_eq_true hne, hslash, fun hdot => ?_⟩
  rw [String.toList_ofList] at hdot
  exact absurd (Text.not_separates_of_mem_pieces hm _ hdot) (by decide)

theorem segments_intercalate (parts : List String) :
    segments (".".intercalate parts) = parts.flatMap segments := by
  by_cases hne : parts = []
  · subst hne
    rfl
  · rw [segments, String.toList_intercalate, show ".".toList = ['.'] from rfl,
      Text.pieces_intercalate (by rfl) (by simpa using hne)]
    simp only [List.map_flatMap, List.flatMap_map, List.filter_flatMap]
    rfl

theorem segments_intercalate_noDots {names : List String}
    (h : ∀ name ∈ names, name ≠ "" ∧ '.' ∉ name.toList) : segments (".".intercalate names) = names := by
  have hsingle : ∀ name ∈ names, segments name = [name] := fun name hn =>
    segments_of_noDot (h name hn).1 (h name hn).2
  rw [segments_intercalate, List.flatMap_congr hsingle, List.flatMap_singleton']

theorem segments_intercalate_names {names : List String} (h : ∀ name ∈ names, IsSegment name) :
    segments (".".intercalate names) = names :=
  segments_intercalate_noDots fun name hn => ⟨(h name hn).nonempty, (h name hn).noDot⟩

/-! ## Following segments -/

/-- The names lead from the place through directories that exist, the last one included. -/
def Leads (files : FileTree) (place : Path) (names : List String) : Prop :=
  ∀ front, front ≠ [] → front <+: names → files.isDirectory (place.pushAll front) = true

instance (files : FileTree) (place : Path) (names : List String) : Decidable (Leads files place names) :=
  decidable_of_iff (∀ front ∈ names.inits, front ≠ [] → files.isDirectory (place.pushAll front) = true)
    ⟨fun h front hne hp => h front ((List.mem_inits front names).mpr hp) hne,
      fun h front hm hne => h front hne ((List.mem_inits front names).mp hm)⟩

theorem Leads.head {files : FileTree} {place : Path} {name : String} {rest : List String}
    (h : Leads files place (name :: rest)) : files.isDirectory (place.push name) = true :=
  h [name] (by simp) (by simp)

theorem Leads.tail {files : FileTree} {place : Path} {name : String} {rest : List String}
    (h : Leads files place (name :: rest)) : Leads files (place.push name) rest := by
  intro front hne hp
  exact h (name :: front) (by simp) (by simpa using hp)

theorem Leads.nil {files : FileTree} {place : Path} : Leads files place [] :=
  fun _ hne hp => absurd (List.prefix_nil.mp hp) hne

theorem Leads.cons {files : FileTree} {place : Path} {name : String} {rest : List String}
    (hname : files.isDirectory (place.push name) = true) (hrest : Leads files (place.push name) rest) :
    Leads files place (name :: rest) := by
  intro front hne hp
  obtain ⟨inner, rfl, hinner⟩ := (List.prefix_cons_iff.mp hp).resolve_left hne
  by_cases hnil : inner = []
  · subst hnil
    exact hname
  · exact hrest inner hnil hinner

theorem Leads.append {files : FileTree} {place : Path} {first second : List String}
    (h₁ : Leads files place first) (h₂ : Leads files (place.pushAll first) second) :
    Leads files place (first ++ second) := by
  intro front hne hp
  rcases List.prefix_or_prefix_of_prefix hp (List.prefix_append first second) with h | ⟨rest, rfl⟩
  · exact h₁ front hne h
  · by_cases hrest : rest = []
    · subst hrest
      rw [List.append_nil] at hne ⊢
      exact h₁ first hne List.prefix_rfl
    · rw [Path.pushAll_append]
      exact h₂ rest hrest ((List.prefix_append_right_inj first).mp hp)

theorem Leads.take {files : FileTree} {place : Path} {names : List String}
    (h : Leads files place names) (count : Nat) : Leads files place (names.take count) :=
  fun front hne hp => h front hne (hp.trans (List.take_prefix count names))

theorem follow_cons_cons (files : FileTree) (place : Path) (name next : String) (more : List String) :
    follow files place (name :: next :: more) =
      if files.isDirectory (place.push name) then follow files (place.push name) (next :: more)
      else none := rfl

theorem follow_append {files : FileTree} {place : Path} {packages rest : List String}
    (h : Leads files place packages) (hne : rest ≠ []) :
    follow files place (packages ++ rest) = follow files (place.pushAll packages) rest := by
  induction packages generalizing place with
  | nil => rfl
  | cons package packages ih =>
    obtain ⟨next, more, hmore⟩ :=
      List.exists_cons_of_ne_nil (List.append_ne_nil_of_right_ne_nil packages hne)
    rw [List.cons_append, hmore, follow_cons_cons, if_pos h.head, ← hmore, ih h.tail]
    rfl

theorem follow_last {files : FileTree} {place : Path} {last : String} (h : IsSegment last) :
    follow files place [last] =
      if files.isDirectory (place.push last) then some (place.push last)
      else if files.isFile (place.push (sourceName last)) then some (place.push (sourceName last))
      else none := by
  show (if files.isDirectory (place.push last) then some (place.push last)
      else if files.isFile ((place.push last).setExtension sourceExtension) then
        some ((place.push last).setExtension sourceExtension)
      else none) = _
  rw [Path.setExtension_push place h.isName h.noDot (by decide) h.isName_sourceName]
  rfl

/-- A path that segments lead to is one component for each of them below the place. -/
theorem length_components_of_follow {files : FileTree} {place path : Path} {names : List String}
    (h : ∀ name ∈ names, IsSegment name) (hf : follow files place names = some path) :
    path.components.length = place.components.length + names.length := by
  induction names generalizing place with
  | nil => cases hf
  | cons name rest ih =>
    have hname := h name List.mem_cons_self
    cases rest with
    | nil =>
      rw [follow_last hname] at hf
      split at hf
      · obtain rfl := Option.some.inj hf
        rw [Path.components_push place hname.isName, List.length_append]
        rfl
      split at hf
      · obtain rfl := Option.some.inj hf
        rw [Path.components_push place hname.isName_sourceName, List.length_append]
        rfl
      · cases hf
    | cons next more =>
      rw [follow_cons_cons] at hf
      split at hf
      · rw [ih (fun other ho => h other (List.mem_cons_of_mem _ ho)) hf,
          Path.components_push place hname.isName]
        simp only [List.length_append, List.length_cons, List.length_nil]
        omega
      · cases hf

/-! ## Absorbed segments -/

/-- Some first segments, but not all, are the last names of the root. -/
def Shadows (root : Path) (names : List String) : Prop :=
  ∃ front, front ≠ [] ∧ front <+: names ∧ front ≠ names ∧ front <:+ root.normalNames

instance (root : Path) (names : List String) : Decidable (Shadows root names) :=
  decidable_of_iff (∃ front ∈ names.inits, front ≠ [] ∧ front ≠ names ∧ front <:+ root.normalNames)
    ⟨fun ⟨front, hm, hne, hfull, hs⟩ => ⟨front, hne, (List.mem_inits front names).mp hm, hfull, hs⟩,
      fun ⟨front, hne, hp, hfull, hs⟩ => ⟨front, (List.mem_inits front names).mpr hp, hne, hfull, hs⟩⟩

theorem absorbedUpTo_eq (names segments : List String) (bound : Nat) :
    absorbedUpTo names segments bound =
      Nat.findGreatest (fun k => names.drop (names.length - k) = segments.take k) bound := by
  induction bound with
  | zero => rfl
  | succ k ih => rw [absorbedUpTo, Nat.findGreatest_succ, ih]

/-- First segments that are the last names of the root are found by their number. -/
theorem shadows_iff (root : Path) (names : List String) : Shadows root names ↔
    ∃ count, 0 < count ∧ count ≤ names.length - 1 ∧ names.take count <:+ root.normalNames := by
  constructor
  · rintro ⟨front, hne, hp, hfull, hs⟩
    have hpos : 0 < front.length := List.length_pos_of_ne_nil hne
    have hlt : front.length < names.length :=
      Nat.lt_of_le_of_ne hp.length_le fun h => hfull (hp.eq_of_length h)
    refine ⟨front.length, hpos, by omega, ?_⟩
    rw [← List.prefix_iff_eq_take.mp hp]
    exact hs
  · rintro ⟨count, hpos, hcount, hs⟩
    have hlen : (names.take count).length = count := List.length_take_of_le (by omega)
    refine ⟨names.take count, ?_, List.take_prefix count names, ?_, hs⟩
    · rintro hnil
      rw [hnil, List.length_nil] at hlen
      omega
    · intro hfull
      rw [hfull] at hlen
      omega

/-- The number of segments that are absorbed is the greatest of first segments, but not all, that are the
last names of the root. -/
theorem absorbed_eq_findGreatest (root : Path) (names : List String) : absorbed root names =
    Nat.findGreatest (fun count => names.take count <:+ root.normalNames) (names.length - 1) := by
  have hlen {count : Nat} (hcount : count ≤ names.length - 1) : (names.take count).length = count :=
    List.length_take_of_le (by omega)
  rw [absorbed, absorbedUpTo_eq]
  refine (Nat.findGreatest_eq_iff.mpr ⟨?_, fun hne => ?_, fun count hlt hle hsuffix => ?_⟩).symm
  · exact (Nat.findGreatest_le _).trans (Nat.min_le_right _ _)
  · exact Nat.findGreatest_of_ne_zero rfl hne ▸ List.drop_suffix _ _
  · have heq := List.suffix_iff_eq_drop.mp hsuffix
    have hshort := hsuffix.length_le
    rw [hlen hle] at heq hshort
    exact Nat.findGreatest_is_greatest hlt (Nat.le_min.mpr ⟨hshort, hle⟩) heq.symm

theorem absorbed_eq_zero_iff (root : Path) (names : List String) :
    absorbed root names = 0 ↔ ¬ Shadows root names := by
  rw [absorbed_eq_findGreatest, Nat.findGreatest_eq_zero_iff, shadows_iff]
  push Not
  rfl

theorem absorbed_le (root : Path) (names : List String) : absorbed root names ≤ names.length - 1 := by
  rw [absorbed_eq_findGreatest]
  exact Nat.findGreatest_le _

end EntityGraph.Import
