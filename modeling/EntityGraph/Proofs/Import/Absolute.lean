import EntityGraph.Proofs.Import.Relative

/-!
# Absolute imports

What a dotted path resolves to from the root. `IsModule` tells that names lead to a package directory or
a source file, and `TakenForRoot` which first names of a path are taken for the root itself: the longest,
but not all, that are its last names.

* `resolveModule_eq_follow`: the names that are not taken for the root are followed from it;
* `resolveModule_existing_iff`: a module that is there is found exactly if no first names are taken for
  the root, and is reported unresolved exactly if without those the names lead nowhere;
* `resolveModule_shadowed`: below a root `proj`, a module of a package `proj` is not found;
* `resolveModule_confined`: what is found is the module that the names not taken for the root lead to,
  below the root, and nothing is found only if they lead to none.
-/

namespace EntityGraph.Import

/-! ## Modules that exist -/

/-- The packages lead from the place through existing directories to one with a directory or a source
file of the last name. -/
structure IsModule (files : FileTree) (place : Path) (packages : List String) (last : String) : Prop where
  leads : Leads files place packages
  exists_target : files.isDirectory ((place.pushAll packages).push last) = true ∨
    files.isFile ((place.pushAll packages).push (sourceName last)) = true

/-- Following names succeeds exactly if they lead to a module. -/
theorem follow_eq_some_iff {files : FileTree} {place path : Path} {packages : List String} {last : String}
    (hlast : IsSegment last) : follow files place (packages ++ [last]) = some path ↔
      IsModule files place packages last ∧ target files (place.pushAll packages) last = path := by
  constructor
  · intro h
    induction packages generalizing place with
    | nil =>
      rw [List.nil_append, follow_last hlast] at h
      split at h
      · next hdir => exact ⟨⟨.nil, .inl hdir⟩, (if_pos hdir).trans (Option.some.inj h)⟩
      split at h
      · next hdir hfile => exact ⟨⟨.nil, .inr hfile⟩, (if_neg hdir).trans (Option.some.inj h)⟩
      · cases h
    | cons package packages ih =>
      obtain ⟨next, more, hmore⟩ := List.exists_cons_of_ne_nil (List.concat_ne_nil last packages)
      rw [List.cons_append, hmore, follow_cons_cons, ← hmore] at h
      split at h
      · next hdir =>
        obtain ⟨hmodule, htarget⟩ := ih h
        exact ⟨⟨.cons hdir hmodule.leads, hmodule.exists_target⟩, htarget⟩
      · cases h
  · rintro ⟨hmodule, rfl⟩
    exact follow_leads hlast hmodule.leads hmodule.exists_target

/-! ## Names that are taken for the root -/

/-- The longest first names of a path, but not all of it, that are the last names of the root. -/
structure TakenForRoot (root : Path) (names front : List String) : Prop where
  isPrefix : front <+: names
  ne : front ≠ names
  isSuffix : front <:+ root.normalNames
  longest : ∀ other, other <+: names → other ≠ names → other <:+ root.normalNames →
    other.length ≤ front.length

theorem length_take_absorbed (root : Path) (names : List String) :
    (names.take (absorbed root names)).length = absorbed root names := by
  have hle := absorbed_le root names
  exact List.length_take_of_le (by omega)

theorem takenForRoot_take_absorbed (root : Path) {names : List String} (hne : names ≠ []) :
    TakenForRoot root names (names.take (absorbed root names)) := by
  have hpos := List.length_pos_of_ne_nil hne
  have hlength := length_take_absorbed root names
  constructor
  case isPrefix => exact List.take_prefix _ _
  case ne =>
    intro hfull
    have hle := absorbed_le root names
    rw [hfull] at hlength
    omega
  case isSuffix =>
    rw [absorbed_eq_findGreatest]
    exact Nat.findGreatest_spec (P := fun count => names.take count <:+ root.normalNames)
      (Nat.zero_le _) List.nil_suffix
  case longest =>
    intro other hfront hproper hsuffix
    have hlt : other.length < names.length :=
      Nat.lt_of_le_of_ne hfront.length_le fun h => hproper (hfront.eq_of_length h)
    rw [hlength, absorbed_eq_findGreatest]
    refine Nat.le_findGreatest (by omega) ?_
    rw [← List.prefix_iff_eq_take.mp hfront]
    exact hsuffix

theorem TakenForRoot.length_eq {root : Path} {names front : List String}
    (h : TakenForRoot root names front) : front.length = absorbed root names := by
  have hne : names ≠ [] := by
    rintro rfl
    exact h.ne (List.prefix_nil.mp h.isPrefix)
  have htake := takenForRoot_take_absorbed root hne
  have hle := htake.longest front h.isPrefix h.ne h.isSuffix
  have hge := h.longest _ htake.isPrefix htake.ne htake.isSuffix
  rw [length_take_absorbed] at hle hge
  exact Nat.le_antisymm hle hge

/-! ## Resolution from the root -/

theorem exists_takenForRoot (root : Path) (packages : List String) (last : String) :
    ∃ front inner, packages = front ++ inner ∧ TakenForRoot root (packages ++ [last]) front := by
  have htaken := takenForRoot_take_absorbed root (List.concat_ne_nil last packages)
  obtain ⟨inner, hinner⟩ := (List.prefix_concat_iff.mp htaken.isPrefix).resolve_left htaken.ne
  exact ⟨_, inner, hinner.symm, htaken⟩

/-- The packages and the last name are what is left of the names without those taken for the root. -/
def LeftBelow (root : Path) (names packages : List String) (last : String) : Prop :=
  ∃ front, names = front ++ packages ++ [last] ∧ TakenForRoot root names front

theorem exists_leftBelow (root : Path) {names : List String} (hne : names ≠ []) :
    ∃ packages last, LeftBelow root names packages last := by
  obtain ⟨packages, last, rfl⟩ := (List.eq_nil_or_concat' names).resolve_left hne
  obtain ⟨front, inner, rfl, htaken⟩ := exists_takenForRoot root packages last
  exact ⟨inner, last, front, rfl, htaken⟩

theorem LeftBelow.last_mem {root : Path} {names packages : List String} {last : String}
    (h : LeftBelow root names packages last) : last ∈ names := by
  obtain ⟨front, rfl, -⟩ := h
  exact List.mem_append_right _ List.mem_cons_self

theorem LeftBelow.subset {root : Path} {names packages : List String} {last : String}
    (h : LeftBelow root names packages last) : packages ⊆ names := by
  obtain ⟨front, rfl, -⟩ := h
  exact fun name hn => List.mem_append_left _ (List.mem_append_right _ hn)

/-- The names that are taken for the root are left out, and the others are followed from it. -/
theorem resolveModule_of_leftBelow {files : FileTree} {root : Path} {dotted last : String}
    {packages : List String} (h : LeftBelow root (segments dotted) packages last) :
    resolveModule files root dotted = follow files root (packages ++ [last]) := by
  obtain ⟨front, hsegments, htaken⟩ := h
  rw [resolveModule, ← htaken.length_eq, hsegments, List.append_assoc, List.drop_left]

theorem resolveModule_of_segments_eq_nil {files : FileTree} {root : Path} {dotted : String}
    (h : segments dotted = []) : resolveModule files root dotted = none := by
  rw [resolveModule, h, List.drop_nil]
  rfl

theorem resolveModule_eq_follow {files : FileTree} {root : Path} {front inner : List String}
    {last : String} (hnames : ∀ name ∈ front ++ inner ++ [last], IsSegment name)
    (htaken : TakenForRoot root (front ++ inner ++ [last]) front) :
    resolveModule files root (".".intercalate (front ++ inner ++ [last])) =
      follow files root (inner ++ [last]) := by
  refine resolveModule_of_leftBelow ⟨front, segments_intercalate_names hnames, ?_⟩
  rwa [segments_intercalate_names hnames]

/-- A module that is there is found from the root exactly if no first names of its path are the last
names of the root. It is reported unresolved exactly if some are taken for the root, and the rest of its
path does not lead to a module too. -/
theorem resolveModule_existing_iff {files : FileTree} {root : Path} {packages : List String}
    {last : String} (hnames : ∀ name ∈ packages ++ [last], IsSegment name)
    (hmodule : IsModule files root packages last) :
    (resolveModule files root (".".intercalate (packages ++ [last])) =
        some (target files (root.pushAll packages) last) ↔ ¬ Shadows root (packages ++ [last])) ∧
      (resolveModule files root (".".intercalate (packages ++ [last])) = none ↔
        ∃ front inner, packages = front ++ inner ∧ TakenForRoot root (packages ++ [last]) front ∧
          ¬ IsModule files root inner last) := by
  have hsegments := segments_intercalate_names hnames
  refine ⟨resolveModule_leads hsegments hnames hmodule.leads hmodule.exists_target, ?_⟩
  have hlast : IsSegment last := hnames last (by simp)
  constructor
  · intro hnone
    obtain ⟨front, inner, rfl, htaken⟩ := exists_takenForRoot root packages last
    refine ⟨front, inner, rfl, htaken, fun hinner => ?_⟩
    rw [resolveModule_eq_follow hnames htaken, (follow_eq_some_iff hlast).mpr ⟨hinner, rfl⟩] at hnone
    cases hnone
  · rintro ⟨front, inner, rfl, htaken, hinner⟩
    rw [resolveModule_eq_follow hnames htaken]
    cases hfollow : follow files root (inner ++ [last]) with
    | none => rfl
    | some path => exact absurd ((follow_eq_some_iff hlast).mp hfollow).1 hinner

/-- A package of another name than the root does not hide its modules. -/
theorem resolveModule_app : IsModule sampleFiles ⟨"/srv/proj"⟩ ["app"] "sub" ∧
    resolveModule sampleFiles ⟨"/srv/proj"⟩ "app.sub" = some ⟨"/srv/proj/app/sub.py"⟩ := by
  have hmodule : IsModule sampleFiles ⟨"/srv/proj"⟩ ["app"] "sub" := ⟨by decide, by decide⟩
  have hfound := @resolveModule_existing_iff sampleFiles ⟨"/srv/proj"⟩ ["app"] "sub" (by decide) hmodule
  exact ⟨hmodule, hfound.1.mpr (by decide)⟩

/-- The first name of a path is taken for the root that is called like it, and the module is looked for
in the root instead. -/
theorem resolveModule_shadowed : IsModule sampleFiles ⟨"proj"⟩ ["proj"] "sub" ∧
    resolveModule sampleFiles ⟨"proj"⟩ "proj.sub" = none :=
  ⟨⟨by decide, by decide⟩, by decide⟩

/-! ## Exactly what is found -/

/-- What a segment names in a place is one name below it. -/
theorem exists_target_eq_push {last : String} (hlast : IsSegment last) (files : FileTree) (place : Path) :
    ∃ name, Path.IsName name ∧ target files place last = place.push name := by
  rw [target]
  split
  · exact ⟨last, hlast.isName, rfl⟩
  · exact ⟨sourceName last, hlast.isName_sourceName, rfl⟩

theorem components_target {files : FileTree} {place : Path} {packages : List String} {last : String}
    (hpackages : ∀ name ∈ packages, IsSegment name) (hlast : IsSegment last) :
    ∃ names, names ≠ [] ∧ (target files (place.pushAll packages) last).components =
      place.components ++ names.map .normal := by
  obtain ⟨name, hname, htarget⟩ := exists_target_eq_push hlast files (place.pushAll packages)
  refine ⟨packages ++ [name], List.concat_ne_nil _ _, ?_⟩
  rw [htarget, Path.components_push _ hname,
    Path.components_pushAll place fun other ho => (hpackages other ho).isName, List.append_assoc,
    List.map_append]
  rfl

section Found

variable {files : FileTree} {root : Path} {dotted : String}

theorem resolveModule_eq_some_iff (hslash : ∀ name ∈ segments dotted, '/' ∉ name.toList) {path : Path} :
    resolveModule files root dotted = some path ↔
      ∃ packages last, LeftBelow root (segments dotted) packages last ∧
        IsModule files root packages last ∧ target files (root.pushAll packages) last = path := by
  have hsegment : ∀ name ∈ segments dotted, IsSegment name := fun name hn =>
    isSegment_of_mem_segments hn (hslash name hn)
  constructor
  · intro h
    have hne : segments dotted ≠ [] := by
      intro hnil
      rw [resolveModule_of_segments_eq_nil hnil] at h
      cases h
    obtain ⟨packages, last, hleft⟩ := exists_leftBelow root hne
    rw [resolveModule_of_leftBelow hleft] at h
    exact ⟨packages, last, hleft, (follow_eq_some_iff (hsegment last hleft.last_mem)).mp h⟩
  · rintro ⟨packages, last, hleft, hmodule⟩
    rw [resolveModule_of_leftBelow hleft]
    exact (follow_eq_some_iff (hsegment last hleft.last_mem)).mpr hmodule

theorem resolveModule_eq_none_iff (hslash : ∀ name ∈ segments dotted, '/' ∉ name.toList) :
    resolveModule files root dotted = none ↔ segments dotted = [] ∨
      ∃ packages last, LeftBelow root (segments dotted) packages last ∧
        ¬ IsModule files root packages last := by
  constructor
  · intro hnone
    refine or_iff_not_imp_left.mpr fun hne => ?_
    obtain ⟨packages, last, hleft⟩ := exists_leftBelow root hne
    refine ⟨packages, last, hleft, fun hmodule => ?_⟩
    rw [(resolveModule_eq_some_iff hslash).mpr ⟨packages, last, hleft, hmodule, rfl⟩] at hnone
    cases hnone
  · rintro (hempty | ⟨packages, last, hleft, hmodule⟩)
    · exact resolveModule_of_segments_eq_nil hempty
    have hlast : IsSegment last :=
      isSegment_of_mem_segments hleft.last_mem (hslash last hleft.last_mem)
    rw [resolveModule_of_leftBelow hleft, Option.eq_none_iff_forall_ne_some]
    exact fun path h => hmodule ((follow_eq_some_iff hlast).mp h).1

/-- What is found of a dotted path is exactly the module that the names not taken for the root lead to
from it: each package is an existing directory, and the last name that of an existing directory or else
of an existing source file. So it is below the root, at one or more names. Nothing is found exactly if
there are no names, or those not taken for the root do not lead to a module. -/
theorem resolveModule_confined (hslash : ∀ name ∈ segments dotted, '/' ∉ name.toList) :
    (∀ path, resolveModule files root dotted = some path ↔
        ∃ packages last, LeftBelow root (segments dotted) packages last ∧
          IsModule files root packages last ∧ target files (root.pushAll packages) last = path) ∧
      (∀ path, resolveModule files root dotted = some path →
        ∃ names, names ≠ [] ∧ path.components = root.components ++ names.map .normal) ∧
      (resolveModule files root dotted = none ↔ segments dotted = [] ∨
        ∃ packages last, LeftBelow root (segments dotted) packages last ∧
          ¬ IsModule files root packages last) := by
  refine ⟨fun _ => resolveModule_eq_some_iff hslash, fun path h => ?_, resolveModule_eq_none_iff hslash⟩
  have hsegment : ∀ name ∈ segments dotted, IsSegment name := fun name hn =>
    isSegment_of_mem_segments hn (hslash name hn)
  obtain ⟨packages, last, hleft, -, rfl⟩ := (resolveModule_eq_some_iff hslash).mp h
  exact components_target (fun name hn => hsegment name (hleft.subset hn)) (hsegment last hleft.last_mem)

end Found

/-- Empty segments are passed over, and the names of the root are left out, whether it is an absolute path
or leads up from the working directory. -/
theorem resolveModule_confined_app : (∀ name ∈ segments "srv.proj..app.sub", '/' ∉ name.toList) ∧
    ∀ root ∈ [Path.mk "/srv/proj", ⟨"../srv/proj"⟩], ∃ packages last,
      LeftBelow root ["srv", "proj", "app", "sub"] packages last ∧ IsModule sampleFiles root packages last ∧
        target sampleFiles (root.pushAll packages) last = ⟨root.text ++ "/app/sub.py"⟩ := by
  have hslash : ∀ name ∈ segments "srv.proj..app.sub", '/' ∉ name.toList := by decide
  have hresolve : ∀ root ∈ [Path.mk "/srv/proj", ⟨"../srv/proj"⟩],
      resolveModule sampleFiles root "srv.proj..app.sub" = some ⟨root.text ++ "/app/sub.py"⟩ := by decide
  refine ⟨hslash, fun root hroot => ?_⟩
  have hfound := (@resolveModule_confined sampleFiles root "srv.proj..app.sub" hslash).1
  exact (hfound _).mp (hresolve root hroot)

end EntityGraph.Import
