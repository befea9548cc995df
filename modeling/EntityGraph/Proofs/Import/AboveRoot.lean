import EntityGraph.Proofs.Import.Absolute

/-!
# Imports from above the root

A module can be named from a directory above the root: the dotted path then begins with the last names
of the root. And a relative import can have more dots than there are directories down to its file, so
that it names a module above the root.

* `absorbed_append`: of the last names of the root before a path, just these are taken for the root;
* `resolveModule_append_ancestor`: with them before it, a path resolves to what it does without;
* `importsOf_aboveRoot_iff`: a relative import from above the root resolves as if it had no dots;
* `importsOf_aboveRoot_guess`: `from ...app.sub import helper`, two directories down, is resolved.
-/

namespace EntityGraph.Import

/-! ## Modules named from above the root -/

/-- Of the last names of the root before a path, no more are taken for the root: if more were, the first
names of the path itself would be the last names of the root. -/
theorem absorbed_append {root : Path} {above names : List String} (habove : above <:+ root.normalNames)
    (hne : names ≠ []) (hfree : ¬ Shadows root names) : absorbed root (above ++ names) = above.length := by
  have hpos : 0 < names.length := List.length_pos_of_ne_nil hne
  rw [absorbed_eq_findGreatest, Nat.findGreatest_eq_iff, List.length_append]
  refine ⟨by omega, fun _ => by rwa [List.take_left], fun count hlt hle hsuffix => hfree ?_⟩
  rw [List.take_append, List.take_of_length_le hlt.le] at hsuffix
  -- What a longer match takes of the path itself ends where the match ends: at the end of the root.
  have hborder : names.take (count - above.length) <:+ root.normalNames :=
    (List.suffix_append above _).trans hsuffix
  exact (shadows_iff root names).mpr ⟨count - above.length, by omega, by omega, hborder⟩

/-- The last names of the root, before a path whose own first names are not last names of the root, are
taken for the root and nothing else is. So the path resolves to what it does without them. -/
theorem resolveModule_append_ancestor {root : Path} {above names : List String}
    (habove : above <:+ root.normalNames) (hdots : ∀ name ∈ above, '.' ∉ name.toList) (hne : names ≠ [])
    (hnames : ∀ name ∈ names, name ≠ "" ∧ '.' ∉ name.toList) (hfree : ¬ Shadows root names) :
    absorbed root (above ++ names) = above.length ∧
      ∀ files, resolveModule files root (".".intercalate (above ++ names)) =
        resolveModule files root (".".intercalate names) := by
  have habsorbed := absorbed_append habove hne hfree
  have hall : ∀ name ∈ above ++ names, name ≠ "" ∧ '.' ∉ name.toList :=
    List.forall_mem_append.mpr
      ⟨fun name hn => ⟨Path.ne_empty_of_mem_normalNames (habove.subset hn), hdots name hn⟩, hnames⟩
  refine ⟨habsorbed, fun files => ?_⟩
  rw [resolveModule, resolveModule, segments_intercalate_noDots hall, segments_intercalate_noDots hnames,
    habsorbed, (absorbed_eq_zero_iff root names).mpr hfree, List.drop_left, List.drop_zero]

/-- The files of a directory `a` below a directory `x/a/b`. -/
def sampleRepeated : FileTree :=
  .insert .empty ⟨"x/a/b/a/b.py"⟩ (.file .empty)

/-- A path that repeats the last names of the root as a whole is not taken for the root. -/
theorem resolveModule_append_repeated :
    ["a", "b"] <:+ (Path.mk "x/a/b").normalNames ∧ ¬ Shadows ⟨"x/a/b"⟩ ["a", "b"] ∧
      absorbed ⟨"x/a/b"⟩ ["a", "b", "a", "b"] = 2 ∧
      resolveModule sampleRepeated ⟨"x/a/b"⟩ "a.b.a.b" = some ⟨"x/a/b/a/b.py"⟩ := by
  have habove : ["a", "b"] <:+ (Path.mk "x/a/b").normalNames := by decide
  have hfree : ¬ Shadows ⟨"x/a/b"⟩ ["a", "b"] := by decide
  obtain ⟨habsorbed, hresolve⟩ := @resolveModule_append_ancestor ⟨"x/a/b"⟩ ["a", "b"] ["a", "b"] habove
    (by decide) (by decide) (by decide) hfree
  exact ⟨habove, hfree, habsorbed, (hresolve sampleRepeated).trans (by decide)⟩

/-! ## Relative imports above the root -/

/-- Nothing is left of the place of a file below the root if there are more dots than names in it. -/
theorem relativeModule_aboveRoot {root file relative : Path} {level : Nat}
    (hunder : file.stripPrefix? root = some relative) (hlevel : relative.normalNames.length ≤ level)
    (module : Option String) : relativeModule root file module level = module.getD "" := by
  rw [relativeModule, hunder, Option.getD_some, Nat.sub_eq_zero_of_le hlevel, List.take_zero,
    List.nil_append, String.intercalate_singleton]

/-- A relative import that climbs above the root is recorded as unresolved, with its dots, exactly if its
module, taken from the root, leads nowhere. Otherwise it is resolved to what that module leads to. -/
theorem importsOf_aboveRoot_iff {root file relative : Path} {level : Nat}
    (hunder : file.stripPrefix? root = some relative) (hlevel : relative.normalNames.length < level)
    (files : FileTree) (module : Option String) (names : List Alias) (line : Nat) :
    (importsOf files root file (.importFrom module names level line) =
        [.unresolved (String.ofList (List.replicate level '.') ++ module.getD "")
          (names.map importedName)] ↔
      resolveModule files root (module.getD "") = none) ∧
    ∀ path, importsOf files root file (.importFrom module names level line) =
        [.resolved path (names.map importedName)] ↔
      resolveModule files root (module.getD "") = some path := by
  have himports : importsOf files root file (.importFrom module names level line) =
      [record files root (module.getD "") (shownModule module level) names] := by
    rw [importsOf, if_neg (by omega), relativeModule_aboveRoot hunder hlevel.le]
  simp only [himports, List.singleton_inj]
  exact ⟨record_eq_unresolved_iff, fun path => record_eq_resolved_iff⟩

theorem importsOf_aboveRoot_missing :
    (Path.mk "proj/app/mod.py").stripPrefix? ⟨"proj"⟩ = some ⟨"app/mod.py"⟩ ∧
      importsOf sampleFiles ⟨"proj"⟩ ⟨"proj/app/mod.py"⟩
          (.importFrom (some "lib") [⟨"helper", none⟩] 3 1) =
        [.unresolved "...lib" [⟨"helper", none⟩]] := by
  have hunder : (Path.mk "proj/app/mod.py").stripPrefix? ⟨"proj"⟩ = some ⟨"app/mod.py"⟩ := by decide
  have himports := @importsOf_aboveRoot_iff ⟨"proj"⟩ ⟨"proj/app/mod.py"⟩ ⟨"app/mod.py"⟩ 3 hunder
    (by decide) sampleFiles (some "lib") [⟨"helper", none⟩] 1
  exact ⟨hunder, himports.1.mpr (by decide)⟩

/-- Three dots, in a file two names below the root, lead above it. The module is found below the root
all the same. -/
theorem importsOf_aboveRoot_guess :
    (Path.mk "proj/app/mod.py").stripPrefix? ⟨"proj"⟩ = some ⟨"app/mod.py"⟩ ∧
      (Path.mk "app/mod.py").normalNames.length < 3 ∧
      importsOf sampleFiles ⟨"proj"⟩ ⟨"proj/app/mod.py"⟩
          (.importFrom (some "app.sub") [⟨"helper", none⟩] 3 1) =
        [.resolved ⟨"proj/app/sub.py"⟩ [⟨"helper", none⟩]] := by
  decide

end EntityGraph.Import
