import EntityGraph.Proofs.Import.Resolution

/-!
# Relative imports

A file in directories below the root, and a relative import in it whose module is there.

* `relativeModule_pushAll`: the dotted path is the directories that the dots leave, and the module;
* `resolveModule_leads`: existing directories and an existing target are found, unless the first
  segments are taken for the root;
* `importsOf_relative_resolved_iff`: a relative import resolves to the module that it names exactly if
  no first segments are the last names of the root;
* `importsOf_relative_shadowed`: below a root `proj`, a package `proj` hides its own modules.
-/

namespace EntityGraph.Import

open EntityGraph.Path (IsName)

/-- What the last segment of a dotted path names in a place: a directory if there is one, and a source
file otherwise. -/
def target (files : FileTree) (place : Path) (last : String) : Path :=
  if files.isDirectory (place.push last) then place.push last else place.push (sourceName last)

/-- The directories that a relative import with this many dots starts from. -/
def baseNames (dirs : List String) (level : Nat) : List String :=
  dirs.take (dirs.length + 1 - level)

theorem relativeModule_pushAll (root : Path) {dirs : List String} {file : String}
    (hdirs : ∀ dir ∈ dirs, IsSegment dir) (hfile : IsName file) {level : Nat} (hlevel : 1 ≤ level)
    (module : Option String) :
    relativeModule root (root.pushAll (dirs ++ [file])) module level =
      ".".intercalate (baseNames dirs level ++ [module.getD ""]) := by
  have hnames : ∀ name ∈ dirs ++ [file], IsName name := by
    intro name hn
    rcases List.mem_append.mp hn with h | h
    · exact (hdirs name h).isName
    · exact List.mem_singleton.mp h ▸ hfile
  have htake : (dirs ++ [file]).take ((dirs ++ [file]).length - level) = baseNames dirs level := by
    rw [baseNames, List.length_append, List.length_singleton, List.take_append_of_le_length]
    omega
  rw [relativeModule, Path.stripPrefix?_pushAll root (by simp) hnames, Option.getD_some,
    Path.normalNames_intercalate hnames, htake]

/-- The segments of a relative module are the directories before it and its own. -/
theorem segments_relative {dirs module : List String} (hdirs : ∀ dir ∈ dirs, IsSegment dir)
    (hmodule : ∀ name ∈ module, IsSegment name) :
    segments (".".intercalate (dirs ++ [".".intercalate module])) = dirs ++ module := by
  have hsingle : ∀ dir ∈ dirs, segments dir = [dir] := fun dir hd => segments_of_isSegment (hdirs dir hd)
  rw [segments_intercalate, List.flatMap_append, List.flatMap_congr hsingle, List.flatMap_singleton',
    List.flatMap_singleton, segments_intercalate_names hmodule]

/-- Segments that lead through directories to a target are followed to it. -/
theorem follow_leads {files : FileTree} {place : Path} {packages : List String} {last : String}
    (hlast : IsSegment last) (hpackages : Leads files place packages)
    (htarget : files.isDirectory ((place.pushAll packages).push last) = true ∨
      files.isFile ((place.pushAll packages).push (sourceName last)) = true) :
    follow files place (packages ++ [last]) = some (target files (place.pushAll packages) last) := by
  rw [follow_append hpackages (by simp), follow_last hlast, target]
  split
  · rfl
  · rename_i hdir
    rw [if_pos (htarget.resolve_left hdir)]

/-- Directories and a target that exist are found from the root exactly if no first segments are taken
for the root itself: a path below fewer names is another path. -/
theorem resolveModule_leads {files : FileTree} {root : Path} {dotted : String} {packages : List String}
    {last : String} (hdotted : segments dotted = packages ++ [last])
    (hnames : ∀ name ∈ packages ++ [last], IsSegment name) (hpackages : Leads files root packages)
    (htarget : files.isDirectory ((root.pushAll packages).push last) = true ∨
      files.isFile ((root.pushAll packages).push (sourceName last)) = true) :
    resolveModule files root dotted = some (target files (root.pushAll packages) last) ↔
      ¬ Shadows root (packages ++ [last]) := by
  have hfollow := follow_leads (hnames last (by simp)) hpackages htarget
  rw [resolveModule, hdotted, ← absorbed_eq_zero_iff]
  constructor
  · intro h
    have hlong := length_components_of_follow hnames hfollow
    have hshort := length_components_of_follow (fun name hn => hnames name (List.mem_of_mem_drop hn)) h
    have hle := absorbed_le root (packages ++ [last])
    rw [List.length_drop] at hshort
    omega
  · intro h
    rw [h, List.drop_zero, hfollow]

theorem record_eq_resolved_iff {files : FileTree} {root path : Path} {dotted shown : String}
    {names : List Alias} :
    record files root dotted shown names = .resolved path (names.map importedName) ↔
      resolveModule files root dotted = some path := by
  rw [record]
  cases resolveModule files root dotted <;> simp

theorem record_eq_unresolved_iff {files : FileTree} {root : Path} {dotted shown : String}
    {names : List Alias} :
    record files root dotted shown names = .unresolved shown (names.map importedName) ↔
      resolveModule files root dotted = none := by
  rw [record]
  cases resolveModule files root dotted <;> simp

/-- A relative import of a module that is there resolves to it exactly if no first segments of its path
from the root are the last names of the root. -/
theorem importsOf_relative_resolved_iff {files : FileTree} {root : Path} {dirs packages : List String}
    {file last : String} {level : Nat} (hdirs : ∀ dir ∈ dirs, IsSegment dir) (hfile : IsName file)
    (hlevel : 1 ≤ level ∧ level ≤ dirs.length + 1)
    (hmodule : ∀ name ∈ packages ++ [last], IsSegment name) (hin : Leads files root dirs)
    (hpackages : Leads files (root.pushAll (baseNames dirs level)) packages)
    (htarget :
      files.isDirectory ((root.pushAll (baseNames dirs level ++ packages)).push last) = true ∨
      files.isFile ((root.pushAll (baseNames dirs level ++ packages)).push (sourceName last)) = true)
    (names : List Alias) (line : Nat) :
    importsOf files root (root.pushAll (dirs ++ [file]))
        (.importFrom (some (".".intercalate (packages ++ [last]))) names level line) =
      [.resolved (target files (root.pushAll (baseNames dirs level ++ packages)) last)
        (names.map importedName)] ↔
      ¬ Shadows root (baseNames dirs level ++ packages ++ [last]) := by
  have hbase : ∀ dir ∈ baseNames dirs level, IsSegment dir := fun dir hd =>
    hdirs dir (List.mem_of_mem_take hd)
  have hsegments : ∀ name ∈ baseNames dirs level ++ packages ++ [last], IsSegment name := by
    rw [List.append_assoc]
    exact List.forall_mem_append.mpr ⟨hbase, hmodule⟩
  have hdotted :
      segments (".".intercalate (baseNames dirs level ++ [".".intercalate (packages ++ [last])])) =
        baseNames dirs level ++ packages ++ [last] := by
    rw [segments_relative hbase hmodule, List.append_assoc]
  have hleads : Leads files root (baseNames dirs level ++ packages) := (hin.take _).append hpackages
  rw [importsOf, if_neg (by omega), relativeModule_pushAll root hdirs hfile hlevel.1, Option.getD_some,
    List.singleton_inj, record_eq_resolved_iff, resolveModule_leads hdotted hsegments hleads htarget]

/-- The files of a package `proj` and of a package `app` below a directory `proj`, which is in the working
directory `/srv`. -/
def sampleFiles : FileTree :=
  let modules : List (String × FileEntry) := [("mod.py", .file .empty), ("sub.py", .file .empty)]
  let project : FileEntry := .directory [("proj", .directory modules), ("app", .directory modules)]
  ⟨[("srv", .directory [("proj", project)])], ["srv"]⟩

theorem importsOf_relative_app :
    importsOf sampleFiles ⟨"/srv/proj"⟩ ⟨"/srv/proj/proj/mod.py"⟩
        (.importFrom (some "app.sub") [⟨"helper", none⟩] 2 1) =
      [.resolved ⟨"/srv/proj/app/sub.py"⟩ [⟨"helper", none⟩]] :=
  (@importsOf_relative_resolved_iff sampleFiles ⟨"/srv/proj"⟩ ["proj"] ["app"] "mod.py" "sub" 2
    (by decide) (by decide) (by decide) (by decide) (by decide) (by decide) (by decide)
    [⟨"helper", none⟩] 1).mpr (by decide)

/-- A package that is called like its root: the dotted path of its module begins with the name of the
root, and the module is looked for in the root instead. -/
theorem importsOf_relative_shadowed :
    sampleFiles.isFile ⟨"proj/proj/sub.py"⟩ = true ∧
      importsOf sampleFiles ⟨"proj"⟩ ⟨"proj/proj/mod.py"⟩
          (.importFrom (some "sub") [⟨"helper", none⟩] 1 1) =
        [.unresolved ".sub" [⟨"helper", none⟩]] := by
  decide

end EntityGraph.Import
