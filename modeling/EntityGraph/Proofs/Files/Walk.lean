import EntityGraph.Files.Walk
import EntityGraph.Proofs.Files.FileTree
import Mathlib.Data.List.Nodup

/-!
# Walks without ignore files

In a tree without ignore files a walk lists the files below its start to which no hidden name leads, each
once, as the start with the names on the way pushed to it.

* `verdict?_of_free`: scopes without rules say nothing about an entry;
* `FileEntry.visibleFiles`: the names that lead to the files below an entry and are not hidden;
* `FileEntry.mem_visibleFiles_iff`, `FileEntry.nodup_visibleFiles`: which these are;
* `FileTree.walk_of_some`: a walk lists the files that these names lead to.
-/

namespace EntityGraph

/-! ## Scopes without rules -/

namespace FileEntry

/-- None of the files that hold the rules of a directory is there. -/
def HasNoIgnoreFiles (entries : List (String × FileEntry)) : Prop :=
  ∀ names ∈ [[".ignore"], [".gitignore"], [".git", "info", "exclude"]], ∀ content,
    follow [] (.directory entries) names ≠ some (.file content)

/-- A directory has none of these files if it has no entries of their names. -/
theorem HasNoIgnoreFiles.of_find? {entries : List (String × FileEntry)}
    (hwalk : find? ".ignore" entries = none) (hrepository : find? ".gitignore" entries = none)
    (hgit : find? ".git" entries = none) : HasNoIgnoreFiles entries := by
  have hnone : ∀ (name : String) (rest : List String), Path.isSilent name = false → name ≠ ".." →
      find? name entries = none → ∀ content,
        follow [] (.directory entries) (name :: rest) ≠ some (.file content) := by
    intro name rest hsilent hup hfind content
    rw [follow_name _ _ hsilent hup, hfind]
    exact (Option.some_ne_none _).symm
  intro names hnames
  simp only [List.mem_cons, List.not_mem_nil, or_false] at hnames
  obtain rfl | rfl | rfl := hnames
  · exact hnone _ _ rfl (by decide) hwalk
  · exact hnone _ _ rfl (by decide) hrepository
  · exact hnone _ _ rfl (by decide) hgit

end FileEntry

namespace Ignore

/-- A scope without rules. -/
structure Scope.IsFree (scope : Scope) : Prop where
  walkRules : scope.walkRules = []
  repositoryRules : scope.repositoryRules = []
  excludeRules : scope.excludeRules = []

theorem Scope.rulesAt_eq_nil {entries : List (String × FileEntry)} {names : List String}
    (h : ∀ content, FileEntry.follow [] (.directory entries) names ≠ some (.file content)) :
    rulesAt entries names = [] := by
  rw [rulesAt]
  split
  · next hfile => exact absurd hfile (h _)
  · rfl

theorem Scope.isFree_ofDirectory {entries : List (String × FileEntry)}
    (h : FileEntry.HasNoIgnoreFiles entries) (name : String) : (ofDirectory name entries).IsFree where
  walkRules := rulesAt_eq_nil (h _ (by simp))
  repositoryRules := rulesAt_eq_nil (h _ (by simp))
  excludeRules := rulesAt_eq_nil (h _ (by simp))

variable {scopes : List Scope}

theorem nearestVerdict?_of_nil {rules : Scope → Rules} (h : ∀ scope ∈ scopes, rules scope = [])
    (isLast : Scope → Bool) (isDirectory : Bool) (path : String) :
    nearestVerdict? rules isLast isDirectory path scopes = none := by
  induction scopes generalizing path with
  | nil => rfl
  | cons scope outer ih =>
    rw [nearestVerdict?, h scope List.mem_cons_self, ih fun other ho => h other (List.mem_cons_of_mem _ ho)]
    split <;> rfl

theorem verdict?_of_free (h : ∀ scope ∈ scopes, scope.IsFree) (name : String) (isDirectory : Bool) :
    verdict? scopes name isDirectory = none := by
  simp only [verdict?, nearestVerdict?_of_nil fun scope hs => (h scope hs).walkRules,
    nearestVerdict?_of_nil fun scope hs => (h scope hs).repositoryRules,
    nearestVerdict?_of_nil fun scope hs => (h scope hs).excludeRules, ite_self]
  rfl

end Ignore

namespace FileEntry

open Ignore (Scope)

variable {scopes : List Scope}

theorem isPassedOver_of_free (h : ∀ scope ∈ scopes, scope.IsFree) (name : String) (entry : FileEntry) :
    isPassedOver scopes name entry = isHidden name := by
  rw [isPassedOver, Ignore.verdict?_of_free h]

theorem isFree_of_mem_scopesAlong {entries : List (String × FileEntry)} {names : List String}
    {name : String} (htree : Everywhere HasNoIgnoreFiles (.directory entries))
    (h : ∀ scope ∈ scopes, scope.IsFree) :
    ∀ scope ∈ (scopesAlong scopes name entries names).1, scope.IsFree := by
  have hcons : ∀ name, ∀ scope ∈ Scope.ofDirectory name entries :: scopes, scope.IsFree := fun name =>
    List.forall_mem_cons.mpr ⟨Scope.isFree_ofDirectory htree.entries name, h⟩
  induction names generalizing scopes name entries with
  | nil => exact h
  | cons next rest ih =>
    rw [scopesAlong]
    split
    · next inner hfind =>
      have hinner := htree.of_find? hfind
      exact ih hinner (hcons name) fun name => List.forall_mem_cons.mpr
        ⟨Scope.isFree_ofDirectory hinner.entries name, hcons _⟩
    · exact hcons name

/-! ## Visible files -/

mutual

/-- The names that lead to the files at or below an entry, where none is hidden. -/
def visibleFiles : FileEntry → List (List String)
  | .file _ => [[]]
  | .directory entries => visibleFilesIn entries

def visibleFilesIn : List (String × FileEntry) → List (List String)
  | [] => []
  | (name, entry) :: rest =>
    (if isHidden name then [] else (visibleFiles entry).map (name :: ·)) ++ visibleFilesIn rest

end

theorem visibleFilesIn_eq_flatMap (entries : List (String × FileEntry)) :
    visibleFilesIn entries = entries.flatMap fun named =>
      if isHidden named.1 then [] else named.2.visibleFiles.map (named.1 :: ·) := by
  induction entries with
  | nil => rfl
  | cons named rest ih => rw [visibleFilesIn, ih, List.flatMap_cons]

theorem walkEntries_eq {path : Path} {entries : List (String × FileEntry)}
    (h : ∀ scope ∈ scopes, scope.IsFree)
    (hwalk : ∀ named ∈ entries, ∀ path name, named.2.walk scopes path name =
      named.2.visibleFiles.map path.pushAll) :
    walkEntries scopes path entries = (visibleFilesIn entries).map path.pushAll := by
  induction entries with
  | nil => rfl
  | cons named rest ih =>
    obtain ⟨name, entry⟩ := named
    rw [walkEntries, visibleFilesIn, isPassedOver_of_free h, List.map_append,
      ih fun other ho => hwalk other (List.mem_cons_of_mem _ ho)]
    split
    · rfl
    · rw [hwalk _ List.mem_cons_self, List.map_map]
      rfl

theorem walk_eq {entry : FileEntry} (htree : Everywhere HasNoIgnoreFiles entry) (path : Path)
    (name : String) (h : ∀ scope ∈ scopes, scope.IsFree) :
    entry.walk scopes path name = entry.visibleFiles.map path.pushAll := by
  induction htree generalizing scopes path name with
  | file content => rfl
  | directory hentries _ ih =>
    have hcons := List.forall_mem_cons.mpr ⟨Scope.isFree_ofDirectory hentries name, h⟩
    exact walkEntries_eq hcons fun named hmem path name => ih named hmem path name hcons

section Names

variable {entry : FileEntry} {names : List String}

/-- Visible files are those that names lead to of which none is hidden. -/
theorem mem_visibleFiles_iff (h : Everywhere HasProperNames entry) :
    names ∈ entry.visibleFiles ↔
      (∀ name ∈ names, isHidden name = false) ∧ ∃ content, below? entry names = some (.file content) := by
  induction h generalizing names with
  | file content => cases names <;> simp [visibleFiles, below?]
  | @directory entries hentries _ ih =>
    rw [visibleFiles, visibleFilesIn_eq_flatMap, List.mem_flatMap]
    cases names with
    | nil =>
      constructor
      · rintro ⟨named, -, hin⟩
        split at hin <;> simp at hin
      · rintro ⟨-, content, hcontent⟩
        cases hcontent
    | cons name rest =>
      rw [List.forall_mem_cons, below?]
      simp only [Option.bind_eq_some_iff]
      constructor
      · rintro ⟨⟨first, entry⟩, hmem, hin⟩
        split at hin
        · exact absurd hin List.not_mem_nil
        · next hhidden =>
          obtain ⟨_, hrest, heq⟩ := List.mem_map.mp hin
          cases heq
          obtain ⟨hvisible, content, hbelow⟩ := (ih _ hmem).mp hrest
          exact ⟨⟨by simpa using hhidden, hvisible⟩, content, entry,
            (find?_eq_some_iff hentries.nodup).mpr hmem, hbelow⟩
      · rintro ⟨⟨hname, hvisible⟩, content, entry, hfind, hbelow⟩
        have hmem := mem_of_find? hfind
        refine ⟨(name, entry), hmem, ?_⟩
        rw [if_neg (by simp [hname])]
        exact List.mem_map_of_mem ((ih _ hmem).mpr ⟨hvisible, content, hbelow⟩)

theorem nodup_visibleFiles (h : Everywhere HasProperNames entry) : entry.visibleFiles.Nodup := by
  induction h with
  | file content => exact List.nodup_singleton _
  | directory hentries _ ih =>
    rw [visibleFiles, visibleFilesIn_eq_flatMap, List.nodup_flatMap]
    constructor
    · intro named hmem
      split
      · exact List.nodup_nil
      · exact (ih named hmem).map List.cons_injective
    · -- Below different names the lists of names differ in the first one.
      refine (List.pairwise_map.mp hentries.nodup).imp fun {first second} hne => ?_
      intro names hfirst hsecond
      dsimp only at hfirst hsecond
      split at hfirst
      · exact List.not_mem_nil hfirst
      split at hsecond
      · exact List.not_mem_nil hsecond
      obtain ⟨_, -, rfl⟩ := List.mem_map.mp hfirst
      obtain ⟨_, -, heq⟩ := List.mem_map.mp hsecond
      exact hne (List.cons.inj heq).1.symm

theorem isName_of_below? {found : FileEntry} (h : Everywhere HasProperNames entry)
    (hbelow : below? entry names = some found) : ∀ name ∈ names, Path.IsName name := by
  induction names generalizing entry with
  | nil => exact fun _ hn => absurd hn List.not_mem_nil
  | cons name rest ih =>
    cases entry with
    | file content => cases hbelow
    | directory entries =>
      obtain ⟨inner, hinner, hrest⟩ := Option.bind_eq_some_iff.mp hbelow
      exact List.forall_mem_cons.mpr ⟨h.entries.isName name (List.mem_map_of_mem (mem_of_find? hinner)),
        ih (h.of_find? hinner) hrest⟩

theorem isName_of_mem_visibleFiles (h : Everywhere HasProperNames entry)
    (hmem : names ∈ entry.visibleFiles) : ∀ name ∈ names, Path.IsName name := by
  obtain ⟨-, content, hbelow⟩ := (mem_visibleFiles_iff h).mp hmem
  exact isName_of_below? h hbelow

end Names

end FileEntry

/-! ## Walks -/

namespace FileTree

variable {tree : FileTree} {start : Path}

/-- No directory of the tree has ignore files. -/
def HasNoIgnoreFiles (tree : FileTree) : Prop :=
  FileEntry.Everywhere FileEntry.HasNoIgnoreFiles (.directory tree.entries)

theorem walk_of_none (h : tree.get? start = none) : tree.walk start = [] := by
  rw [walk, h]

theorem walk_of_some {entry : FileEntry} (htree : tree.HasNoIgnoreFiles)
    (h : tree.get? start = some entry) : tree.walk start = entry.visibleFiles.map start.pushAll := by
  rw [walk, h]
  exact FileEntry.walk_eq (everywhere_of_get? htree h) start _
    (FileEntry.isFree_of_mem_scopesAlong htree fun _ hs => absurd hs List.not_mem_nil)

end FileTree

end EntityGraph
