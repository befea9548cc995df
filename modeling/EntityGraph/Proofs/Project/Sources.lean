import EntityGraph.Project.Sources
import EntityGraph.Proofs.Files.Order
import EntityGraph.Proofs.Files.Walk

/-!
# Sources below a directory

The sources of a project below one of its directories, in a tree without ignore files. They are the visible
files below it that some grammar reads and that are not excluded, in strictly increasing order, where a file
is excluded by its path below the root, wherever the walk starts.

* `FileTree.sourcesWithout`: the sources for any way to exclude paths;
* `FileTree.sourcesWithin`: those of the whole project that lie below a directory;
* `FileTree.VisibleSource`: the names that lead from a directory to a source;
* `FileTree.relativeTo_below`: the path of a source below the root, as it is written;
* `FileTree.mem_sourcesWithout_iff`, `FileTree.pairwise_sourcesWithout`: which paths are listed, and in which
  order;
* `FileTree.sourcesWithout_below_iff`, `FileTree.sourcesWithout_below_written`: when the sources below a
  directory are those of the project that lie below it;
* `FileTree.sourcesWithout_below`: the sources below a directory as a whole;
* `FileTree.sources_doubleSlash`: below a directory that is written with two slashes, a source that the
  project leaves out.
-/

namespace EntityGraph

open EntityGraph.Path (IsName isSilent split openEnd)

/-! ## Directories below the root -/

/-- Whether the name begins with a dot. -/
def Path.Component.isHidden : Component → Bool
  | .parent => true
  | .normal name => FileEntry.isHidden name
  | _ => false

namespace Path

/-- The pieces of a path as they are written, from the first name on. An empty one at the end does not
count. -/
def writtenPieces (path : Path) : List String :=
  (openEnd (split path.text)).dropWhile isSilent

variable {below : Path}

section Visible

variable (h : ∀ component ∈ below.components, component.isHidden = false)

include h

theorem notUp_of_visible : ".." ∉ split below.text := by
  intro hmem
  have hfilter : ".." ∈ below.opened.2.filter (!isSilent ·) := by
    rw [filter_opened]
    exact List.mem_filter.mpr ⟨hmem, rfl⟩
  have hcomponent : .parent ∈ below.components :=
    List.mem_append_right _ (List.mem_map.mpr ⟨_, hfilter, rfl⟩)
  cases h _ hcomponent

/-- The pieces of a path that are not silent are the names in it. -/
theorem filter_split_of_visible : (split below.text).filter (!isSilent ·) = below.normalNames := by
  have hpieces : ((split below.text).filter (!isSilent ·)).map Component.ofPiece =
      ((split below.text).filter (!isSilent ·)).map .normal := by
    refine List.map_congr_left fun piece hp => if_neg ?_
    rintro rfl
    exact notUp_of_visible h (List.mem_filter.mp hp).1
  rw [normalNames, components_eq, filter_opened, hpieces, List.filterMap_append]
  cases below.opened.1 <;> simp [Start.components, List.filterMap_map]

/-- If no piece between the names is silent, the names are what is written. -/
theorem writtenPieces_eq_normalNames (hwritten : ∀ piece ∈ below.writtenPieces, isSilent piece = false) :
    below.writtenPieces = below.normalNames := by
  have hall : below.writtenPieces.filter (!isSilent ·) = below.writtenPieces :=
    List.filter_eq_self.mpr fun piece hp => by rw [hwritten piece hp]; rfl
  rw [← filter_split_of_visible h, ← filter_openEnd, ← filter_dropWhile_silent]
  exact hall.symm

theorem visible_of_mem_normalNames {name : String} (hname : name ∈ below.normalNames) :
    FileEntry.isHidden name = false :=
  h _ (mem_normalNames.mp hname)

end Visible

end Path

/-- Whether a file is supported depends on its name alone. -/
theorem Registry.supports_pushAll_congr (registry : Registry) (first second : Path) {names : List String}
    (hne : names ≠ []) (h : ∀ name ∈ names, IsName name) :
    registry.supports (first.pushAll names) = registry.supports (second.pushAll names) := by
  obtain ⟨front, last, rfl⟩ := (List.eq_nil_or_concat' names).resolve_left hne
  have hlast := h last (by simp)
  have hpush : ∀ path : Path, path.pushAll (front ++ [last]) = (path.pushAll front).push last :=
    fun path => Path.pushAll_append path front [last]
  rw [supports, supports, forFile?, forFile?, hpush, hpush, Path.extension?, Path.extension?,
    Path.fileName?_push _ hlast, Path.fileName?_push _ hlast]

/-! ## Listed paths -/

namespace FileTree

/-- The sources below `start` of the project at `root` whose path below the root is not excluded. -/
def sourcesWithout (files : FileTree) (registry : Registry) (excluded : Path → Bool)
    (root start : Path) : List Path :=
  ((files.walk start).filter fun path =>
    registry.supports path && !excluded (path.relativeTo root)).mergeSort Path.le

/-- The sources of the project at `root` that lie below `start`. -/
def sourcesWithin (files : FileTree) (registry : Registry) (excluded : Path → Bool)
    (root start : Path) : List Path :=
  (files.sourcesWithout registry excluded root root).filter (start.components.isPrefixOf ·.components)

/-- The names lead from a directory to a file that some grammar reads, and none of them is hidden. -/
structure VisibleSource (files : FileTree) (registry : Registry) (start : Path) (names : List String) :
    Prop where
  isName : ∀ name ∈ names, IsName name
  visible : ∀ name ∈ names, FileEntry.isHidden name = false
  isFile : files.isFile (start.pushAll names) = true
  supported : registry.supports (start.pushAll names) = true

variable {files : FileTree} {registry : Registry} {excluded : Path → Bool} {root start below path : Path}

theorem mem_sourcesWithout_iff_walk : path ∈ files.sourcesWithout registry excluded root start ↔
    path ∈ files.walk start ∧ registry.supports path = true ∧ excluded (path.relativeTo root) = false := by
  rw [sourcesWithout, List.mem_mergeSort, List.mem_filter]
  simp

theorem isFile_pushAll_iff {entry : FileEntry} (h : files.get? start = some entry) {names : List String}
    (hnames : ∀ name ∈ names, IsName name) : files.isFile (start.pushAll names) = true ↔
      ∃ content, FileEntry.below? entry names = some (.file content) := by
  rw [isFile_iff, get?_pushAll (text_ne_of_get? h) hnames, h, Option.bind_some]

section Tree

variable (hfiles : files.WellFormed) (hrules : files.HasNoIgnoreFiles)

include hfiles hrules

/-- The sources below any path strictly increase. -/
theorem pairwise_sourcesWithout (registry : Registry) (excluded : Path → Bool) (root start : Path) :
    (files.sourcesWithout registry excluded root start).Pairwise Path.Before := by
  refine Path.pairwise_before_mergeSort ((List.filter_sublist.map Path.components).nodup ?_)
  cases hget : files.get? start with
  | none =>
    rw [walk_of_none hget]
    exact List.nodup_nil
  | some entry =>
    have hentry := everywhere_of_get? hfiles.entries hget
    have hcomponents : entry.visibleFiles.map (Path.components ∘ start.pushAll) =
        entry.visibleFiles.map fun names => start.components ++ names.map .normal :=
      List.map_congr_left fun names hn =>
        Path.components_pushAll start (FileEntry.isName_of_mem_visibleFiles hentry hn)
    rw [walk_of_some hrules hget, List.map_map, hcomponents]
    exact (FileEntry.nodup_visibleFiles hentry).map fun _ _ heq =>
      Path.map_normal_injective (List.append_cancel_left heq)

/-- Below a directory the sources are those that visible names lead to. -/
theorem mem_sourcesWithout_iff (hstart : files.isDirectory start = true) :
    path ∈ files.sourcesWithout registry excluded root start ↔
      ∃ names, VisibleSource files registry start names ∧ path = start.pushAll names ∧
        excluded (path.relativeTo root) = false := by
  obtain ⟨entries, hget⟩ := isDirectory_iff.mp hstart
  have hentry := everywhere_of_get? hfiles.entries hget
  rw [mem_sourcesWithout_iff_walk, walk_of_some hrules hget, List.mem_map]
  constructor
  · rintro ⟨⟨names, hmem, rfl⟩, hsupported, hexcluded⟩
    have hnames := FileEntry.isName_of_mem_visibleFiles hentry hmem
    obtain ⟨hvisible, hfile⟩ := (FileEntry.mem_visibleFiles_iff hentry).mp hmem
    exact ⟨names, ⟨hnames, hvisible, (isFile_pushAll_iff hget hnames).mpr hfile, hsupported⟩, rfl,
      hexcluded⟩
  · rintro ⟨names, hsource, rfl, hexcluded⟩
    have hfile := (isFile_pushAll_iff hget hsource.isName).mp hsource.isFile
    exact ⟨⟨names, (FileEntry.mem_visibleFiles_iff hentry).mpr ⟨hsource.visible, hfile⟩, rfl⟩,
      hsource.supported, hexcluded⟩

end Tree

/-! ## Two walks -/

theorem ne_nil_of_isFile {names : List String} (hdirectory : files.isDirectory start = true)
    (hfile : files.isFile (start.pushAll names) = true) : names ≠ [] := by
  rintro rfl
  obtain ⟨entries, hget⟩ := isDirectory_iff.mp hdirectory
  obtain ⟨content, hget'⟩ := isFile_iff.mp hfile
  exact absurd (hget.symm.trans hget') (by simp)

theorem relativeTo_pushAll (root : Path) {names : List String} (hne : names ≠ [])
    (hnames : ∀ name ∈ names, IsName name) :
    (root.pushAll names).relativeTo root = .ofPieces .plain names := by
  rw [Path.relativeTo, Path.stripPrefix?_pushAll root hne hnames]
  rfl

section Below

variable (hrelative : below.isAbsolute = false)
  (hvisible : ∀ component ∈ below.components, component.isHidden = false)
  (hstart : files.isDirectory (root.push below.text) = true)

include hrelative

/-- The path below the root of a file in the directory, as it is written. -/
theorem relativeTo_below (hroot : root.text ≠ "") {names : List String} (hne : names ≠ [])
    (hnames : ∀ name ∈ names, IsName name) :
    ((root.push below.text).pushAll names).relativeTo root =
      .ofPieces .plain (below.writtenPieces ++ names) := by
  rw [Path.relativeTo, Path.stripPrefix?_push_pushAll hroot hrelative hne hnames]
  rfl

include hvisible

theorem components_below (hroot : root.text ≠ "") :
    (root.push below.text).components = root.components ++ below.normalNames.map .normal := by
  rw [Path.components_push_text hroot hrelative, Path.filter_split_of_visible hvisible]
  refine congrArg _ (List.map_congr_left fun name hn => ?_)
  exact (Path.isName_of_mem_normalNames hn).ofPiece

include hstart

/-- From the root the names in the path of the directory lead to it. -/
theorem get?_below (hroot : files.isDirectory root = true) {names : List String}
    (hnames : ∀ name ∈ names, IsName name) :
    files.get? (root.pushAll (below.normalNames ++ names)) =
      files.get? ((root.push below.text).pushAll names) := by
  obtain ⟨rootEntries, hgetRoot⟩ := isDirectory_iff.mp hroot
  obtain ⟨entries, hget⟩ := isDirectory_iff.mp hstart
  have hne := text_ne_of_get? hgetRoot
  have hbelow := hget
  rw [get?_push hne hrelative (Path.notUp_of_visible hvisible), hgetRoot,
    Option.bind_some] at hbelow
  have hdirectory := FileEntry.below?_of_follow (Path.notUp_of_visible hvisible) hbelow
  rw [Path.filter_split_of_visible hvisible] at hdirectory
  have hall : ∀ name ∈ below.normalNames ++ names, IsName name :=
    List.forall_mem_append.mpr ⟨fun _ => Path.isName_of_mem_normalNames, hnames⟩
  rw [get?_pushAll hne hall, get?_pushAll (text_ne_of_get? hget) hnames, hgetRoot, hget,
    Option.bind_some, Option.bind_some, FileEntry.below?_append, hdirectory, Option.bind_some]

/-- The sources below the directory are those of the root that the names in its path lead through. -/
theorem visibleSource_below_iff (hroot : files.isDirectory root = true) {names : List String} :
    VisibleSource files registry root (below.normalNames ++ names) ↔
      VisibleSource files registry (root.push below.text) names := by
  constructor
  · intro h
    have hnames : ∀ name ∈ names, IsName name := fun name hn => h.isName name (List.mem_append_right _ hn)
    have hfile : files.isFile ((root.push below.text).pushAll names) = true := by
      rw [isFile, ← get?_below hrelative hvisible hstart hroot hnames]
      exact h.isFile
    have hne := ne_nil_of_isFile hstart hfile
    refine ⟨hnames, fun name hn => h.visible name (List.mem_append_right _ hn), hfile, ?_⟩
    rw [registry.supports_pushAll_congr _ (root.pushAll below.normalNames) hne hnames,
      ← Path.pushAll_append]
    exact h.supported
  · intro h
    have hne := ne_nil_of_isFile hstart h.isFile
    refine ⟨List.forall_mem_append.mpr ⟨fun _ => Path.isName_of_mem_normalNames, h.isName⟩,
      List.forall_mem_append.mpr ⟨fun _ => Path.visible_of_mem_normalNames hvisible, h.visible⟩, ?_, ?_⟩
    · rw [isFile, get?_below hrelative hvisible hstart hroot h.isName]
      exact h.isFile
    · rw [Path.pushAll_append,
        registry.supports_pushAll_congr _ (root.push below.text) hne h.isName]
      exact h.supported

/-! ## Listed components -/

section Components

variable (hfiles : files.WellFormed) (hrules : files.HasNoIgnoreFiles) (registry : Registry)
  (excluded : Path → Bool)

include hfiles hrules

omit hvisible in
/-- The components of the sources below the directory. -/
theorem mem_components_below (hroot : root.text ≠ "") (components : List Path.Component) :
    components ∈ (files.sourcesWithout registry excluded root (root.push below.text)).map
        Path.components ↔
      ∃ names, VisibleSource files registry (root.push below.text) names ∧
        excluded (.ofPieces .plain (below.writtenPieces ++ names)) = false ∧
        components = (root.push below.text).components ++ names.map .normal := by
  rw [List.mem_map]
  constructor
  · rintro ⟨path, hpath, rfl⟩
    obtain ⟨names, hsource, rfl, hexcluded⟩ := (mem_sourcesWithout_iff hfiles hrules hstart).mp hpath
    rw [relativeTo_below hrelative hroot (ne_nil_of_isFile hstart hsource.isFile) hsource.isName] at hexcluded
    exact ⟨names, hsource, hexcluded, Path.components_pushAll _ hsource.isName⟩
  · rintro ⟨names, hsource, hexcluded, rfl⟩
    refine ⟨_, (mem_sourcesWithout_iff hfiles hrules hstart).mpr ⟨names, hsource, rfl, ?_⟩,
      Path.components_pushAll _ hsource.isName⟩
    rw [relativeTo_below hrelative hroot (ne_nil_of_isFile hstart hsource.isFile) hsource.isName]
    exact hexcluded

/-- The components of the sources of the root that lie below the directory. -/
theorem mem_components_root (hroot : files.isDirectory root = true) (components : List Path.Component) :
    components ∈ (files.sourcesWithin registry excluded root (root.push below.text)).map Path.components ↔
      ∃ names, VisibleSource files registry (root.push below.text) names ∧
        excluded (.ofPieces .plain (below.normalNames ++ names)) = false ∧
        components = (root.push below.text).components ++ names.map .normal := by
  obtain ⟨rootEntries, hget⟩ := isDirectory_iff.mp hroot
  have hne := text_ne_of_get? hget
  have hcomponents : ∀ names, (∀ name ∈ below.normalNames ++ names, IsName name) →
      (root.pushAll (below.normalNames ++ names)).components =
        (root.push below.text).components ++ names.map .normal := fun names hnames => by
    rw [Path.components_pushAll root hnames, components_below hrelative hvisible hne, List.map_append,
      List.append_assoc]
  rw [List.mem_map]
  constructor
  · rintro ⟨path, hpath, rfl⟩
    obtain ⟨hpath, hprefix⟩ := List.mem_filter.mp hpath
    obtain ⟨all, hsource, rfl, hexcluded⟩ := (mem_sourcesWithout_iff hfiles hrules hroot).mp hpath
    rw [List.isPrefixOf_iff_prefix, components_below hrelative hvisible hne,
      Path.components_pushAll root hsource.isName, List.prefix_append_right_inj] at hprefix
    obtain ⟨rest, hrest⟩ := hprefix
    obtain ⟨inner, names, rfl, hinner, -⟩ := List.map_eq_append_iff.mp hrest.symm
    obtain rfl := Path.map_normal_injective hinner
    rw [relativeTo_pushAll root (ne_nil_of_isFile hroot hsource.isFile) hsource.isName] at hexcluded
    exact ⟨names, (visibleSource_below_iff hrelative hvisible hstart hroot).mp hsource, hexcluded,
      hcomponents names hsource.isName⟩
  · rintro ⟨names, hsource, hexcluded, rfl⟩
    have hall := (visibleSource_below_iff hrelative hvisible hstart hroot).mpr hsource
    refine ⟨root.pushAll (below.normalNames ++ names), List.mem_filter.mpr
      ⟨(mem_sourcesWithout_iff hfiles hrules hroot).mpr ⟨_, hall, rfl, ?_⟩, ?_⟩,
      hcomponents names hall.isName⟩
    · rw [relativeTo_pushAll root (ne_nil_of_isFile hroot hall.isFile) hall.isName]
      exact hexcluded
    · rw [hcomponents names hall.isName, List.isPrefixOf_iff_prefix]
      exact List.prefix_append _ _

/-- The sources below the directory are those of the root that lie below it, exactly if no source below it
is excluded by its path as it is written and not by the names in it, or the other way round. -/
theorem sourcesWithout_below_iff (hroot : files.isDirectory root = true) :
    (files.sourcesWithout registry excluded root (root.push below.text)).map Path.components =
        (files.sourcesWithin registry excluded root (root.push below.text)).map Path.components ↔
      ∀ names, VisibleSource files registry (root.push below.text) names →
        excluded (.ofPieces .plain (below.writtenPieces ++ names)) =
          excluded (.ofPieces .plain (below.normalNames ++ names)) := by
  obtain ⟨rootEntries, hget⟩ := isDirectory_iff.mp hroot
  have hbelow := mem_components_below hrelative hstart hfiles hrules registry excluded (text_ne_of_get? hget)
  have hwhole := mem_components_root hrelative hvisible hstart hfiles hrules registry excluded hroot
  constructor
  · intro heq names hsource
    -- Different names below the directory give different components.
    have hnames : ∀ other : List String,
        (root.push below.text).components ++ names.map Path.Component.normal =
          (root.push below.text).components ++ other.map .normal → names = other := fun other h =>
      Path.map_normal_injective (List.append_cancel_left h)
    have hwritten : excluded (.ofPieces .plain (below.writtenPieces ++ names)) = false ↔
        excluded (.ofPieces .plain (below.normalNames ++ names)) = false := by
      constructor
      · intro hexcluded
        have hmem := (hbelow _).mpr ⟨names, hsource, hexcluded, rfl⟩
        obtain ⟨other, -, hother, hsame⟩ := (hwhole _).mp (heq ▸ hmem)
        exact hnames other hsame ▸ hother
      · intro hexcluded
        have hmem := (hwhole _).mpr ⟨names, hsource, hexcluded, rfl⟩
        obtain ⟨other, -, hother, hsame⟩ := (hbelow _).mp (heq ▸ hmem)
        exact hnames other hsame ▸ hother
    rw [Bool.eq_iff_iff, ← not_iff_not, Bool.not_eq_true, Bool.not_eq_true]
    exact hwritten
  · intro hsame
    refine Path.map_components_eq (pairwise_sourcesWithout hfiles hrules registry excluded root _)
      ((pairwise_sourcesWithout hfiles hrules registry excluded root root).filter _) fun components => ?_
    rw [hbelow, hwhole]
    refine exists_congr fun names => and_congr_right fun hsource => ?_
    rw [hsame names hsource]

/-- If no piece between the names in the path of the directory is silent, its sources are those of the root
that lie below it, whatever is excluded. -/
theorem sourcesWithout_below_written (hroot : files.isDirectory root = true)
    (hwritten : ∀ piece ∈ below.writtenPieces, isSilent piece = false) :
    (files.sourcesWithout registry excluded root (root.push below.text)).map Path.components =
      (files.sourcesWithin registry excluded root (root.push below.text)).map Path.components := by
  refine (sourcesWithout_below_iff hrelative hvisible hstart hfiles hrules registry excluded hroot).mpr
    fun names _ => ?_
  rw [Path.writtenPieces_eq_normalNames hvisible hwritten]

end Components

/-- A root that is no directory, with a directory below it, has no sources: it is empty. -/
theorem sourcesWithout_of_not_directory (registry : Registry) (excluded : Path → Bool)
    (hroot : files.isDirectory root = false) : files.sourcesWithout registry excluded root root = [] := by
  have hget : files.get? root = none := by
    by_contra hsome
    obtain ⟨entry, hentry⟩ := Option.ne_none_iff_exists'.mp hsome
    obtain ⟨entries, hbelow⟩ := isDirectory_iff.mp hstart
    rw [get?_push (text_ne_of_get? hentry) hrelative (Path.notUp_of_visible hvisible),
      hentry, Option.bind_some] at hbelow
    cases entry with
    | file content =>
      rw [FileEntry.follow_file _ _ (Path.split_ne_nil _)] at hbelow
      cases hbelow
    | directory entries => exact absurd (isDirectory_iff.mpr ⟨entries, hentry⟩) (by simp [hroot])
  rw [sourcesWithout, walk_of_none hget]
  exact List.mergeSort_nil

end Below

/-- In a tree without ignore files, the sources below a directory whose path from the root has no hidden
component strictly increase, and are the visible supported files whose path below the root is not excluded.
They are those of the sources of the root that lie below the directory exactly if no source is excluded in
only one spelling of its path below the root: as it is written, or by its names alone. With no silent piece
between the names there is only one spelling. A root that is no directory has no sources. An absolute path
would replace the root, so that the parts on the root do not speak of it. -/
theorem sourcesWithout_below (hfiles : files.WellFormed) (hrules : files.HasNoIgnoreFiles)
    (hvisible : ∀ component ∈ below.components, component.isHidden = false)
    (hstart : files.isDirectory (root.push below.text) = true) (registry : Registry)
    (excluded : Path → Bool) :
    (∀ (patterns : List Pattern) (start : Path), files.sources registry patterns root start =
      files.sourcesWithout registry (fun relative => patterns.any (·.fits relative.text)) root start) ∧
    (files.sourcesWithout registry excluded root (root.push below.text)).Pairwise Path.Before ∧
    (∀ path, path ∈ files.sourcesWithout registry excluded root (root.push below.text) ↔
      ∃ names, VisibleSource files registry (root.push below.text) names ∧
        path = (root.push below.text).pushAll names ∧ excluded (path.relativeTo root) = false) ∧
    (below.isAbsolute = false → files.isDirectory root = true →
      (∀ names, VisibleSource files registry (root.push below.text) names →
        ((root.push below.text).pushAll names).relativeTo root =
          .ofPieces .plain (below.writtenPieces ++ names)) ∧
      ((files.sourcesWithout registry excluded root (root.push below.text)).map Path.components =
          (files.sourcesWithin registry excluded root (root.push below.text)).map Path.components ↔
        ∀ names, VisibleSource files registry (root.push below.text) names →
          excluded (.ofPieces .plain (below.writtenPieces ++ names)) =
            excluded (.ofPieces .plain (below.normalNames ++ names))) ∧
      ((∀ piece ∈ below.writtenPieces, isSilent piece = false) →
        (files.sourcesWithout registry excluded root (root.push below.text)).map Path.components =
          (files.sourcesWithin registry excluded root (root.push below.text)).map Path.components)) ∧
    (below.isAbsolute = false → files.isDirectory root = false →
      files.sourcesWithout registry excluded root root = []) := by
  refine ⟨fun _ _ => rfl, pairwise_sourcesWithout hfiles hrules registry excluded root _,
    fun _ => mem_sourcesWithout_iff hfiles hrules hstart,
    fun hrelative hroot => ⟨fun names hsource => ?_, ?_, ?_⟩, fun hrelative hroot => ?_⟩
  · obtain ⟨rootEntries, hget⟩ := isDirectory_iff.mp hroot
    exact relativeTo_below hrelative (text_ne_of_get? hget) (ne_nil_of_isFile hstart hsource.isFile)
      hsource.isName
  · exact sourcesWithout_below_iff hrelative hvisible hstart hfiles hrules registry excluded hroot
  · exact sourcesWithout_below_written hrelative hvisible hstart hfiles hrules registry excluded hroot
  · exact sourcesWithout_of_not_directory hrelative hvisible hstart registry excluded hroot

/-- A tree with one file, in a directory of a directory of a project. -/
def nested : FileTree :=
  empty.insert ⟨"proj/a/b/x.py"⟩ (.file .empty)

theorem hasNoIgnoreFiles_nested : nested.HasNoIgnoreFiles :=
  have hdirectory : ∀ {name : String} {entry : FileEntry}, FileEntry.HasNoIgnoreFiles [(name, entry)] →
      FileEntry.Everywhere FileEntry.HasNoIgnoreFiles entry →
      FileEntry.Everywhere FileEntry.HasNoIgnoreFiles (.directory [(name, entry)]) :=
    fun h hentry => .directory h (List.forall_mem_singleton.mpr hentry)
  hdirectory (.of_find? rfl rfl rfl) (hdirectory (.of_find? rfl rfl rfl)
    (hdirectory (.of_find? rfl rfl rfl) (hdirectory (.of_find? rfl rfl rfl)
      (hdirectory (.of_find? rfl rfl rfl) (hdirectory (.of_find? rfl rfl rfl) (.file .empty))))))

/-- The file is found from the absolute path of the project. -/
theorem sourcesWithout_below_nested :
    nested.isDirectory ⟨"/home/user/proj/a//b"⟩ = true ∧
    ⟨"/home/user/proj/a//b/x.py"⟩ ∈ nested.sourcesWithout .standard (fun _ => false)
      ⟨"/home/user/proj"⟩ ⟨"/home/user/proj/a//b"⟩ ∧
    (nested.sourcesWithout .standard (fun _ => false) ⟨"/home/user/proj"⟩
        ⟨"/home/user/proj/a//b"⟩).map Path.components =
      (nested.sourcesWithin .standard (fun _ => false) ⟨"/home/user/proj"⟩
        ⟨"/home/user/proj/a//b"⟩).map Path.components := by
  have hvisible : ∀ component ∈ (Path.mk "a//b").components, component.isHidden = false := by
    decide +kernel
  have hstart : nested.isDirectory ((Path.mk "/home/user/proj").push (Path.mk "a//b").text) = true := by
    decide +kernel
  have hsource : VisibleSource nested .standard ((Path.mk "/home/user/proj").push "a//b") ["x.py"] :=
    ⟨by decide +kernel, by decide +kernel, by decide +kernel, by decide +kernel⟩
  obtain ⟨-, -, hmem, hroot, -⟩ := sourcesWithout_below (wellFormed_empty.insert _ (.file _))
    hasNoIgnoreFiles_nested hvisible hstart .standard fun _ => false
  exact ⟨hstart, (hmem _).mpr ⟨["x.py"], hsource, rfl, rfl⟩,
    (hroot rfl (by decide +kernel)).2.1.mpr fun _ _ => rfl⟩

/-- A path is excluded as it is written: below a directory that is written with two slashes there is a
source that is none of the root. -/
theorem sources_doubleSlash : ∃ pattern, Pattern.ofText "a/b/*" = .ok pattern ∧
    nested.sources .standard [pattern] ⟨"proj"⟩ ⟨"proj"⟩ = [] ∧
    nested.sources .standard [pattern] ⟨"proj"⟩ ⟨"proj/a//b"⟩ = [⟨"proj/a//b/x.py"⟩] := by
  refine ⟨⟨"a/b/*", [.char 'a', .char '/', .char 'b', .char '/', .anySequence]⟩, ?_, ?_, ?_⟩
  · simp [Pattern.ofText, Pattern.compile, Pattern.compileFrom]
  · have hget : nested.get? ⟨"proj"⟩ =
        some (.directory [("a", .directory [("b", .directory [("x.py", .file .empty)])])]) := rfl
    have hwalk : nested.walk ⟨"proj"⟩ = [⟨"proj/a/b/x.py"⟩] := walk_of_some hasNoIgnoreFiles_nested hget
    rw [sources, hwalk]
    exact List.mergeSort_nil
  · have hget : nested.get? ⟨"proj/a//b"⟩ = some (.directory [("x.py", .file .empty)]) := rfl
    have hwalk : nested.walk ⟨"proj/a//b"⟩ = [⟨"proj/a//b/x.py"⟩] :=
      walk_of_some hasNoIgnoreFiles_nested hget
    rw [sources, hwalk]
    exact List.mergeSort_singleton _

end FileTree

end EntityGraph
