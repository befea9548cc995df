import EntityGraph.Files.FileTree
import EntityGraph.Proofs.Files.Path

/-!
# Entries of file trees

What paths lead to in a file tree. `FileEntry.Everywhere` says something of every directory at or below an
entry, and `FileEntry.below?` follows names downwards from it.

* `FileEntry.follow_append`, `FileEntry.below?_of_follow`: pieces that do not lead up are followed one after
  the other, and only the names among them count;
* `FileTree.get?_push`, `FileTree.get?_pushAll`: what a path leads to after a text or names are pushed;
* `FileTree.WellFormed`: in every directory the names are different, and can name an entry, as can those
  that lead to the working directory;
* `FileTree.WellFormed.insert`, `FileTree.WellFormed.remove`: trees that are changed stay well-formed.
-/

namespace EntityGraph

namespace FileEntry

/-- The property holds of the entries of every directory at or below an entry. -/
inductive Everywhere (P : List (String × FileEntry) → Prop) : FileEntry → Prop
  | file (content : ByteArray) : Everywhere P (.file content)
  | directory {entries : List (String × FileEntry)} :
    P entries → (∀ named ∈ entries, Everywhere P named.2) → Everywhere P (.directory entries)

/-- What the names lead to, one below the other. -/
def below? : FileEntry → List String → Option FileEntry
  | entry, [] => some entry
  | .file _, _ :: _ => none
  | .directory entries, name :: rest => (find? name entries).bind (below? · rest)

/-! ## Following pieces -/

section Follow

variable (above : List FileEntry) (entries : List (String × FileEntry)) {piece : String}

theorem follow_file (content : ByteArray) {pieces : List String} (hne : pieces ≠ []) :
    follow above (.file content) pieces = none := by
  obtain ⟨piece, rest, rfl⟩ := List.exists_cons_of_ne_nil hne
  rfl

theorem follow_silent (h : Path.isSilent piece = true) (rest : List String) :
    follow above (.directory entries) (piece :: rest) = follow above (.directory entries) rest := by
  rw [follow.eq_def]
  exact if_pos h

theorem follow_name (hsilent : Path.isSilent piece = false) (hup : piece ≠ "..") (rest : List String) :
    follow above (.directory entries) (piece :: rest) =
      (find? piece entries).bind (follow (.directory entries :: above) · rest) := by
  rw [follow.eq_def]
  simp only [hsilent, if_neg hup, Bool.false_eq_true, if_false]
  cases find? piece entries <;> rfl

variable {above entries}

/-- The directories above an entry do not matter to pieces that do not lead up. -/
theorem follow_of_notUp {pieces : List String} (h : ".." ∉ pieces) (above : List FileEntry)
    (entry : FileEntry) : follow above entry pieces = follow [] entry pieces := by
  induction pieces generalizing above entry with
  | nil => cases entry <;> rfl
  | cons piece rest ih =>
    obtain ⟨hup, hrest⟩ := not_or.mp (List.mem_cons.not.mp h)
    cases entry with
    | file content => rfl
    | directory entries =>
      cases hs : Path.isSilent piece with
      | true => rw [follow_silent _ _ hs, follow_silent _ _ hs, ih hrest]
      | false =>
        rw [follow_name _ _ hs (Ne.symm hup), follow_name _ _ hs (Ne.symm hup)]
        exact congrArg _ (funext fun entry => (ih hrest _ entry).trans (ih hrest _ entry).symm)

theorem follow_append {second : List String} (h : ".." ∉ second) (first : List String)
    (above : List FileEntry) (entry : FileEntry) :
    follow above entry (first ++ second) = (follow above entry first).bind (follow [] · second) := by
  induction first generalizing above entry with
  | nil =>
    rw [List.nil_append, follow_of_notUp h]
    cases entry <;> rfl
  | cons piece rest ih =>
    cases entry with
    | file content => rfl
    | directory entries =>
      rw [List.cons_append, follow.eq_def, follow.eq_def above _ (piece :: rest)]
      dsimp only
      split
      · exact ih above _
      split
      · cases above with
        | nil => exact ih [] _
        | cons up further => exact ih further up
      · cases find? piece entries with
        | none => rfl
        | some entry => exact ih _ entry

/-- An empty piece at the end only makes a difference if nothing is followed after it. -/
theorem follow_openEnd_bind {second : List String} (hne : second ≠ []) (first : List String)
    (above : List FileEntry) (entry : FileEntry) :
    (follow above entry (Path.openEnd first)).bind (follow [] · second) =
      (follow above entry first).bind (follow [] · second) := by
  rw [Path.openEnd]
  split
  · rename_i hlast
    obtain ⟨front, rfl⟩ := List.getLast?_eq_some_iff.mp hlast
    rw [List.dropLast_concat, follow_append (by decide), Option.bind_assoc]
    refine congrArg _ (funext fun found => ?_)
    cases found with
    | file content => rw [follow_file _ _ hne]; rfl
    | directory entries => rfl
  · rfl

end Follow

section Below

variable {entry found : FileEntry}

theorem below?_nil (entry : FileEntry) : below? entry [] = some entry := by
  cases entry <;> rfl

theorem below?_append (entry : FileEntry) (first second : List String) :
    below? entry (first ++ second) = (below? entry first).bind (below? · second) := by
  induction first generalizing entry with
  | nil => cases entry <;> rfl
  | cons name rest ih =>
    cases entry with
    | file content => rfl
    | directory entries =>
      rw [List.cons_append, below?, below?, Option.bind_assoc]
      exact congrArg _ (funext fun inner => ih inner)

/-- Of pieces that do not lead up only the names count. -/
theorem below?_of_follow {pieces : List String} (hup : ".." ∉ pieces)
    (h : follow [] entry pieces = some found) :
    below? entry (pieces.filter (!Path.isSilent ·)) = some found := by
  induction pieces generalizing entry with
  | nil => cases entry <;> exact h
  | cons piece rest ih =>
    obtain ⟨hpiece, hrest⟩ := not_or.mp (List.mem_cons.not.mp hup)
    cases entry with
    | file content => cases h
    | directory entries =>
      cases hs : Path.isSilent piece with
      | true =>
        rw [follow_silent _ _ hs] at h
        rw [List.filter_cons_of_neg (by simp [hs])]
        exact ih hrest h
      | false =>
        rw [follow_name _ _ hs (Ne.symm hpiece)] at h
        obtain ⟨inner, hinner, hfollow⟩ := Option.bind_eq_some_iff.mp h
        rw [follow_of_notUp hrest] at hfollow
        rw [List.filter_cons_of_pos (by simp [hs]), below?, hinner]
        exact ih hrest hfollow

theorem follow_singleton {name : String} (h : Path.IsName name) (entry : FileEntry) :
    follow [] entry [name] = below? entry [name] := by
  cases entry with
  | file content => rfl
  | directory entries =>
    rw [follow_name _ _ h.not_silent h.notParent, below?]
    exact congrArg _ (funext fun inner => by cases inner <;> rfl)

end Below

/-! ## What holds everywhere -/

section Everywhere

variable {P : List (String × FileEntry) → Prop} {entry : FileEntry}

theorem Everywhere.entries {inner : List (String × FileEntry)} (h : Everywhere P (.directory inner)) :
    P inner := by
  cases h with
  | directory hP _ => exact hP

variable {entries : List (String × FileEntry)}

theorem mem_of_find? {name : String} (h : find? name entries = some entry) : (name, entry) ∈ entries := by
  obtain ⟨first, second, rfl, -⟩ := List.lookup_eq_some_iff.mp h
  exact List.mem_append_right _ List.mem_cons_self

theorem Everywhere.of_mem (h : Everywhere P (.directory entries)) {named : String × FileEntry}
    (hmem : named ∈ entries) : Everywhere P named.2 := by
  cases h with
  | directory _ hall => exact hall named hmem

theorem Everywhere.of_find? (h : Everywhere P (.directory entries)) {name : String}
    (hfind : find? name entries = some entry) : Everywhere P entry :=
  h.of_mem (mem_of_find? hfind)

theorem Everywhere.of_follow {above : List FileEntry} {found : FileEntry} {pieces : List String}
    (habove : ∀ up ∈ above, Everywhere P up) (h : Everywhere P entry)
    (hfollow : follow above entry pieces = some found) : Everywhere P found := by
  induction pieces generalizing above entry with
  | nil => cases entry <;> cases hfollow <;> exact h
  | cons piece rest ih =>
    cases entry with
    | file content => cases hfollow
    | directory entries =>
      rw [follow.eq_def] at hfollow
      dsimp only at hfollow
      split at hfollow
      · exact ih habove h hfollow
      split at hfollow
      · split at hfollow
        · exact ih habove h hfollow
        · exact ih (fun other ho => habove other (List.mem_cons_of_mem _ ho))
            (habove _ List.mem_cons_self) hfollow
      · split at hfollow
        · cases hfollow
        · next hfind => exact ih (List.forall_mem_cons.mpr ⟨h, habove⟩) (h.of_find? hfind) hfollow

end Everywhere

end FileEntry

/-! ## Paths in a tree -/

namespace FileTree

open FileEntry (follow below?)

variable {tree : FileTree} {path : Path}

theorem isFile_iff : tree.isFile path = true ↔ ∃ content, tree.get? path = some (.file content) := by
  rw [isFile]
  split <;> simp_all

theorem isDirectory_iff :
    tree.isDirectory path = true ↔ ∃ entries, tree.get? path = some (.directory entries) := by
  rw [isDirectory]
  split <;> simp_all

theorem text_ne_of_get? {entry : FileEntry} (h : tree.get? path = some entry) : path.text ≠ "" := by
  intro hempty
  rw [get?, if_pos hempty] at h
  cases h

theorem push_text_ne {piece : String} (hne : path.text ≠ "")
    (habs : (Path.mk piece).isAbsolute = false) : (path.push piece).text ≠ "" := by
  rw [Path.push, habs, if_neg Bool.false_ne_true]
  split <;> simp [hne]

theorem isAbsolute_push {piece : String} (hne : path.text ≠ "")
    (habs : (Path.mk piece).isAbsolute = false) : (path.push piece).isAbsolute = path.isAbsolute := by
  have hhead : ∀ rest : String, (Path.mk (path.text ++ rest)).isAbsolute = path.isAbsolute := fun rest => by
    obtain ⟨first, more, htext⟩ := List.exists_cons_of_ne_nil (mt String.toList_eq_nil_iff.mp hne)
    rw [Path.isAbsolute, Path.isAbsolute, String.toList_append, htext]
    rfl
  rw [Path.push, habs, if_neg Bool.false_ne_true]
  split
  · exact hhead piece
  · rw [String.append_assoc]
    exact hhead _

theorem everywhere_of_get? {P : List (String × FileEntry) → Prop} {entry : FileEntry}
    (h : FileEntry.Everywhere P (.directory tree.entries)) (hget : tree.get? path = some entry) :
    FileEntry.Everywhere P entry := by
  rw [get?] at hget
  split at hget
  · cases hget
  · exact .of_follow (fun _ hu => absurd hu List.not_mem_nil) h hget

/-- What a text leads to that is pushed onto a path. -/
theorem get?_push {piece : String} (hne : path.text ≠ "") (habs : (Path.mk piece).isAbsolute = false)
    (hup : ".." ∉ Path.split piece) :
    tree.get? (path.push piece) = (tree.get? path).bind (follow [] · (Path.split piece)) := by
  have hpieces : tree.pieces (path.push piece) = Path.openEnd (tree.pieces path) ++ Path.split piece := by
    rw [pieces, pieces, isAbsolute_push hne habs, Path.split_push hne habs,
      Path.openEnd_append (Path.split_ne_nil _), List.append_assoc]
  rw [get?, get?, if_neg (push_text_ne hne habs), if_neg hne, hpieces, FileEntry.follow_append hup,
    FileEntry.follow_openEnd_bind (Path.split_ne_nil piece)]

theorem get?_pushAll {names : List String} (hne : path.text ≠ "") (h : ∀ name ∈ names, Path.IsName name) :
    tree.get? (path.pushAll names) = (tree.get? path).bind (below? · names) := by
  induction names generalizing path with
  | nil =>
    rw [funext FileEntry.below?_nil, Option.bind_fun_some]
    rfl
  | cons name rest ih =>
    have hname := h name List.mem_cons_self
    have hsplit : Path.split name = [name] := Path.split_of_noSlash hname.noSlash
    have hrest : ∀ other ∈ rest, Path.IsName other := fun other ho => h other (List.mem_cons_of_mem _ ho)
    rw [Path.pushAll, List.foldl_cons, ← Path.pushAll, ih (push_text_ne hne hname.not_absolute) hrest,
      get?_push hne hname.not_absolute (by simpa [hsplit] using Ne.symm hname.notParent), hsplit,
      Option.bind_assoc]
    refine congrArg _ (funext fun entry => ?_)
    rw [FileEntry.follow_singleton hname, ← FileEntry.below?_append, List.singleton_append]

end FileTree

/-! ## Well-formed trees -/

namespace FileEntry

/-- The names in a directory are different, and can name entries. -/
structure HasProperNames (entries : List (String × FileEntry)) : Prop where
  nodup : (entries.map Prod.fst).Nodup
  isName : ∀ name ∈ entries.map Prod.fst, Path.IsName name

/-- With different names, every entry is found by its own. -/
theorem find?_eq_some_iff {entries : List (String × FileEntry)} (h : (entries.map Prod.fst).Nodup)
    {name : String} {entry : FileEntry} : find? name entries = some entry ↔ (name, entry) ∈ entries := by
  refine ⟨mem_of_find?, fun hmem => ?_⟩
  obtain ⟨first, second, rfl⟩ := List.append_of_mem hmem
  refine List.lookup_eq_some_iff.mpr ⟨first, second, rfl, fun other ho => ?_⟩
  rw [List.map_append, List.map_cons, List.nodup_append] at h
  exact bne_iff_ne.mpr (Ne.symm (h.2.2 _ (List.mem_map_of_mem ho) _ List.mem_cons_self))

theorem HasProperNames.nil : HasProperNames [] :=
  ⟨List.nodup_nil, fun _ h => absurd h List.not_mem_nil⟩

theorem HasProperNames.filter {entries : List (String × FileEntry)} (h : HasProperNames entries)
    (p : String × FileEntry → Bool) : HasProperNames (entries.filter p) :=
  have hsublist : ((entries.filter p).map Prod.fst).Sublist (entries.map Prod.fst) :=
    List.filter_sublist.map _
  ⟨h.nodup.sublist hsublist, fun name hname => h.isName name (hsublist.subset hname)⟩

theorem HasProperNames.replace {entries : List (String × FileEntry)} (h : HasProperNames entries)
    {name : String} (hname : Path.IsName name) (entry : FileEntry) :
    HasProperNames (FileEntry.replace name entry entries) := by
  have hrest := h.filter (·.1 ≠ name)
  refine ⟨List.nodup_cons.mpr ⟨?_, hrest.nodup⟩, List.forall_mem_cons.mpr ⟨hname, hrest.isName⟩⟩
  simp

section Changes

variable {entry : FileEntry} {entries : List (String × FileEntry)} {names : List String}

theorem Everywhere.filter (h : Everywhere HasProperNames (.directory entries))
    (p : String × FileEntry → Bool) : Everywhere HasProperNames (.directory (entries.filter p)) :=
  .directory (h.entries.filter p) fun _ hmem => h.of_mem (List.mem_filter.mp hmem).1

theorem Everywhere.replace (h : Everywhere HasProperNames (.directory entries)) {name : String}
    (hname : Path.IsName name) (hentry : Everywhere HasProperNames entry) :
    Everywhere HasProperNames (.directory (FileEntry.replace name entry entries)) := by
  refine .directory (h.entries.replace hname entry) fun named hmem => ?_
  rcases List.mem_cons.mp hmem with rfl | hmem
  · exact hentry
  · exact h.of_mem (List.mem_filter.mp hmem).1

/-- The directory below a name, or an empty one. -/
theorem Everywhere.inner (h : Everywhere HasProperNames (.directory entries)) (name : String) :
    Everywhere HasProperNames (.directory (match find? name entries with
      | some (.directory inner) => inner
      | _ => [])) := by
  split
  · next hfind => exact h.of_find? hfind
  · exact .directory .nil fun _ hmem => absurd hmem List.not_mem_nil

theorem Everywhere.insertAt (h : Everywhere HasProperNames (.directory entries))
    (hentry : Everywhere HasProperNames entry) (hnames : ∀ name ∈ names, Path.IsName name) :
    Everywhere HasProperNames (.directory (FileEntry.insertAt entry names entries)) := by
  fun_induction FileEntry.insertAt entry names entries with
  | case1 | case2 => exact h
  | case3 name => exact h.replace (hnames name List.mem_cons_self) hentry
  | case4 name rest entries _ inner ih =>
    exact h.replace (hnames name List.mem_cons_self)
      (ih (h.inner name) fun other ho => hnames other (List.mem_cons_of_mem _ ho))

theorem Everywhere.removeAt (h : Everywhere HasProperNames (.directory entries))
    (hnames : ∀ name ∈ names, Path.IsName name) :
    Everywhere HasProperNames (.directory (FileEntry.removeAt names entries)) := by
  fun_induction FileEntry.removeAt names entries with
  | case1 | case4 => exact h
  | case2 => exact h.filter _
  | case3 name rest entries _ inner hfind ih =>
    exact h.replace (hnames name List.mem_cons_self)
      (ih (h.of_find? hfind) fun other ho => hnames other (List.mem_cons_of_mem _ ho))

end Changes

end FileEntry

namespace FileTree

/-- All directories have proper names, and proper names lead to the working directory. -/
structure WellFormed (tree : FileTree) : Prop where
  entries : FileEntry.Everywhere FileEntry.HasProperNames (.directory tree.entries)
  working : ∀ name ∈ tree.working, Path.IsName name

theorem wellFormed_empty : empty.WellFormed where
  entries :=
    have hnone : FileEntry.Everywhere FileEntry.HasProperNames (.directory []) :=
      .directory .nil (List.forall_mem_nil _)
    hnone.insertAt hnone (by decide)
  working := by decide

variable {tree : FileTree} {names : List String} {piece : String}

/-- A piece of a path that is followed keeps all names proper. -/
theorem isName_enter (hnames : ∀ name ∈ names, Path.IsName name)
    (hpiece : Path.isSilent piece = false → piece ≠ ".." → Path.IsName piece) :
    ∀ name ∈ Path.enter names piece, Path.IsName name := by
  rw [Path.enter]
  split
  · exact hnames
  split
  · exact fun name hn => hnames name ((List.dropLast_sublist names).subset hn)
  · next hsilent hup =>
    exact List.forall_mem_append.mpr
      ⟨hnames, List.forall_mem_singleton.mpr (hpiece (by simpa using hsilent) hup)⟩

/-- The names that lead to where a path leads are proper, by induction on its pieces. -/
theorem WellFormed.isName_namesTo (h : tree.WellFormed) (path : Path) :
    ∀ name ∈ tree.namesTo path, Path.IsName name := by
  have hpieces : ∀ piece ∈ tree.pieces path,
      Path.isSilent piece = false → piece ≠ ".." → Path.IsName piece := by
    intro piece hp hsilent hup
    rcases List.mem_append.mp hp with hp | hp
    · split at hp
      · exact absurd hp List.not_mem_nil
      · exact h.working piece hp
    · exact Path.isName_of_mem_split hp hsilent hup
  rw [namesTo]
  generalize tree.pieces path = pieces at hpieces
  refine List.foldlRecOn pieces Path.enter (motive := fun names => ∀ name ∈ names, Path.IsName name)
    (List.forall_mem_nil _) fun names hnames piece hp => ?_
  exact isName_enter hnames (hpieces piece hp)

theorem WellFormed.insert (h : tree.WellFormed) (path : Path) {entry : FileEntry}
    (hentry : FileEntry.Everywhere FileEntry.HasProperNames entry) :
    (tree.insert path entry).WellFormed where
  entries := h.entries.insertAt hentry (h.isName_namesTo path)
  working := h.working

theorem WellFormed.remove (h : tree.WellFormed) (path : Path) : (tree.remove path).WellFormed where
  entries := h.entries.removeAt (h.isName_namesTo path)
  working := h.working

end FileTree

end EntityGraph
