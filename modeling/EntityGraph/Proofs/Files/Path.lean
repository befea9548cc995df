import EntityGraph.Files.Path
import EntityGraph.Proofs.Text.Pieces
import Mathlib.Data.List.Basic
import Mathlib.Tactic.MkIffOfInductiveProp

/-!
# Paths below a directory

What a path is after names have been pushed onto it. `Path.IsName` tells the pieces that can name an
entry of a directory, `Path.pushAll` pushes several of them.

* `components_push`, `components_pushAll`: pushed names are the last components;
* `components_push_text`, `opened_push_text`: the same for a text of several pieces;
* `stripPrefix?_pushAll`: without the path that they were pushed onto, the names are left;
* `stripPrefix?_push_pushAll`: names below a text that was pushed are left with the pieces of the text;
* `normalNames_intercalate`: a path that is written as names has just these;
* `isName_of_mem_normalNames`: the names in a path can name entries;
* `setExtension_push`: an extension goes to the last name.
-/

namespace EntityGraph.Path

/-- A piece that names an entry of a directory. -/
@[mk_iff]
structure IsName (piece : String) : Prop where
  nonempty : piece ≠ ""
  noSlash : '/' ∉ piece.toList
  notCurrent : piece ≠ "."
  notParent : piece ≠ ".."

instance (piece : String) : Decidable (IsName piece) :=
  decidable_of_iff _ (isName_iff piece).symm

/-- The path with several pieces appended, one after the other. -/
def pushAll (path : Path) (pieces : List String) : Path :=
  pieces.foldl push path

theorem pushAll_append (path : Path) (first second : List String) :
    path.pushAll (first ++ second) = (path.pushAll first).pushAll second :=
  List.foldl_append

/-! ## Pieces -/

theorem split_append (first second : String) :
    split (first ++ "/" ++ second) = split first ++ split second := by
  have h : (first ++ "/" ++ second).toList = first.toList ++ '/' :: second.toList := by simp
  rw [split, h, Text.pieces_append (by rfl), List.map_append]
  rfl

theorem split_of_noSlash {piece : String} (h : '/' ∉ piece.toList) : split piece = [piece] := by
  rw [split, Text.pieces_of_forall_not]
  · simp
  · exact fun c hc => beq_eq_false_iff_ne.mpr fun e => h (e ▸ hc)

theorem split_intercalate {pieces : List String} (hne : pieces ≠ []) :
    split ("/".intercalate pieces) = pieces.flatMap split := by
  rw [split, String.toList_intercalate, show "/".toList = ['/'] from rfl,
    Text.pieces_intercalate (by rfl) (by simpa using hne), List.map_flatMap, List.flatMap_map]
  rfl

theorem intercalate_split (text : String) : "/".intercalate (split text) = text := by
  rw [← String.toList_inj, String.toList_intercalate, split, List.map_map]
  simpa [Function.comp_def] using Text.intercalate_pieces '/' text.toList

theorem split_intercalate_names {names : List String} (hne : names ≠ [])
    (h : ∀ name ∈ names, IsName name) : split ("/".intercalate names) = names := by
  have hsplit : ∀ name ∈ names, split name = [name] := fun name hn =>
    split_of_noSlash (h name hn).noSlash
  rw [split_intercalate hne, List.flatMap_congr hsplit, List.flatMap_singleton']

theorem IsName.not_silent {name : String} (h : IsName name) : isSilent name = false := by
  simp [isSilent, h.nonempty, h.notCurrent]

theorem IsName.ofPiece {name : String} (h : IsName name) : Component.ofPiece name = .normal name := by
  rw [Component.ofPiece, if_neg h.notParent]

theorem trimPieces_append_name {name : String} (h : IsName name) (pieces : List String) :
    trimPieces (pieces ++ [name]) = pieces ++ [name] := by
  simp [trimPieces, h.not_silent]

theorem trimPieces_names {names : List String} (h : ∀ name ∈ names, IsName name) :
    trimPieces names = names := by
  rcases List.eq_nil_or_concat' names with rfl | ⟨rest, last, rfl⟩
  · rfl
  · exact trimPieces_append_name (h last (by simp)) rest

theorem filter_not_silent_names {names : List String} (h : ∀ name ∈ names, IsName name) :
    names.filter (!isSilent ·) = names :=
  List.filter_eq_self.mpr fun name hn => by rw [(h name hn).not_silent]; rfl

theorem dropComponents_zero (pieces : List String) :
    dropComponents 0 pieces = pieces.dropWhile isSilent := by
  induction pieces with
  | nil => rfl
  | cons piece rest ih =>
    rw [dropComponents, List.dropWhile_cons]
    cases isSilent piece with
    | true => exact ih
    | false => rfl

/-- The components that the first pieces make up are dropped, and the silent pieces after them. -/
theorem dropComponents_append (first rest : List String) :
    dropComponents (first.filter (!isSilent ·)).length (first ++ rest) = rest.dropWhile isSilent := by
  induction first with
  | nil => exact dropComponents_zero rest
  | cons piece first ih =>
    cases hp : isSilent piece with
    | true =>
      rw [List.filter_cons_of_neg (by simp [hp]), List.cons_append, dropComponents.eq_def]
      simpa [hp] using ih
    | false =>
      rw [List.filter_cons_of_pos (by simp [hp]), List.cons_append, dropComponents.eq_def]
      simpa [hp] using ih

theorem dropWhile_silent_names {names : List String} (h : ∀ name ∈ names, IsName name) :
    names.dropWhile isSilent = names := by
  cases names with
  | nil => rfl
  | cons name rest => rw [List.dropWhile_cons, (h name (by simp)).not_silent, if_neg Bool.false_ne_true]

theorem filter_dropWhile_silent (pieces : List String) :
    (pieces.dropWhile isSilent).filter (!isSilent ·) = pieces.filter (!isSilent ·) := by
  induction pieces with
  | nil => rfl
  | cons piece rest ih => cases h : isSilent piece <;> simp [h, ih]

theorem dropWhile_silent_append_names {names : List String} (h : ∀ name ∈ names, IsName name)
    (pieces : List String) :
    (pieces ++ names).dropWhile isSilent = pieces.dropWhile isSilent ++ names := by
  rw [List.dropWhile_append]
  split
  · rename_i hnil
    rw [List.isEmpty_iff.mp hnil, dropWhile_silent_names h, List.nil_append]
  · rfl

theorem trimPieces_append_names {names : List String} (hne : names ≠ [])
    (h : ∀ name ∈ names, IsName name) (pieces : List String) :
    trimPieces (pieces ++ names) = pieces ++ names := by
  obtain ⟨front, last, rfl⟩ := (List.eq_nil_or_concat' names).resolve_left hne
  rw [← List.append_assoc, trimPieces_append_name (h last (by simp))]

/-! ## Opened paths -/

/-- The pieces of a path that stay when a name is pushed onto it: all but an empty one at the end. -/
def openEnd (pieces : List String) : List String :=
  if pieces.getLast? = some "" then pieces.dropLast else pieces

theorem openEnd_append_name {name : String} (h : IsName name) (pieces : List String) :
    openEnd (pieces ++ [name]) = pieces ++ [name] := by
  simp [openEnd, h.nonempty]

theorem openEnd_append {rest : List String} (hne : rest ≠ []) (first : List String) :
    openEnd (first ++ rest) = first ++ openEnd rest := by
  rw [openEnd, openEnd, List.getLast?_append_of_ne_nil _ hne]
  split
  · exact List.dropLast_append_of_ne_nil hne
  · rfl

theorem filter_openEnd (pieces : List String) :
    (openEnd pieces).filter (!isSilent ·) = pieces.filter (!isSilent ·) := by
  rw [openEnd]
  split
  · rename_i h
    obtain ⟨rest, rfl⟩ := List.getLast?_eq_some_iff.mp h
    simp [isSilent]
  · rfl

theorem split_ne_nil (text : String) : split text ≠ [] := by
  simpa [split] using Text.pieces_ne_nil _ _

theorem ofPieces_opened (path : Path) : ofPieces path.opened.1 path.opened.2 = path := by
  have h := intercalate_split path.text
  rw [opened]
  split
  · rename_i hs
    exact absurd hs (split_ne_nil _)
  · rename_i piece hs
    rw [hs] at h
    split
    · rename_i hp
      subst hp
      exact congrArg Path.mk h
    · exact congrArg Path.mk h
  · rename_i piece rest hne hs
    rw [hs, String.intercalate_cons_of_ne_nil hne] at h
    split
    · rename_i hp
      subst hp
      rw [String.empty_append] at h
      exact congrArg Path.mk h
    split
    · rename_i hp
      subst hp
      cases rest with
      | nil => exact absurd rfl hne
      | cons next more => exact congrArg Path.mk h
    · rw [← String.intercalate_cons_of_ne_nil hne] at h
      exact congrArg Path.mk h

/-- How a path opens that is cut into these pieces. -/
def openedPieces : List String → Start × List String
  | [] => (.plain, [])
  | [piece] => if piece = "." then (.current, []) else (.plain, [piece])
  | piece :: rest =>
    if piece = "" then (.root, rest) else if piece = "." then (.current, rest)
    else (.plain, piece :: rest)

theorem opened_eq (path : Path) : path.opened = openedPieces (split path.text) := rfl

/-- How a path opens is decided by its first piece, unless that is the only one. -/
theorem openedPieces_append {pieces : List String} (hne : pieces ≠ []) :
    ∃ start inner, ∀ tail ≠ [], openedPieces (pieces ++ tail) = (start, inner ++ tail) := by
  cases pieces with
  | nil => exact absurd rfl hne
  | cons piece rest =>
    have hcons : ∀ tail ≠ [], openedPieces (piece :: rest ++ tail) =
        if piece = "" then (.root, rest ++ tail) else if piece = "." then (.current, rest ++ tail)
        else (.plain, piece :: (rest ++ tail)) := fun tail ht => by
      cases rest with
      | nil =>
        obtain ⟨next, more, rfl⟩ := List.exists_cons_of_ne_nil ht
        rfl
      | cons => rfl
    by_cases h₁ : piece = ""
    · exact ⟨.root, rest, fun tail ht => by rw [hcons tail ht, if_pos h₁]⟩
    by_cases h₂ : piece = "."
    · exact ⟨.current, rest, fun tail ht => by rw [hcons tail ht, if_neg h₁, if_pos h₂]⟩
    · exact ⟨.plain, piece :: rest, fun tail ht => by rw [hcons tail ht, if_neg h₁, if_neg h₂]; rfl⟩

/-- A text that neither is empty nor ends in a slash does not end in an empty piece. -/
theorem split_getLast?_ne {text : String} (hne : text ≠ "") (hend : text.toList.getLast? ≠ some '/') :
    (split text).getLast? ≠ some "" := by
  intro h
  obtain ⟨front, hfront⟩ := List.getLast?_eq_some_iff.mp h
  have htext := intercalate_split text
  rw [hfront] at htext
  by_cases hnil : front = []
  · subst hnil
    exact hne htext.symm
  · rw [String.intercalate_append_of_ne_nil hnil (by simp), String.intercalate_singleton,
      String.append_empty] at htext
    exact hend (by rw [← htext]; simp)

theorem IsName.not_absolute {name : String} (h : IsName name) : (Path.mk name).isAbsolute = false :=
  beq_eq_false_iff_ne.mpr fun e => h.noSlash (List.mem_of_mem_head? e)

theorem split_push {path : Path} {piece : String} (hne : path.text ≠ "")
    (habs : (Path.mk piece).isAbsolute = false) :
    split (path.push piece).text = openEnd (split path.text) ++ split piece := by
  rw [push, habs, if_neg Bool.false_ne_true]
  split
  · rename_i hend
    obtain ⟨front, hfront⟩ := List.getLast?_eq_some_iff.mp (hend.resolve_left hne)
    have htext : path.text = String.ofList front ++ "/" := by
      rw [← String.toList_inj, hfront]; simp
    have hsplit : split path.text = split (String.ofList front) ++ [""] := by
      rw [htext, ← String.append_empty (s := _ ++ "/"), split_append]
      rfl
    rw [hsplit, htext, split_append]
    simp [openEnd]
  · rename_i hend
    rw [not_or] at hend
    rw [split_append, openEnd, if_neg (split_getLast?_ne hend.1 hend.2)]

/-- The pieces of a path stay when a text is pushed onto it. -/
theorem opened_push_text {path : Path} {piece : String} (hne : path.text ≠ "")
    (habs : (Path.mk piece).isAbsolute = false) :
    (path.push piece).opened = (path.opened.1, openEnd path.opened.2 ++ split piece) := by
  have hpiece := split_ne_nil piece
  obtain ⟨front, last, hs⟩ := (List.eq_nil_or_concat' _).resolve_left (split_ne_nil path.text)
  rw [opened_eq, opened_eq, split_push hne habs, hs]
  by_cases hlast : last = ""
  · subst hlast
    have hfront : front ≠ [] := by
      rintro rfl
      exact hne (by rw [← intercalate_split path.text, hs]; rfl)
    obtain ⟨start, inner, hopen⟩ := openedPieces_append hfront
    rw [hopen _ (by simp), openEnd, if_pos (by simp), List.dropLast_concat, hopen _ hpiece]
    simp [openEnd]
  · rw [openEnd, if_neg (by simpa using hlast), List.append_assoc]
    by_cases hnil : front = []
    · subst hnil
      obtain ⟨next, more, hnext⟩ := List.exists_cons_of_ne_nil hpiece
      by_cases hl : last = "." <;> simp [openedPieces, openEnd, hlast, hl, hnext]
    · obtain ⟨start, inner, hopen⟩ := openedPieces_append hnil
      rw [hopen _ (by simp), hopen _ (by simp)]
      simp [openEnd, hlast]

theorem opened_push (path : Path) {name : String} (h : IsName name) :
    (path.push name).opened = (path.opened.1, openEnd path.opened.2 ++ [name]) := by
  have hsplit : split name = [name] := split_of_noSlash h.noSlash
  by_cases hne : path.text = ""
  · rw [push, h.not_absolute, if_neg Bool.false_ne_true, if_pos (.inl hne), hne, String.empty_append,
      opened_eq, opened_eq, hsplit, hne]
    simp [openedPieces, h.notCurrent, openEnd, split, Text.pieces]
  · rw [opened_push_text hne h.not_absolute, hsplit]

theorem opened_pushAll (path : Path) {name : String} {rest : List String}
    (h : ∀ piece ∈ name :: rest, IsName piece) :
    (path.pushAll (name :: rest)).opened =
      (path.opened.1, openEnd path.opened.2 ++ name :: rest) := by
  induction rest generalizing path name with
  | nil => exact opened_push path (h name (by simp))
  | cons next rest ih =>
    rw [pushAll, List.foldl_cons, ← pushAll, ih _ fun piece hp => h piece (List.mem_cons_of_mem _ hp),
      opened_push path (h name (by simp)), openEnd_append_name (h name (by simp)), List.append_assoc,
      List.singleton_append]

/-! ## Components -/

theorem components_eq (path : Path) : path.components =
    path.opened.1.components ++ (path.opened.2.filter (!isSilent ·)).map Component.ofPiece := rfl

theorem map_normal_injective : (List.map Component.normal).Injective :=
  List.map_injective_iff.mpr fun _ _ => Component.normal.inj

theorem components_push_text {path : Path} {piece : String} (hne : path.text ≠ "")
    (habs : (Path.mk piece).isAbsolute = false) :
    (path.push piece).components =
      path.components ++ ((split piece).filter (!isSilent ·)).map Component.ofPiece := by
  rw [components_eq, components_eq, opened_push_text hne habs, List.filter_append, filter_openEnd,
    List.map_append, List.append_assoc]

theorem components_push (path : Path) {name : String} (h : IsName name) :
    (path.push name).components = path.components ++ [.normal name] := by
  have hname : [name].filter (!isSilent ·) = [name] :=
    filter_not_silent_names (List.forall_mem_singleton.mpr h)
  rw [components_eq, components_eq, opened_push path h, List.filter_append, filter_openEnd, hname,
    List.map_append, List.map_singleton, h.ofPiece, List.append_assoc]

theorem components_pushAll (path : Path) {names : List String} (h : ∀ name ∈ names, IsName name) :
    (path.pushAll names).components = path.components ++ names.map .normal := by
  induction names generalizing path with
  | nil => rw [pushAll, List.foldl_nil, List.map_nil, List.append_nil]
  | cons name rest ih =>
    rw [pushAll, List.foldl_cons, ← pushAll, ih _ fun piece hp => h piece (List.mem_cons_of_mem _ hp),
      components_push path (h name (by simp)), List.append_assoc]
    rfl

theorem normalNames_intercalate {names : List String} (h : ∀ name ∈ names, IsName name) :
    normalNames ⟨"/".intercalate names⟩ = names := by
  cases names with
  | nil => rfl
  | cons name rest =>
    have hname := h name (by simp)
    have hopen : openedPieces (name :: rest) = (.plain, name :: rest) := by
      cases rest <;> simp [openedPieces, hname.nonempty, hname.notCurrent]
    have hmap : (name :: rest).map Component.ofPiece = (name :: rest).map .normal :=
      List.map_congr_left fun piece hp => (h piece hp).ofPiece
    rw [normalNames, components_eq, opened_eq, split_intercalate_names (by simp) h, hopen,
      filter_not_silent_names h, hmap]
    simp [Start.components, List.filterMap_map]

theorem mem_normalNames {path : Path} {name : String} :
    name ∈ path.normalNames ↔ .normal name ∈ path.components := by
  rw [normalNames, List.mem_filterMap]
  constructor
  · rintro ⟨component, hm, hname⟩
    cases component with
    | normal => exact Option.some.inj hname ▸ hm
    | _ => cases hname
  · exact fun hm => ⟨_, hm, rfl⟩

theorem normal_not_mem_components (start : Start) (name : String) : .normal name ∉ start.components := by
  cases start <;> simp [Start.components]

theorem eq_of_ofPiece_eq_normal {piece name : String} (h : Component.ofPiece piece = .normal name) :
    piece = name := by
  rw [Component.ofPiece] at h
  split at h
  · cases h
  · exact Component.normal.inj h

/-- The beginning of a path takes no names from its pieces. -/
theorem filter_opened (path : Path) :
    path.opened.2.filter (!isSilent ·) = (split path.text).filter (!isSilent ·) := by
  rw [opened_eq]
  cases split path.text with
  | nil => rfl
  | cons piece rest =>
    cases rest with
    | nil => by_cases h : piece = "." <;> simp [openedPieces, h, isSilent]
    | cons next more =>
      by_cases h₁ : piece = ""
      · simp [openedPieces, h₁, isSilent]
      · by_cases h₂ : piece = "." <;> simp [openedPieces, h₁, h₂, isSilent]

/-- The pieces of a text are names, unless they are silent or lead up. -/
theorem isName_of_mem_split {text piece : String} (h : piece ∈ split text)
    (hsilent : isSilent piece = false) (hup : piece ≠ "..") : IsName piece where
  nonempty := by
    rintro rfl
    cases hsilent
  noSlash := by
    obtain ⟨letters, hletters, rfl⟩ := List.mem_map.mp h
    rw [String.toList_ofList]
    intro hslash
    exact absurd (Text.not_separates_of_mem_pieces hletters _ hslash) (by decide)
  notCurrent := by
    rintro rfl
    cases hsilent
  notParent := hup

theorem isName_of_mem_normalNames {path : Path} {name : String} (h : name ∈ path.normalNames) :
    IsName name := by
  rw [mem_normalNames, components_eq, List.mem_append] at h
  obtain ⟨piece, hm, hpiece⟩ := List.mem_map.mp (h.resolve_left (normal_not_mem_components _ _))
  obtain rfl := eq_of_ofPiece_eq_normal hpiece
  rw [filter_opened] at hm
  obtain ⟨hsplit, hsilent⟩ := List.mem_filter.mp hm
  refine isName_of_mem_split hsplit (by simpa using hsilent) ?_
  rintro rfl
  cases hpiece

theorem ne_empty_of_mem_normalNames {path : Path} {name : String} (h : name ∈ path.normalNames) :
    name ≠ "" :=
  (isName_of_mem_normalNames h).nonempty

/-! ## Paths below a directory -/

/-- Only the empty path has no components at all. -/
theorem openEnd_of_components_nil {path : Path} (h : path.components = []) :
    openEnd path.opened.2 = [] := by
  rw [components_eq, opened_eq, List.append_eq_nil_iff, List.map_eq_nil_iff] at h
  rw [opened_eq]
  match hs : split path.text, h with
  | [], _ => rfl
  | [piece], h =>
    by_cases hp : piece = "."
    · simp [openedPieces, hp, Start.components] at h
    · have : piece = "" := by simpa [openedPieces, hp, isSilent] using h.2
      simp [openedPieces, openEnd, this]
  | piece :: next :: rest, h =>
    by_cases h₁ : piece = ""
    · simp [openedPieces, h₁, Start.components] at h
    by_cases h₂ : piece = "."
    · simp [openedPieces, h₂, Start.components] at h
    · simp [openedPieces, h₁, h₂, isSilent] at h

theorem start_of_components_nil {path : Path} (h : path.components = []) :
    path.opened.1 = .plain := by
  rw [components_eq, List.append_eq_nil_iff] at h
  cases hs : path.opened.1 with
  | plain => rfl
  | root | current =>
    rw [hs] at h
    exact absurd h.1 (List.cons_ne_nil _ _)

theorem eq_empty_of_components_nil {path : Path} (h : path.components = []) : path.text = "" := by
  have hopen := ofPieces_opened path
  have hend := openEnd_of_components_nil h
  rw [start_of_components_nil h] at hopen
  rw [openEnd] at hend
  split at hend
  · rename_i hlast
    obtain ⟨front, hfront⟩ := List.getLast?_eq_some_iff.mp hlast
    rw [hfront, List.dropLast_concat] at hend
    rw [← hopen, hfront, hend]
    rfl
  · rw [← hopen, hend]
    rfl

/-- The components after the beginning of a path come from its pieces. -/
theorem length_components_sub (path : Path) :
    path.components.length - path.opened.1.components.length =
      ((openEnd path.opened.2).filter (!isSilent ·)).length := by
  rw [components_eq, List.length_append, List.length_map, filter_openEnd]
  omega

/-- What is left of names below a text that was pushed onto a path, without that path: the names and, before
them, the pieces of the text as they are written, but for silent ones in front. -/
theorem stripPrefix?_push_pushAll {path : Path} {piece : String} (hne : path.text ≠ "")
    (habs : (Path.mk piece).isAbsolute = false) {names : List String} (hnames : names ≠ [])
    (h : ∀ name ∈ names, IsName name) :
    ((path.push piece).pushAll names).stripPrefix? path =
      some ⟨"/".intercalate ((openEnd (split piece)).dropWhile isSilent ++ names)⟩ := by
  have hopen : ((path.push piece).pushAll names).opened =
      (path.opened.1, openEnd path.opened.2 ++ (openEnd (split piece) ++ names)) := by
    obtain ⟨name, rest, rfl⟩ := List.exists_cons_of_ne_nil hnames
    rw [opened_pushAll _ h, opened_push_text hne habs, openEnd_append (split_ne_nil piece),
      List.append_assoc]
  have hprefix : path.components.isPrefixOf ((path.push piece).pushAll names).components = true := by
    rw [components_pushAll _ h, components_push_text hne habs, List.isPrefixOf_iff_prefix,
      List.append_assoc]
    exact List.prefix_append _ _
  rw [stripPrefix?, if_pos hprefix, hopen]
  dsimp only
  split
  · rename_i hlen
    exact absurd (eq_empty_of_components_nil (List.length_eq_zero_iff.mp hlen)) hne
  · rw [length_components_sub, dropComponents_append, dropWhile_silent_append_names h,
      trimPieces_append_names hnames h]

theorem stripPrefix?_pushAll (path : Path) {names : List String} (hne : names ≠ [])
    (h : ∀ name ∈ names, IsName name) :
    (path.pushAll names).stripPrefix? path = some ⟨"/".intercalate names⟩ := by
  obtain ⟨name, rest, rfl⟩ := List.exists_cons_of_ne_nil hne
  have hopen := opened_pushAll path h
  have htrim : trimPieces (openEnd path.opened.2 ++ name :: rest) =
      openEnd path.opened.2 ++ name :: rest := trimPieces_append_names hne h _
  have hprefix : path.components.isPrefixOf (path.pushAll (name :: rest)).components = true := by
    rw [components_pushAll path h, List.isPrefixOf_iff_prefix]
    exact List.prefix_append _ _
  rw [stripPrefix?, if_pos hprefix, hopen]
  dsimp only
  split
  · rename_i hlen
    have hnil := List.length_eq_zero_iff.mp hlen
    rw [htrim, start_of_components_nil hnil, openEnd_of_components_nil hnil]
    rfl
  · rw [length_components_sub, dropComponents_append, dropWhile_silent_names h, trimPieces_names h]

theorem fileName?_push (path : Path) {name : String} (h : IsName name) :
    (path.push name).fileName? = some name := by
  rw [fileName?, opened_push path h, trimPieces_append_name h, List.getLast?_concat]
  exact if_neg h.notParent

theorem cutName_of_noDot {name : String} (h : '.' ∉ name.toList) : cutName name = (name, none) := by
  rw [cutName, Text.pieces_of_forall_not]
  · rfl
  · exact fun c hc => beq_eq_false_iff_ne.mpr fun e => h (e ▸ hc)

/-- An extension goes to the last name. -/
theorem setExtension_push (path : Path) {name extension : String} (h : IsName name)
    (hdot : '.' ∉ name.toList) (hext : extension ≠ "") (hfull : IsName (name ++ "." ++ extension)) :
    (path.push name).setExtension extension = path.push (name ++ "." ++ extension) := by
  rw [setExtension, fileName?_push path h]
  simp only [opened_push path h, cutName_of_noDot hdot, if_neg hext, trimPieces_append_name h,
    List.dropLast_concat]
  rw [← String.append_assoc, ← ofPieces_opened (path.push _), opened_push path hfull]

end EntityGraph.Path
