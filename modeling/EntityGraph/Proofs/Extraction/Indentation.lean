import EntityGraph.Extraction.Docstring
import EntityGraph.Proofs.Text.Blank

/-!
# Indentation

Cleaning takes the margin off the lines after the first, as a number of bytes. A margin that ends inside a
blank of several bytes takes the whole line away; otherwise a line keeps what it says, and its indentation
but for the margin.

* `contents` is what the lines that are not blank say;
* `trim_dedent`, `indent_dedent`, `dedent_eq_nil_of_not_fits`: what becomes of one line;
* `exists_drop_eq`, `getElem?_stripLines`: only empty lines are dropped, and the others keep their order;
* `unindented` is what becomes of all lines before that, number by number (`exists_source`);
* `contents_unindented`: the lines that are left are the first and those that the margin fits.
-/

namespace EntityGraph.Docstring

open Text (trim trimStart trimEnd leading byteLength dropBytes?)

/-! ## Blank lines and contents -/

theorem isBlankLine_iff {line : List Char} : isBlankLine line = true ↔ trim line = [] := by
  rw [isBlankLine, List.all_eq_true, Text.trim_eq_nil_iff]

theorem isBlankLine_eq_false_iff {line : List Char} : isBlankLine line = false ↔ trim line ≠ [] := by
  rw [Ne, ← isBlankLine_iff, Bool.not_eq_true]

/-- What the lines that are not blank say, without the blanks at both ends. -/
def contents (lines : List (List Char)) : List (List Char) :=
  (lines.filter (!isBlankLine ·)).map trim

theorem contents_eq (lines : List (List Char)) :
    contents lines = (lines.map trim).filter (!·.isEmpty) := by
  have hblank : ∀ line, (!isBlankLine line) = !(trim line).isEmpty := by
    intro line
    rw [Bool.eq_iff_iff]
    simpa using isBlankLine_eq_false_iff
  rw [contents, List.filter_map]
  exact congrArg _ (List.filter_congr fun line _ => hblank line)

theorem contents_append (first second : List (List Char)) :
    contents (first ++ second) = contents first ++ contents second := by
  simp [contents]

theorem contents_eq_nil_of_forall {lines : List (List Char)} (h : ∀ line ∈ lines, trim line = []) :
    contents lines = [] := by
  rw [contents_eq, List.filter_eq_nil_iff]
  intro text htext
  obtain ⟨line, hline, rfl⟩ := List.mem_map.mp htext
  simp [h line hline]

theorem contents_eq_nil_iff {lines : List (List Char)} :
    contents lines = [] ↔ ∀ line ∈ lines, isBlankLine line = true := by
  simp [contents, List.filter_eq_nil_iff]

/-! ## The margin -/

theorem indent_eq (line : List Char) : indent line = byteLength (leading line) := by
  have hline := congrArg byteLength (Text.leading_append_trimStart line)
  rw [Text.byteLength_append] at hline
  rw [indent]
  omega

theorem margin_spec {lines : List (List Char)} (h : ∃ line ∈ lines, isBlankLine line = false) :
    (∃ line ∈ lines, isBlankLine line = false ∧ indent line = margin lines) ∧
      ∀ line ∈ lines, isBlankLine line = false → margin lines ≤ indent line := by
  have hmem : ∀ line, line ∈ lines.filter (!isBlankLine ·) ↔
      line ∈ lines ∧ isBlankLine line = false := by simp
  obtain ⟨found, hfound, hblank⟩ := h
  cases hmin : ((lines.filter (!isBlankLine ·)).map indent).min? with
  | none =>
    rw [List.min?_eq_none_iff, List.map_eq_nil_iff] at hmin
    exact absurd ((hmem found).mpr ⟨hfound, hblank⟩) (by simp [hmin])
  | some least =>
    have hmargin : margin lines = least := by rw [margin, hmin, Option.getD_some]
    obtain ⟨hleast, hle⟩ := List.min?_eq_some_iff.mp hmin
    rw [hmargin]
    constructor
    · obtain ⟨line, hline, hindent⟩ := List.mem_map.mp hleast
      have hboth := (hmem line).mp hline
      exact ⟨line, hboth.1, hboth.2, hindent⟩
    · intro line hline hb
      exact hle _ (List.mem_map_of_mem ((hmem line).mpr ⟨hline, hb⟩))

theorem margin_le {lines : List (List Char)} {line : List Char} (h : line ∈ lines)
    (hb : isBlankLine line = false) : margin lines ≤ indent line :=
  (margin_spec ⟨line, h, hb⟩).2 line h hb

/-! ## Taking the margin off a line -/

/-- Whether the margin ends between two characters of the line. -/
def fits (margin : Nat) (line : List Char) : Bool :=
  (dropBytes? margin line).isSome

theorem dropBytes?_indent (line : List Char) : dropBytes? (indent line) line = some (trimStart line) :=
  Text.dropBytes?_eq_some_iff.mpr
    ⟨leading line, (Text.leading_append_trimStart line).symm, (indent_eq line).symm⟩

/-- A line whose indentation is the margin keeps no blank in front. -/
theorem dedent_indent (line : List Char) : dedent (indent line) line = trim line := by
  rw [dedent, dropBytes?_indent, Option.getD_some, trim]

theorem dedent_eq_nil_of_not_fits {margin : Nat} {line : List Char} (h : fits margin line = false) :
    dedent margin line = [] := by
  have hnone : dropBytes? margin line = none := by simpa [fits] using h
  rw [dedent, hnone]
  rfl

theorem dedent_eq_nil_of_blank (margin : Nat) {line : List Char} (h : trim line = []) :
    dedent margin line = [] := by
  cases hdrop : dropBytes? margin line with
  | none => exact dedent_eq_nil_of_not_fits (by rw [fits, hdrop, Option.isSome_none])
  | some rest =>
    obtain ⟨front, rfl, -⟩ := Text.dropBytes?_eq_some_iff.mp hdrop
    have hblank := Text.trim_eq_nil_iff.mp h
    rw [dedent, hdrop, Option.getD_some, Text.trimEnd_eq_nil_iff]
    exact fun c hc => hblank c (List.mem_append_right _ hc)

/-- A margin that is no more than the indentation, and fits, takes off blanks only. -/
theorem exists_front_of_fits {margin : Nat} {line : List Char} (hle : margin ≤ indent line)
    (hfits : fits margin line = true) :
    ∃ front rest, line = front ++ rest ∧ byteLength front = margin ∧
      (∀ c ∈ front, Text.isBlank c = true) ∧ dedent margin line = trimEnd rest := by
  obtain ⟨rest, hdrop⟩ := Option.isSome_iff_exists.mp hfits
  obtain ⟨front, hline, hlength⟩ := Text.dropBytes?_eq_some_iff.mp hdrop
  refine ⟨front, rest, hline, hlength, fun c hc => ?_, by rw [dedent, hdrop, Option.getD_some]⟩
  have hfront : front <+: leading line := by
    refine Text.prefix_of_byteLength_le ⟨rest, hline.symm⟩
      ⟨trimStart line, Text.leading_append_trimStart line⟩ ?_
    rwa [hlength, ← indent_eq]
  exact Text.isBlank_of_mem_leading (hfront.subset hc)

theorem trim_dedent {margin : Nat} {line : List Char} (hle : margin ≤ indent line)
    (hfits : fits margin line = true) : trim (dedent margin line) = trim line := by
  obtain ⟨front, rest, rfl, -, hblank, hdedent⟩ := exists_front_of_fits hle hfits
  rw [hdedent, Text.trim_trimEnd, Text.trim_append hblank]

theorem indent_dedent {margin : Nat} {line : List Char} (hb : isBlankLine line = false)
    (hle : margin ≤ indent line) (hfits : fits margin line = true) :
    indent (dedent margin line) + margin = indent line := by
  obtain ⟨front, rest, rfl, hlength, hblank, hdedent⟩ := exists_front_of_fits hle hfits
  have hrest : trim rest ≠ [] := by
    rw [← Text.trim_append hblank]
    exact isBlankLine_eq_false_iff.mp hb
  rw [hdedent, indent_eq, indent_eq, Text.leading_trimEnd hrest, Text.leading_append hblank,
    Text.byteLength_append]
  omega

theorem dedent_sublist (margin : Nat) (line : List Char) : (dedent margin line).Sublist line := by
  cases hdrop : dropBytes? margin line with
  | none =>
    rw [dedent_eq_nil_of_not_fits (by rw [fits, hdrop, Option.isSome_none])]
    exact List.nil_sublist line
  | some rest =>
    obtain ⟨front, rfl, -⟩ := Text.dropBytes?_eq_some_iff.mp hdrop
    rw [dedent, hdrop, Option.getD_some]
    have hend : (trimEnd rest).Sublist rest := (List.rdropWhile_prefix Text.isBlank rest).sublist
    exact hend.trans (List.sublist_append_right front rest)

theorem getLast?_dedent (margin : Nat) (line : List Char) :
    ∀ c ∈ (dedent margin line).getLast?, Text.isBlank c = false :=
  Text.getLast?_trimEnd _

/-! ## Empty lines at both ends -/

theorem stripLines_eq (lines : List (List Char)) :
    stripLines lines = (lines.dropWhile List.isEmpty).rdropWhile List.isEmpty := rfl

/-- The number of empty lines in front of the others. -/
def emptyFront (lines : List (List Char)) : Nat :=
  lines.findIdx (!·.isEmpty)

/-- Nothing but empty lines is dropped, and all in front of the others. -/
theorem exists_drop_eq (lines : List (List Char)) :
    ∃ back, lines.drop (emptyFront lines) = stripLines lines ++ back ∧ ∀ line ∈ back, line = [] := by
  refine ⟨(lines.dropWhile List.isEmpty).rtakeWhile List.isEmpty, ?_, fun line hline => ?_⟩
  · rw [emptyFront, ← List.dropWhile_eq_drop_findIdx_not]
    exact List.rdropWhile_append_rtakeWhile.symm
  · exact List.isEmpty_iff.mp (List.mem_rtakeWhile_imp hline)

theorem eq_nil_of_lt_emptyFront {lines : List (List Char)} {number : Nat} {line : List Char}
    (h : lines[number]? = some line) (hlt : number < emptyFront lines) : line = [] := by
  obtain ⟨hlength, rfl⟩ := List.getElem?_eq_some_iff.mp h
  have hnot := List.not_of_lt_findIdx hlt
  simpa using hnot

theorem getElem?_of_stripLines {lines : List (List Char)} {i : Nat} {line : List Char}
    (h : (stripLines lines)[i]? = some line) : lines[emptyFront lines + i]? = some line := by
  obtain ⟨back, hdrop, -⟩ := exists_drop_eq lines
  have hi : i < (stripLines lines).length := (List.getElem?_eq_some_iff.mp h).1
  rw [← List.getElem?_drop, hdrop, List.getElem?_append_left hi, h]

theorem getElem?_stripLines {lines : List (List Char)} {number : Nat} {line : List Char}
    (h : lines[number]? = some line) (hne : line ≠ []) :
    emptyFront lines ≤ number ∧ (stripLines lines)[number - emptyFront lines]? = some line := by
  have hle : emptyFront lines ≤ number := by
    by_contra hlt
    exact hne (eq_nil_of_lt_emptyFront h (by omega))
  refine ⟨hle, ?_⟩
  obtain ⟨back, hdrop, hback⟩ := exists_drop_eq lines
  rw [show number = emptyFront lines + (number - emptyFront lines) by omega, ← List.getElem?_drop,
    hdrop, List.getElem?_append] at h
  split at h
  · exact h
  · exact absurd (hback line (List.mem_of_getElem? h)) hne

theorem contents_stripLines (lines : List (List Char)) : contents (stripLines lines) = contents lines := by
  obtain ⟨back, hdrop, hback⟩ := exists_drop_eq lines
  have hfront : ∀ line ∈ lines.take (emptyFront lines), trim line = [] := by
    intro line hline
    obtain ⟨number, hnumber⟩ := List.mem_iff_getElem?.mp hline
    rw [List.getElem?_take] at hnumber
    split at hnumber
    · next hlt =>
      rw [eq_nil_of_lt_emptyFront hnumber hlt]
      rfl
    · cases hnumber
  have hbackTrim : ∀ line ∈ back, trim line = [] := fun line hline => by
    rw [hback line hline]
    rfl
  conv_rhs => rw [← List.take_append_drop (emptyFront lines) lines, hdrop]
  rw [contents_append, contents_append, contents_eq_nil_of_forall hfront,
    contents_eq_nil_of_forall hbackTrim, List.nil_append, List.append_nil]

theorem head?_stripLines (lines : List (List Char)) : ∀ line ∈ (stripLines lines).head?, line ≠ [] := by
  intro line hline hnil
  obtain ⟨back, hdrop, -⟩ := exists_drop_eq lines
  have hnot := List.head?_dropWhile_not List.isEmpty lines
  rw [List.dropWhile_eq_drop_findIdx_not, show List.findIdx _ lines = emptyFront lines from rfl, hdrop,
    List.head?_append, Option.mem_def.mp hline, Option.some_or] at hnot
  simp [hnil] at hnot

theorem getLast?_stripLines (lines : List (List Char)) :
    ∀ line ∈ (stripLines lines).getLast?, line ≠ [] := by
  intro line hline hnil
  rw [stripLines_eq] at hline
  obtain ⟨hne, hlast⟩ := List.mem_getLast?_eq_getLast hline
  have hnot := List.rdropWhile_last_not List.isEmpty (lines.dropWhile List.isEmpty) hne
  rw [← hlast, hnil] at hnot
  exact hnot rfl

/-! ## Lines and what they become -/

/-- What becomes of each line, before empty lines at both ends are dropped. -/
def unindented : List (List Char) → List (List Char)
  | [] => []
  | first :: rest => trimStart first :: rest.map (dedent (margin rest))

theorem cleanLines_eq (lines : List (List Char)) : cleanLines lines = stripLines (unindented lines) := by
  cases lines <;> rfl

theorem getElem?_unindented_zero (lines : List (List Char)) :
    (unindented lines)[0]? = lines[0]?.map trimStart := by
  cases lines <;> rfl

theorem getElem?_unindented {number : Nat} (h : 0 < number) (lines : List (List Char)) :
    (unindented lines)[number]? = lines[number]?.map (dedent (margin lines.tail)) := by
  obtain ⟨number, rfl⟩ := Nat.exists_eq_add_of_lt h
  cases lines with
  | nil => simp [unindented]
  | cons first rest => simp [unindented]

theorem mem_tail_of_getElem? {lines : List (List Char)} {number : Nat} (hpos : 0 < number)
    {line : List Char} (h : lines[number]? = some line) : line ∈ lines.tail := by
  refine List.mem_of_getElem? (i := number - 1) ?_
  rwa [List.getElem?_tail, Nat.sub_add_cancel hpos]

/-- A line that is not left empty says what it said. -/
theorem trim_dedent_of_ne_nil {lines : List (List Char)} {line : List Char} (h : line ∈ lines)
    (hne : dedent (margin lines) line ≠ []) :
    trim (dedent (margin lines) line) = trim line ∧ trim line ≠ [] := by
  have hb : trim line ≠ [] := fun hblank => hne (dedent_eq_nil_of_blank _ hblank)
  have hfits : fits (margin lines) line = true := by
    by_contra hnot
    exact hne (dedent_eq_nil_of_not_fits (by simpa using hnot))
  exact ⟨trim_dedent (margin_le h (isBlankLine_eq_false_iff.mpr hb)) hfits, hb⟩

/-- Each line stems from the line with its number: nothing is put into it, and what it says stays,
unless it is left empty. -/
theorem exists_source {lines : List (List Char)} {number : Nat} {line : List Char}
    (h : (unindented lines)[number]? = some line) :
    ∃ source, lines[number]? = some source ∧ line.Sublist source ∧
      (line ≠ [] → trim line = trim source ∧ trim source ≠ []) := by
  rcases Nat.eq_zero_or_pos number with rfl | hpos
  · rw [getElem?_unindented_zero] at h
    obtain ⟨source, hsource, rfl⟩ := Option.map_eq_some_iff.mp h
    refine ⟨source, hsource, List.dropWhile_sublist _, fun hne => ⟨Text.trim_trimStart source, ?_⟩⟩
    exact fun hblank => hne (Text.trimStart_eq_nil_iff.mpr (Text.trim_eq_nil_iff.mp hblank))
  · rw [getElem?_unindented hpos] at h
    obtain ⟨source, hsource, rfl⟩ := Option.map_eq_some_iff.mp h
    exact ⟨source, hsource, dedent_sublist _ source,
      trim_dedent_of_ne_nil (mem_tail_of_getElem? hpos hsource)⟩

/-- If some line after the first is not blank, one of them keeps no blank at all. -/
theorem exists_least {lines : List (List Char)} (h : ∃ line ∈ lines.tail, isBlankLine line = false) :
    ∃ number line, 0 < number ∧ lines[number]? = some line ∧ isBlankLine line = false ∧
      (unindented lines)[number]? = some (trim line) := by
  obtain ⟨line, hline, hb, hindent⟩ := (margin_spec h).1
  obtain ⟨i, hi⟩ := List.mem_iff_getElem?.mp hline
  rw [List.getElem?_tail] at hi
  refine ⟨i + 1, line, Nat.succ_pos i, hi, hb, ?_⟩
  rw [getElem?_unindented (Nat.succ_pos i), hi, Option.map_some, ← hindent, dedent_indent]

/-- A line after the first ends with no blank once it is cleaned, and so with no carriage return. -/
theorem getLast?_of_unindented {lines : List (List Char)} {number : Nat} (hpos : 0 < number)
    {line : List Char} (h : (unindented lines)[number]? = some line) :
    ∀ c ∈ line.getLast?, Text.isBlank c = false := by
  rw [getElem?_unindented hpos] at h
  obtain ⟨source, -, rfl⟩ := Option.map_eq_some_iff.mp h
  exact getLast?_dedent _ source

/-- Each line of a cleaned text stems from one of the lines. -/
theorem exists_source_of_mem {lines : List (List Char)} {line : List Char} (h : line ∈ cleanLines lines) :
    ∃ source ∈ lines, line.Sublist source ∧ (line ≠ [] → trim line = trim source ∧ trim source ≠ []) := by
  obtain ⟨i, hi⟩ := List.mem_iff_getElem?.mp h
  rw [cleanLines_eq] at hi
  obtain ⟨source, hsource, hkeep⟩ := exists_source (getElem?_of_stripLines hi)
  exact ⟨source, List.mem_of_getElem? hsource, hkeep⟩

/-- A line of a cleaned text that is not empty is not blank, and stems from a line that is not. -/
theorem exists_notBlank_of_mem {lines : List (List Char)} {line : List Char} (h : line ∈ cleanLines lines)
    (hne : line ≠ []) :
    isBlankLine line = false ∧ ∃ source ∈ lines, isBlankLine source = false := by
  obtain ⟨source, hsource, -, hkeep⟩ := exists_source_of_mem h
  obtain ⟨htrim, hb⟩ := hkeep hne
  exact ⟨isBlankLine_eq_false_iff.mpr (htrim ▸ hb), source, hsource, isBlankLine_eq_false_iff.mpr hb⟩

/-! ## Contents of what is left -/

theorem contents_cons (line : List Char) (lines : List (List Char)) :
    contents (line :: lines) = contents [line] ++ contents lines :=
  contents_append [line] lines

theorem contents_singleton_congr {first second : List Char} (h : trim first = trim second) :
    contents [first] = contents [second] := by
  rw [contents_eq, contents_eq, List.map_singleton, List.map_singleton, h]

theorem contents_map_dedent {margin : Nat} {lines : List (List Char)}
    (h : ∀ line ∈ lines, isBlankLine line = false → margin ≤ indent line) :
    contents (lines.map (dedent margin)) = contents (lines.filter (fits margin)) := by
  induction lines with
  | nil => rfl
  | cons line rest ih =>
    obtain ⟨hline, hrest⟩ := List.forall_mem_cons.mp h
    rw [List.map_cons, contents_cons, ih hrest, List.filter_cons]
    have hempty : dedent margin line = [] → contents [dedent margin line] = [] := by
      intro hnil
      rw [hnil]
      rfl
    cases hfits : fits margin line with
    | false => simp [hempty (dedent_eq_nil_of_not_fits hfits)]
    | true =>
      rw [if_pos rfl, contents_cons line]
      congr 1
      cases hb : isBlankLine line with
      | true =>
        rw [hempty (dedent_eq_nil_of_blank _ (isBlankLine_iff.mp hb))]
        exact (contents_eq_nil_iff.mpr (by simpa using hb)).symm
      | false => exact contents_singleton_congr (trim_dedent (hline hb) hfits)

theorem contents_unindented (lines : List (List Char)) :
    contents (unindented lines) =
      contents (lines.take 1 ++ lines.tail.filter (fits (margin lines.tail))) := by
  cases lines with
  | nil => rfl
  | cons first rest =>
    rw [unindented, contents_cons, contents_map_dedent fun line hline => margin_le hline]
    exact (congrArg (· ++ _) (contents_singleton_congr (Text.trim_trimStart first))).trans
      (contents_append _ _).symm

/-- The contents of some of the lines are those of all exactly if the others are blank. -/
theorem contents_filter_eq_iff {p : List Char → Bool} {lines : List (List Char)} :
    contents (lines.filter p) = contents lines ↔
      ∀ line ∈ lines, isBlankLine line = false → p line = true := by
  constructor
  · intro h line hline hb
    have hlength := congrArg List.length h
    rw [contents, contents, List.length_map, List.length_map, List.filter_comm] at hlength
    have hall := List.length_filter_eq_length_iff.mp hlength
    exact hall line (List.mem_filter.mpr ⟨hline, by rw [hb]; rfl⟩)
  · intro h
    have hall : ∀ line ∈ lines.filter (!isBlankLine ·), p line = true := by
      intro line hline
      obtain ⟨hmem, hb⟩ := List.mem_filter.mp hline
      exact h line hmem (by simpa using hb)
    rw [contents, contents, List.filter_comm, List.filter_eq_self.mpr hall]

theorem cleanLines_eq_nil_iff {lines : List (List Char)} :
    cleanLines lines = [] ↔ ∀ line ∈ lines, isBlankLine line = true := by
  constructor
  · intro hnil
    -- The least indented of the later lines would be left, so these are blank.
    have htail : ∀ line ∈ lines.tail, isBlankLine line = true := by
      by_contra hnot
      push Not at hnot
      obtain ⟨line, hline, hb⟩ := hnot
      obtain ⟨number, least, -, -, hleast, hkept⟩ := exists_least ⟨line, hline, by simpa using hb⟩
      have hstrip := (getElem?_stripLines hkept (isBlankLine_eq_false_iff.mp hleast)).2
      rw [← cleanLines_eq, hnil] at hstrip
      simp at hstrip
    cases lines with
    | nil => simp
    | cons first rest =>
      have hcontents := contents_stripLines (unindented (first :: rest))
      rw [← cleanLines_eq, hnil, contents_unindented, contents_append] at hcontents
      have hfirst : contents [first] = [] := (List.append_eq_nil_iff.mp hcontents.symm).1
      exact List.forall_mem_cons.mpr ⟨contents_eq_nil_iff.mp hfirst first List.mem_cons_self, htail⟩
  · intro hblank
    cases hkept : cleanLines lines with
    | nil => rfl
    | cons first later =>
      have hhead : first ≠ [] := head?_stripLines (unindented lines) first (by
        rw [← cleanLines_eq, hkept]
        rfl)
      obtain ⟨-, source, hsource, hb⟩ :=
        exists_notBlank_of_mem (hkept ▸ List.mem_cons_self) hhead
      simp [hblank source hsource] at hb

end EntityGraph.Docstring
