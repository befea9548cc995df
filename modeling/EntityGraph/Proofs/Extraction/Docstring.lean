import EntityGraph.Proofs.Extraction.Indentation

/-!
# Cleaned docstrings

* `lineFrom?` is the line of a cleaned text that stems from the line of the text with a given number;
* `keeps_iff`: cleaning keeps the text and the relative indentation exactly if the margin fits each line;
* `not_keeps_noBreakSpace`: a line whose blanks are of other widths than the margin is erased;
* `clean_shape`: the lines at both ends, the tabs and the blanks of a cleaned text.
-/

namespace EntityGraph.Docstring

open Text (trim trimStart)

/-! ## Lines of cleaned texts -/

/-- The lines of a text, with eight spaces for each tab. -/
def linesOf (text : String) : List (List Char) :=
  Text.lines (expandTabs text.toList)

theorem toList_clean (text : String) :
    (clean text).toList = ['\n'].intercalate (cleanLines (linesOf text)) := by
  rw [clean, String.toList_intercalate, List.map_map]
  simp [linesOf, Function.comp_def]

/-- The number of lines that are left out in front. -/
def skipped (text : String) : Nat :=
  emptyFront (unindented (linesOf text))

/-- The line of the cleaned text that stems from the line with this number, the first line having the
number 0. -/
def lineFrom? (text : String) (number : Nat) : Option (List Char) :=
  if number < skipped text then none else (Text.lines (clean text).toList)[number - skipped text]?

theorem newline_not_mem_linesOf {text : String} {line : List Char} (h : line ∈ linesOf text) :
    '\n' ∉ line :=
  Text.newline_not_mem_of_mem_lines h

theorem newline_not_mem_cleanLines {text : String} {line : List Char}
    (h : line ∈ cleanLines (linesOf text)) : '\n' ∉ line := by
  obtain ⟨source, hsource, hsublist, -⟩ := exists_source_of_mem h
  exact fun hnewline => newline_not_mem_linesOf hsource (hsublist.subset hnewline)

theorem getLast?_ne_return {line : List Char} (h : ∀ c ∈ line.getLast?, Text.isBlank c = false) :
    line.getLast? ≠ some '\r' := by
  intro hlast
  have hnot := h '\r' hlast
  revert hnot
  decide

theorem lines_clean_of_nil {text : String} (h : cleanLines (linesOf text) = []) :
    Text.lines (clean text).toList = [] := by
  rw [toList_clean, h]
  rfl

theorem lines_clean_of_cons {text : String} {first : List Char} {later : List (List Char)}
    (h : cleanLines (linesOf text) = first :: later) :
    Text.lines (clean text).toList = (if later = [] then first else Text.dropReturn first) :: later := by
  have hnewline : ∀ line ∈ first :: later, '\n' ∉ line := by
    intro line hline
    rw [← h] at hline
    exact newline_not_mem_cleanLines hline
  rw [toList_clean, h]
  refine Text.lines_intercalate (hnewline first List.mem_cons_self) (fun line hline => ⟨?_, ?_⟩) ?_
  · exact hnewline line (List.mem_cons_of_mem _ hline)
  · obtain ⟨i, hi⟩ := List.mem_iff_getElem?.mp hline
    have hkept : (stripLines (unindented (linesOf text)))[i + 1]? = some line := by
      rw [← cleanLines_eq, h, List.getElem?_cons_succ, hi]
    exact getLast?_ne_return (getLast?_of_unindented (by omega) (getElem?_of_stripLines hkept))
  · rw [← h, cleanLines_eq]
    exact fun hlast => getLast?_stripLines _ [] hlast rfl

/-- A carriage return can be lost at the end of the first line only. -/
theorem getElem?_lines_clean {text : String} {i : Nat} (h : 0 < skipped text + i) :
    (Text.lines (clean text).toList)[i]? = (cleanLines (linesOf text))[i]? := by
  cases hkept : cleanLines (linesOf text) with
  | nil => rw [lines_clean_of_nil hkept]
  | cons first later =>
    rw [lines_clean_of_cons hkept]
    cases i with
    | succ i => rfl
    | zero =>
      -- The first line that is kept is not the first of the text, and lost its blanks at the end.
      have hfirst : (unindented (linesOf text))[skipped text + 0]? = some first :=
        getElem?_of_stripLines (by rw [← cleanLines_eq, hkept]; rfl)
      have hreturn : Text.dropReturn first = first :=
        Text.dropReturn_of_ne (getLast?_ne_return (getLast?_of_unindented h hfirst))
      rw [hreturn, ite_self]

theorem trim_lines_clean (text : String) :
    (Text.lines (clean text).toList).map trim = (cleanLines (linesOf text)).map trim := by
  cases hkept : cleanLines (linesOf text) with
  | nil => rw [lines_clean_of_nil hkept]
  | cons first later =>
    rw [lines_clean_of_cons hkept, List.map_cons, List.map_cons]
    split
    · rfl
    · rw [Text.trim_dropReturn]

theorem lineFrom?_eq (text : String) {number : Nat} (hpos : 0 < number) :
    lineFrom? text number = if number < skipped text then none
      else (cleanLines (linesOf text))[number - skipped text]? := by
  rw [lineFrom?]
  split
  · rfl
  · exact getElem?_lines_clean (by omega)

/-- Every line after the first that is not left empty is in the cleaned text. -/
theorem lineFrom?_of_ne_nil {text : String} {number : Nat} (hpos : 0 < number) {line : List Char}
    (h : (unindented (linesOf text))[number]? = some line) (hne : line ≠ []) :
    lineFrom? text number = some line := by
  obtain ⟨hle, hkept⟩ := getElem?_stripLines h hne
  have hnot : ¬ number < skipped text := Nat.not_lt.mpr hle
  rw [lineFrom?_eq text hpos, if_neg hnot, cleanLines_eq]
  exact hkept

theorem unindented_of_lineFrom? {text : String} {number : Nat} (hpos : 0 < number) {line : List Char}
    (h : lineFrom? text number = some line) : (unindented (linesOf text))[number]? = some line := by
  rw [lineFrom?_eq text hpos] at h
  split at h
  · cases h
  · next hnot =>
    rw [cleanLines_eq] at h
    have hline := getElem?_of_stripLines h
    rwa [show emptyFront _ = skipped text from rfl, Nat.add_sub_of_le (Nat.not_lt.mp hnot)] at hline

/-! ## What cleaning keeps -/

/-- A line after the first that is not blank, and its number. -/
structure LaterLine (text : String) (number : Nat) (line : List Char) : Prop where
  later : 0 < number
  listed : (linesOf text)[number]? = some line
  notBlank : isBlankLine line = false

theorem LaterLine.mem_tail {text : String} {number : Nat} {line : List Char}
    (h : LaterLine text number line) : line ∈ (linesOf text).tail :=
  mem_tail_of_getElem? h.later h.listed

/-- Cleaning keeps what a text says, and the indentation of the lines after the first but for what the
least indented of them has. -/
structure Keeps (text : String) : Prop where
  contents_eq : contents (Text.lines (clean text).toList) = contents (linesOf text)
  indent_sub : ∀ {i j : Nat} {first second : List Char}, LaterLine text i first → LaterLine text j second →
    ∃ first' second', lineFrom? text i = some first' ∧ lineFrom? text j = some second' ∧
      (indent first' : Int) - indent second' = indent first - indent second
  indent_least : ∀ {i : Nat} {line : List Char}, LaterLine text i line →
    (∀ (j : Nat) (other : List Char), LaterLine text j other → indent line ≤ indent other) →
    ∃ line', lineFrom? text i = some line' ∧ indent line' = 0

/-- What is left of a line that the margin fits. -/
theorem LaterLine.exists_lineFrom? {text : String} {number : Nat} {line : List Char}
    (h : LaterLine text number line) (hfits : fits (margin (linesOf text).tail) line = true) :
    ∃ line', lineFrom? text number = some line' ∧ trim line' = trim line ∧
      indent line' + margin (linesOf text).tail = indent line := by
  have hle := margin_le h.mem_tail h.notBlank
  have htrim := trim_dedent hle hfits
  have hne : dedent (margin (linesOf text).tail) line ≠ [] := by
    intro hnil
    rw [hnil] at htrim
    exact isBlankLine_eq_false_iff.mp h.notBlank htrim.symm
  refine ⟨_, lineFrom?_of_ne_nil h.later ?_ hne, htrim, indent_dedent h.notBlank hle hfits⟩
  rw [getElem?_unindented h.later, h.listed, Option.map_some]

theorem contents_lines_clean (text : String) :
    contents (Text.lines (clean text).toList) =
      contents ((linesOf text).take 1 ++
        (linesOf text).tail.filter (fits (margin (linesOf text).tail))) := by
  rw [contents_eq, trim_lines_clean, ← contents_eq, cleanLines_eq, contents_stripLines,
    contents_unindented]

/-- The contents of a cleaned text are those of its first line and of the lines after it that the margin
fits: a later line in which the margin ends inside a character is erased. So what a text says and the
relative indentation of its lines are kept exactly if the margin, the least number of bytes of blanks in
front of a later line, ends between two characters in each of these that is not blank. -/
theorem keeps_iff (text : String) :
    contents (Text.lines (clean text).toList) =
        contents ((linesOf text).take 1 ++
          (linesOf text).tail.filter (fits (margin (linesOf text).tail))) ∧
      (Keeps text ↔ ∀ line ∈ (linesOf text).tail, isBlankLine line = false →
        fits (margin (linesOf text).tail) line = true) := by
  have hsplit : linesOf text = (linesOf text).take 1 ++ (linesOf text).tail := by
    rw [← List.drop_one, List.take_append_drop]
  have hcontents : contents (Text.lines (clean text).toList) = contents (linesOf text) ↔
      ∀ line ∈ (linesOf text).tail, isBlankLine line = false →
        fits (margin (linesOf text).tail) line = true := by
    rw [contents_lines_clean, ← contents_filter_eq_iff, contents_append]
    conv_lhs => rhs; rw [hsplit, contents_append]
    exact List.append_cancel_left_eq .. |>.to_iff
  refine ⟨contents_lines_clean text, fun h => hcontents.mp h.contents_eq, fun h => ?_⟩
  refine ⟨hcontents.mpr h, fun {i j first second} hfirst hsecond => ?_, fun {i line} hline hleast => ?_⟩
  · obtain ⟨first', hfrom, -, hindent⟩ :=
      hfirst.exists_lineFrom? (h first hfirst.mem_tail hfirst.notBlank)
    obtain ⟨second', hfrom', -, hindent'⟩ :=
      hsecond.exists_lineFrom? (h second hsecond.mem_tail hsecond.notBlank)
    exact ⟨first', second', hfrom, hfrom', by omega⟩
  · obtain ⟨line', hfrom, -, hindent⟩ := hline.exists_lineFrom? (h line hline.mem_tail hline.notBlank)
    obtain ⟨other, hother, hb, hmargin⟩ := (margin_spec ⟨line, hline.mem_tail, hline.notBlank⟩).1
    obtain ⟨j, hj⟩ := List.mem_iff_getElem?.mp hother
    rw [List.getElem?_tail] at hj
    have hle := hleast (j + 1) other ⟨Nat.succ_pos j, hj, hb⟩
    exact ⟨line', hfrom, by omega⟩

/-- Two later lines, one indented by a space and one by a no-break space of two bytes. -/
def sampleText : String := "x\n a\n\u00a0b"

/-- The margin of one byte ends inside the no-break space, and the line is erased. -/
theorem not_keeps_noBreakSpace : clean sampleText = "x\na" ∧ ¬ Keeps sampleText := by
  refine ⟨by decide, fun h => ?_⟩
  have hcontents := h.contents_eq
  revert hcontents
  decide

/-! ## Tabs -/

theorem isBlankLine_expandTabs (line : List Char) : isBlankLine (expandTabs line) = isBlankLine line := by
  have hchar : ∀ c, (if c = '\t' then List.replicate 8 ' ' else [c]).all Text.isBlank = Text.isBlank c := by
    intro c
    split
    · next htab =>
      rw [htab]
      decide
    · simp
  rw [isBlankLine, expandTabs, List.all_flatMap]
  exact congrArg line.all (funext hchar)

theorem tab_not_mem_expandTabs (text : List Char) : '\t' ∉ expandTabs text := by
  intro h
  obtain ⟨c, -, hc⟩ := List.mem_flatMap.mp h
  split at hc
  · simp at hc
  · next hne => exact hne (List.mem_singleton.mp hc).symm

theorem expandTabs_eq_nil_iff {line : List Char} : expandTabs line = [] ↔ line = [] := by
  cases line with
  | nil => simp [expandTabs]
  | cons c rest =>
    rw [expandTabs, List.flatMap_cons]
    split <;> simp

theorem dropReturn_expandTabs (line : List Char) :
    Text.dropReturn (expandTabs line) = expandTabs (Text.dropReturn line) := by
  rcases List.eq_nil_or_concat' line with rfl | ⟨front, c, rfl⟩
  · rfl
  · have happ : expandTabs (front ++ [c]) =
        expandTabs front ++ if c = '\t' then List.replicate 8 ' ' else [c] := by
      simp [expandTabs]
    rw [happ]
    by_cases htab : c = '\t'
    · have hspace : (expandTabs front ++ List.replicate 8 ' ').getLast? ≠ some '\r' := by simp
      have hkeep : (front ++ ['\t']).getLast? ≠ some '\r' := by simp
      rw [htab] at happ ⊢
      rw [Text.dropReturn_of_ne hkeep, happ, if_pos rfl, Text.dropReturn_of_ne hspace]
    · by_cases hreturn : c = '\r'
      · simp [Text.dropReturn, hreturn]
      · simp [Text.dropReturn, hreturn, htab, happ]

/-- The lines of a text with tabs expanded are its lines with tabs expanded. -/
theorem linesOf_eq (text : String) : linesOf text = (Text.lines text.toList).map expandTabs := by
  have hpieces : Text.pieces (· == '\n') (expandTabs text.toList) =
      (Text.pieces (· == '\n') text.toList).map expandTabs := by
    refine Text.pieces_flatMap (fun c hc => ?_) (fun c hc d hd => ?_) text.toList
    · rw [eq_of_beq hc]
      rfl
    · split at hd
      · rw [List.eq_of_mem_replicate hd]
        rfl
      · rwa [List.mem_singleton.mp hd]
  simp only [linesOf, Text.lines, hpieces]
  generalize Text.pieces (· == '\n') text.toList = all
  have hended : (all.map expandTabs).dropLast.map Text.dropReturn =
      (all.dropLast.map Text.dropReturn).map expandTabs := by
    rw [← List.map_dropLast, List.map_map, List.map_map]
    exact List.map_congr_left fun line _ => dropReturn_expandTabs line
  rw [List.map_append, hended, List.getLast?_map]
  congr 1
  cases all.getLast? with
  | none => rfl
  | some last =>
    by_cases hnil : last = []
    · simp [hnil, expandTabs]
    · have hexpanded : expandTabs last ≠ [] := fun h => hnil (expandTabs_eq_nil_iff.mp h)
      simp [hnil, hexpanded]

theorem forall_isBlankLine_linesOf {text : String} :
    (∀ line ∈ linesOf text, isBlankLine line = true) ↔
      ∀ line ∈ Text.lines text.toList, isBlankLine line = true := by
  rw [linesOf_eq, List.forall_mem_map]
  simp only [isBlankLine_expandTabs]

/-! ## The shape of a cleaned text -/

theorem clean_eq_empty_iff {text : String} : clean text = "" ↔ cleanLines (linesOf text) = [] := by
  constructor
  · intro hempty
    cases hkept : cleanLines (linesOf text) with
    | nil => rfl
    | cons first later =>
      have hlines := lines_clean_of_cons hkept
      rw [hempty] at hlines
      cases hlines
  · intro hnil
    rw [← String.toList_eq_nil_iff, toList_clean, hnil]
    rfl

/-- A line that is not left empty is found in the cleaned text as a line that is not blank. -/
theorem exists_notBlank_of_kept {text : String} {found : Option (List Char)} {kept : List Char}
    (h : found.map trim = some (trim kept)) (hkept : kept ∈ cleanLines (linesOf text)) (hne : kept ≠ []) :
    ∃ line ∈ found, isBlankLine line = false := by
  obtain ⟨line, hline, htrim⟩ := Option.map_eq_some_iff.mp h
  have hb := isBlankLine_eq_false_iff.mp (exists_notBlank_of_mem hkept hne).1
  exact ⟨line, hline, isBlankLine_eq_false_iff.mpr (htrim ▸ hb)⟩

/-- Each line of a cleaned text stems from one line of the text, in the same order. -/
theorem lineFrom?_skipped_add {text : String} {i : Nat} {line : List Char}
    (h : (Text.lines (clean text).toList)[i]? = some line) :
    lineFrom? text (skipped text + i) = some line ∧
      ∃ source, (linesOf text)[skipped text + i]? = some source ∧
        (isBlankLine line = false → trim line = trim source) := by
  constructor
  · rw [lineFrom?, if_neg (by omega), Nat.add_sub_cancel_left, h]
  · have hmap := congrArg (·[i]?) (trim_lines_clean text)
    simp only [List.getElem?_map, h, Option.map_some] at hmap
    obtain ⟨kept, hkept, htrim⟩ := Option.map_eq_some_iff.mp hmap.symm
    rw [cleanLines_eq] at hkept
    obtain ⟨source, hsource, -, hkeep⟩ := exists_source (getElem?_of_stripLines hkept)
    refine ⟨source, hsource, fun hb => ?_⟩
    have hne : kept ≠ [] := by
      rintro rfl
      exact isBlankLine_eq_false_iff.mp hb htrim.symm
    rw [← htrim, (hkeep hne).1]

/-- What a cleaned text with some line in it looks like. -/
structure Shaped (text : String) : Prop where
  first_notBlank : ∃ line ∈ (Text.lines (clean text).toList).head?, isBlankLine line = false
  last_notBlank : ∃ line ∈ (Text.lines (clean text).toList).getLast?, isBlankLine line = false
  noTab : '\t' ∉ (clean text).toList
  later_end : ∀ {number : Nat} {line : List Char}, 0 < number → lineFrom? text number = some line →
    ∀ c ∈ line.getLast?, Text.isBlank c = false
  later_start : (∃ line ∈ (Text.lines text.toList).tail, isBlankLine line = false) →
    ∃ number line, 0 < number ∧ lineFrom? text number = some line ∧
      ∃ c ∈ line.head?, Text.isBlank c = false

theorem shaped_of_ne_empty {text : String} (h : clean text ≠ "") : Shaped text where
  first_notBlank := by
    have hne : cleanLines (linesOf text) ≠ [] := fun hnil => h (clean_eq_empty_iff.mpr hnil)
    obtain ⟨first, later, hkept⟩ := List.exists_cons_of_ne_nil hne
    have hfirst : (cleanLines (linesOf text)).head? = some first := by rw [hkept, List.head?_cons]
    have hmap := congrArg List.head? (trim_lines_clean text)
    rw [List.head?_map, List.head?_map, hfirst] at hmap
    rw [cleanLines_eq] at hfirst
    exact exists_notBlank_of_kept hmap (hkept ▸ List.mem_cons_self) (head?_stripLines _ first hfirst)
  last_notBlank := by
    have hne : cleanLines (linesOf text) ≠ [] := fun hnil => h (clean_eq_empty_iff.mpr hnil)
    obtain ⟨last, hlast⟩ := Option.isSome_iff_exists.mp (List.getLast?_isSome.mpr hne)
    have hmap := congrArg List.getLast? (trim_lines_clean text)
    rw [List.getLast?_map, List.getLast?_map, hlast] at hmap
    have hmem := List.mem_of_getLast? hlast
    rw [cleanLines_eq] at hlast
    exact exists_notBlank_of_kept hmap hmem (getLast?_stripLines _ last hlast)
  noTab := by
    rw [toList_clean]
    intro htab
    rcases Text.eq_or_mem_of_mem_intercalate htab with heq | ⟨line, hline, htab⟩
    · cases heq
    · obtain ⟨source, hsource, hsublist, -⟩ := exists_source_of_mem hline
      rw [linesOf_eq] at hsource
      obtain ⟨original, -, rfl⟩ := List.mem_map.mp hsource
      exact tab_not_mem_expandTabs original (hsublist.subset htab)
  later_end := fun hpos hline => getLast?_of_unindented hpos (unindented_of_lineFrom? hpos hline)
  later_start := by
    rintro ⟨original, horiginal, hb⟩
    have hlater : ∃ line ∈ (linesOf text).tail, isBlankLine line = false := by
      rw [linesOf_eq, ← List.map_tail]
      exact ⟨_, List.mem_map_of_mem horiginal, by rw [isBlankLine_expandTabs, hb]⟩
    obtain ⟨number, line, hpos, -, hline, hkept⟩ := exists_least hlater
    have hne := isBlankLine_eq_false_iff.mp hline
    refine ⟨number, trim line, hpos, lineFrom?_of_ne_nil hpos hkept hne, ?_⟩
    exact ⟨_, List.head?_eq_some_head hne, Text.head?_trim line _ (List.head?_eq_some_head hne)⟩

/-- A cleaned text is empty exactly if every line of the text is blank. Otherwise its first and its last
line are not blank, no tab is left, and of the lines that stem from a later line than the first none ends
with a blank and, if some later line is not blank, one begins with none. Each line of the cleaned text
stems from one line of the text: the lines in front that are left empty are skipped, and the others follow
one by one. -/
theorem clean_shape (text : String) :
    (clean text = "" ↔ ∀ line ∈ Text.lines text.toList, isBlankLine line = true) ∧
      (clean text ≠ "" → Shaped text) ∧
      ∀ (i : Nat) (line : List Char), (Text.lines (clean text).toList)[i]? = some line →
        lineFrom? text (skipped text + i) = some line ∧
          ∃ source, (linesOf text)[skipped text + i]? = some source ∧
            (isBlankLine line = false → trim line = trim source) := by
  refine ⟨?_, shaped_of_ne_empty, fun i line => lineFrom?_skipped_add⟩
  rw [clean_eq_empty_iff, cleanLines_eq_nil_iff, forall_isBlankLine_linesOf]

end EntityGraph.Docstring
