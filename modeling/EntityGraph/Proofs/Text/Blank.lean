import EntityGraph.Proofs.Text.Pieces
import Mathlib.Data.List.DropRight

/-!
# Blanks at the ends of a text

A text is its leading blanks, what is left of it without the blanks at both ends, and the blanks after
that.

* `trimEnd_eq_leading_append`: a text without the blanks at its end, unless it has blanks only;
* `trim_trimStart`, `trim_trimEnd`, `trim_dropReturn`: cutting at one end does not change what is left;
* `dropBytes?_eq_some_iff`: leading bytes are removed exactly if they are those of a front of the text;
* `lines_intercalate`: the lines of a text that is joined from lines.
-/

namespace EntityGraph.Text

/-! ## Trimming -/

/-- The blanks that a text begins with. -/
def leading (text : List Char) : List Char :=
  text.takeWhile isBlank

theorem leading_append_trimStart (text : List Char) : leading text ++ trimStart text = text :=
  List.takeWhile_append_dropWhile

theorem isBlank_of_mem_leading {text : List Char} {c : Char} (h : c ∈ leading text) :
    isBlank c = true :=
  List.mem_takeWhile_imp h

theorem head?_trimStart (text : List Char) : ∀ c ∈ (trimStart text).head?, isBlank c = false := by
  intro c hc
  have hnot := List.head?_dropWhile_not isBlank text
  rw [show (text.dropWhile isBlank).head? = some c from hc] at hnot
  exact hnot

/-- No text that is trimmed at its end ends with a blank. -/
theorem getLast?_trimEnd (text : List Char) : ∀ c ∈ (trimEnd text).getLast?, isBlank c = false := by
  intro c hc
  rw [trimEnd, List.getLast?_reverse] at hc
  exact head?_trimStart text.reverse c hc

theorem trimStart_eq_nil_iff {text : List Char} : trimStart text = [] ↔ ∀ c ∈ text, isBlank c = true :=
  List.dropWhile_eq_nil_iff

theorem trimEnd_eq_nil_iff {text : List Char} : trimEnd text = [] ↔ ∀ c ∈ text, isBlank c = true :=
  List.rdropWhile_eq_nil_iff

theorem trimStart_append {front : List Char} (h : ∀ c ∈ front, isBlank c = true) (text : List Char) :
    trimStart (front ++ text) = trimStart text :=
  List.dropWhile_append_of_pos h

theorem leading_append {front : List Char} (h : ∀ c ∈ front, isBlank c = true) (text : List Char) :
    leading (front ++ text) = front ++ leading text :=
  List.takeWhile_append_of_pos h

theorem trimEnd_append (front : List Char) {text : List Char} (h : trimEnd text ≠ []) :
    trimEnd (front ++ text) = front ++ trimEnd text := by
  have hne : text.reverse.dropWhile isBlank ≠ [] := fun hnil => h (by rw [trimEnd, hnil, List.reverse_nil])
  rw [trimEnd, List.reverse_append, List.dropWhile_append, if_neg (by simpa using hne),
    List.reverse_append, List.reverse_reverse, trimEnd]

theorem trim_eq_nil_iff {text : List Char} : trim text = [] ↔ ∀ c ∈ text, isBlank c = true := by
  rw [trim, trimEnd_eq_nil_iff]
  constructor
  · intro h
    -- A character that is left at the start is no blank.
    rw [← trimStart_eq_nil_iff]
    cases hstart : trimStart text with
    | nil => rfl
    | cons c rest =>
      have hblank := h c (by simp [hstart])
      have hnot := head?_trimStart text c (by simp [hstart])
      simp [hblank] at hnot
  · intro h c hc
    rw [trimStart_eq_nil_iff.mpr h] at hc
    simp at hc

theorem trimStart_trimStart (text : List Char) : trimStart (trimStart text) = trimStart text :=
  List.dropWhile_idempotent isBlank text

theorem trim_trimStart (text : List Char) : trim (trimStart text) = trim text := by
  rw [trim, trimStart_trimStart, trim]

theorem trimEnd_eq_leading_append {text : List Char} (h : trim text ≠ []) :
    trimEnd text = leading text ++ trim text := by
  have happ := trimEnd_append (leading text) (show trimEnd (trimStart text) ≠ [] from h)
  rwa [leading_append_trimStart] at happ

/-- What is left of a text begins with no blank. -/
theorem head?_trim (text : List Char) : ∀ c ∈ (trim text).head?, isBlank c = false := by
  intro c hc
  have hfront : trim text <+: trimStart text := List.rdropWhile_prefix isBlank _
  refine head?_trimStart text c ?_
  obtain ⟨more, hmore⟩ := hfront
  rw [← hmore, List.head?_append, Option.mem_def.mp hc, Option.some_or]
  rfl

theorem trimStart_trim (text : List Char) : trimStart (trim text) = trim text := by
  cases htrim : trim text with
  | nil => rfl
  | cons c rest =>
    have hc := head?_trim text c (by simp [htrim])
    exact List.dropWhile_cons_of_neg (by simp [hc])

theorem trimStart_trimEnd (text : List Char) : trimStart (trimEnd text) = trim text := by
  by_cases h : trim text = []
  · have hblank := trim_eq_nil_iff.mp h
    rw [trimEnd_eq_nil_iff.mpr hblank, h]
    rfl
  · rw [trimEnd_eq_leading_append h, trimStart_append fun c hc => isBlank_of_mem_leading hc,
      trimStart_trim]

theorem trimEnd_trimEnd (text : List Char) : trimEnd (trimEnd text) = trimEnd text :=
  List.rdropWhile_idempotent isBlank text

theorem trim_trimEnd (text : List Char) : trim (trimEnd text) = trim text := by
  rw [trim, trimStart_trimEnd, trim, trimEnd_trimEnd]

theorem trim_append {front : List Char} (h : ∀ c ∈ front, isBlank c = true) (text : List Char) :
    trim (front ++ text) = trim text := by
  rw [trim, trimStart_append h, trim]

theorem leading_trimEnd {text : List Char} (h : trim text ≠ []) :
    leading (trimEnd text) = leading text := by
  rw [trimEnd_eq_leading_append h, leading_append fun c hc => isBlank_of_mem_leading hc]
  cases htrim : trim text with
  | nil => exact absurd htrim h
  | cons c rest =>
    have hc := head?_trim text c (by simp [htrim])
    simp [leading, hc]

/-! ## Bytes -/

@[simp] theorem byteLength_nil : byteLength [] = 0 := rfl

@[simp] theorem byteLength_cons (c : Char) (text : List Char) :
    byteLength (c :: text) = c.utf8Size + byteLength text := rfl

@[simp] theorem byteLength_append (first second : List Char) :
    byteLength (first ++ second) = byteLength first + byteLength second := by
  induction first with
  | nil => simp
  | cons c first ih => simp [ih, Nat.add_assoc]

theorem byteLength_eq_zero {text : List Char} : byteLength text = 0 ↔ text = [] := by
  cases text with
  | nil => simp
  | cons c rest =>
    have hc := c.utf8Size_pos
    simp
    omega

theorem dropBytes?_eq_some_iff {count : Nat} {text rest : List Char} :
    dropBytes? count text = some rest ↔ ∃ front, text = front ++ rest ∧ byteLength front = count := by
  induction text generalizing count with
  | nil =>
    cases count with
    | zero => simp [dropBytes?, eq_comm]
    | succ count => simp [dropBytes?]
  | cons c text ih =>
    have hc := c.utf8Size_pos
    cases count with
    | zero =>
      simp only [dropBytes?, Option.some.injEq, byteLength_eq_zero]
      exact ⟨fun h => ⟨[], by simp [h], rfl⟩, fun ⟨_, h, hnil⟩ => by simpa [hnil] using h⟩
    | succ count =>
      rw [dropBytes?]
      constructor
      · intro h
        split at h
        · next hle =>
          obtain ⟨front, rfl, hlength⟩ := ih.mp h
          exact ⟨c :: front, rfl, by simp; omega⟩
        · cases h
      · rintro ⟨front, htext, hlength⟩
        cases front with
        | nil => simp at hlength
        | cons d front =>
          obtain ⟨rfl, rfl⟩ := List.cons_eq_cons.mp htext
          rw [byteLength_cons] at hlength
          rw [if_pos (by omega)]
          exact ih.mpr ⟨front, rfl, by omega⟩

/-- Of two fronts of a text, one that has no more bytes is a front of the other. -/
theorem prefix_of_byteLength_le {first second text : List Char} (hfirst : first <+: text)
    (hsecond : second <+: text) (h : byteLength first ≤ byteLength second) : first <+: second := by
  rcases List.prefix_or_prefix_of_prefix hfirst hsecond with hle | ⟨more, rfl⟩
  · exact hle
  · rw [byteLength_append] at h
    have hmore : more = [] := byteLength_eq_zero.mp (by omega)
    simp [hmore]

/-! ## Lines -/

theorem dropReturn_of_ne {line : List Char} (h : line.getLast? ≠ some '\r') : dropReturn line = line :=
  if_neg h

theorem dropReturn_sublist (line : List Char) : (dropReturn line).Sublist line := by
  rw [dropReturn]
  split
  · exact List.dropLast_sublist line
  · exact List.Sublist.refl line

theorem trim_dropReturn (line : List Char) : trim (dropReturn line) = trim line := by
  rw [dropReturn]
  split
  · next hlast =>
    -- A carriage return is a blank.
    have hline : line.dropLast ++ ['\r'] = line := List.dropLast_append_getLast? _ hlast
    have hend : trimEnd (line.dropLast ++ ['\r']) = trimEnd line.dropLast :=
      List.rdropWhile_concat_pos isBlank _ _ rfl
    rw [hline] at hend
    rw [← trimStart_trimEnd, ← hend, trimStart_trimEnd]
  · rfl

theorem newline_not_mem_of_mem_lines {text line : List Char} (h : line ∈ lines text) : '\n' ∉ line := by
  have hpieces : ∀ piece ∈ pieces (· == '\n') text, '\n' ∉ piece := by
    intro piece hpiece hnewline
    have hnot := not_separates_of_mem_pieces hpiece '\n' hnewline
    simp at hnot
  simp only [lines, List.mem_append, List.mem_map] at h
  rcases h with ⟨piece, hpiece, rfl⟩ | h
  · exact fun hnewline =>
      hpieces piece (List.dropLast_subset _ hpiece) ((dropReturn_sublist piece).subset hnewline)
  · cases hlast : (pieces (· == '\n') text).getLast? with
    | none => simp [hlast] at h
    | some last =>
      have hline : line = last := by
        simp only [hlast, Option.getD_some] at h
        split at h
        · cases h
        · exact List.mem_singleton.mp h
      exact hpieces line (hline ▸ List.mem_of_getLast? hlast)

/-- Lines that are joined are lines again, but for a carriage return at the end of the first. -/
theorem lines_intercalate {first : List Char} {later : List (List Char)} (hfirst : '\n' ∉ first)
    (hlater : ∀ line ∈ later, '\n' ∉ line ∧ line.getLast? ≠ some '\r')
    (hlast : (first :: later).getLast? ≠ some []) :
    lines (['\n'].intercalate (first :: later)) =
      (if later = [] then first else dropReturn first) :: later := by
  have hnot : ∀ line ∈ first :: later, '\n' ∉ line :=
    List.forall_mem_cons.mpr ⟨hfirst, fun line hline => (hlater line hline).1⟩
  have hpieces : pieces (· == '\n') (['\n'].intercalate (first :: later)) = first :: later := by
    have hsingle : ∀ line ∈ first :: later, pieces (· == '\n') line = [line] := by
      intro line hline
      refine pieces_of_forall_not fun c hc => ?_
      have hne : c ≠ '\n' := fun heq => hnot line hline (heq ▸ hc)
      simpa using hne
    rw [pieces_intercalate (by rfl) (List.cons_ne_nil _ _), List.flatMap_congr hsingle,
      List.flatMap_singleton']
  simp only [lines, hpieces]
  rcases List.eq_nil_or_concat' later with rfl | ⟨front, last, rfl⟩
  · have hne : first ≠ [] := by simpa using hlast
    simp [hne]
  · have hkeep : front.map dropReturn = front := by
      have hid : ∀ line ∈ front, dropReturn line = id line := fun line hline =>
        dropReturn_of_ne (hlater line (List.mem_append_left _ hline)).2
      rw [List.map_congr_left hid, List.map_id]
    rw [← List.cons_append, List.getLast?_concat] at hlast
    have hne : last ≠ [] := fun hnil => hlast (by rw [hnil])
    rw [← List.cons_append, List.dropLast_concat, List.getLast?_concat]
    simp [hne, hkeep]

end EntityGraph.Text
