import EntityGraph.Text.Blank

/-!
# Pieces of a text

The pieces between separators, put together and taken apart again.

* `not_separates_of_mem_pieces`: no separator stands in a piece;
* `pieces_append`: the pieces of two texts with a separator between them;
* `pieces_intercalate`: joining texts and cutting at the separators gives the pieces of each text;
* `intercalate_pieces`: joining the pieces gives back the text;
* `pieces_flatMap`: the pieces of a text in which other characters are replaced.
-/

namespace EntityGraph.Text

variable {separates : Char → Bool}

theorem pieces_ne_nil (separates : Char → Bool) (text : List Char) : pieces separates text ≠ [] := by
  cases text with
  | nil => simp [pieces]
  | cons c rest =>
    rw [pieces]
    split
    · simp
    · split <;> simp

theorem pieces_cons_of_separates {c : Char} (hc : separates c = true) (rest : List Char) :
    pieces separates (c :: rest) = [] :: pieces separates rest := by
  rw [pieces, if_pos hc]

/-- A character that does not separate stays with the first piece after it. -/
theorem pieces_cons_of_not {c : Char} (hc : separates c = false) {rest piece : List Char}
    {more : List (List Char)} (h : pieces separates rest = piece :: more) :
    pieces separates (c :: rest) = (c :: piece) :: more := by
  rw [pieces, hc, h]
  rfl

theorem not_separates_of_mem_pieces {text piece : List Char} (h : piece ∈ pieces separates text) :
    ∀ c ∈ piece, separates c = false := by
  induction text generalizing piece with
  | nil =>
    obtain rfl := List.mem_singleton.mp h
    exact fun _ hc => absurd hc List.not_mem_nil
  | cons d rest ih =>
    cases hd : separates d with
    | true =>
      rw [pieces_cons_of_separates hd] at h
      rcases List.mem_cons.mp h with rfl | h
      · exact fun _ hc => absurd hc List.not_mem_nil
      · exact ih h
    | false =>
      obtain ⟨first, more, hrest⟩ := List.exists_cons_of_ne_nil (pieces_ne_nil separates rest)
      rw [pieces_cons_of_not hd hrest] at h
      rw [hrest] at ih
      rcases List.mem_cons.mp h with rfl | h
      · exact List.forall_mem_cons.mpr ⟨hd, ih List.mem_cons_self⟩
      · exact ih (List.mem_cons_of_mem _ h)

theorem pieces_append {c : Char} (hc : separates c = true) (first second : List Char) :
    pieces separates (first ++ c :: second) = pieces separates first ++ pieces separates second := by
  induction first with
  | nil => exact pieces_cons_of_separates hc second
  | cons d first ih =>
    cases hd : separates d with
    | true =>
      rw [List.cons_append, pieces_cons_of_separates hd, pieces_cons_of_separates hd, ih,
        List.cons_append]
    | false =>
      obtain ⟨piece, more, h⟩ := List.exists_cons_of_ne_nil (pieces_ne_nil separates first)
      rw [h, List.cons_append] at ih
      rw [List.cons_append, pieces_cons_of_not hd ih, pieces_cons_of_not hd h, List.cons_append]

theorem pieces_of_forall_not {text : List Char} (h : ∀ c ∈ text, separates c = false) :
    pieces separates text = [text] := by
  induction text with
  | nil => rfl
  | cons c rest ih =>
    exact pieces_cons_of_not (h c List.mem_cons_self) (ih fun d hd => h d (List.mem_cons_of_mem _ hd))

theorem pieces_intercalate {c : Char} (hc : separates c = true) {texts : List (List Char)}
    (hne : texts ≠ []) :
    pieces separates ([c].intercalate texts) = texts.flatMap (pieces separates) := by
  induction texts with
  | nil => exact absurd rfl hne
  | cons text texts ih =>
    cases texts with
    | nil => rw [List.intercalate_singleton, List.flatMap_singleton]
    | cons next rest =>
      rw [List.intercalate_cons_cons, List.append_assoc, List.singleton_append, pieces_append hc,
        ih (by simp), ← List.flatMap_cons]

theorem intercalate_pieces (c : Char) (text : List Char) :
    [c].intercalate (pieces (· == c) text) = text := by
  induction text with
  | nil => rfl
  | cons d rest ih =>
    obtain ⟨piece, more, h⟩ := List.exists_cons_of_ne_nil (pieces_ne_nil (· == c) rest)
    cases hd : d == c with
    | true =>
      have hcut : pieces (· == c) (d :: rest) = [] :: pieces (· == c) rest :=
        pieces_cons_of_separates (by exact hd) rest
      rw [hcut, h, List.intercalate_cons_cons, ← h, ih]
      simpa using (beq_iff_eq.mp hd).symm
    | false =>
      have hcut : pieces (· == c) (d :: rest) = (d :: piece) :: more :=
        pieces_cons_of_not (by exact hd) h
      rw [h] at ih
      rw [hcut]
      cases more with
      | nil =>
        rw [List.intercalate_singleton] at ih ⊢
        rw [ih]
      | cons next more =>
        rw [List.intercalate_cons_cons, List.append_assoc] at ih ⊢
        rw [List.cons_append, ih]

theorem eq_or_mem_of_mem_intercalate {separator c : Char} {texts : List (List Char)}
    (h : c ∈ [separator].intercalate texts) : c = separator ∨ ∃ text ∈ texts, c ∈ text := by
  induction texts with
  | nil => simp at h
  | cons text texts ih =>
    cases texts with
    | nil =>
      rw [List.intercalate_singleton] at h
      exact .inr ⟨text, List.mem_cons_self, h⟩
    | cons next rest =>
      rw [List.intercalate_cons_cons, List.mem_append, List.mem_append] at h
      rcases h with (htext | hseparator) | hrest
      · exact .inr ⟨text, List.mem_cons_self, htext⟩
      · exact .inl (List.mem_singleton.mp hseparator)
      · exact (ih hrest).imp_right fun ⟨other, hother, hc⟩ => ⟨other, List.mem_cons_of_mem _ hother, hc⟩

theorem pieces_append_of_not {front : List Char} (h : ∀ c ∈ front, separates c = false)
    {rest piece : List Char} {more : List (List Char)} (hrest : pieces separates rest = piece :: more) :
    pieces separates (front ++ rest) = (front ++ piece) :: more := by
  induction front with
  | nil => exact hrest
  | cons c front ih =>
    exact pieces_cons_of_not (h c List.mem_cons_self) (ih fun d hd => h d (List.mem_cons_of_mem _ hd))

/-- If separators stay as they are and other characters become texts without separators, this happens
piece by piece. -/
theorem pieces_flatMap {f : Char → List Char} (hkeep : ∀ c, separates c = true → f c = [c])
    (hnot : ∀ c, separates c = false → ∀ d ∈ f c, separates d = false) (text : List Char) :
    pieces separates (text.flatMap f) = (pieces separates text).map (·.flatMap f) := by
  induction text with
  | nil => rfl
  | cons c rest ih =>
    rw [List.flatMap_cons]
    cases hc : separates c with
    | true =>
      rw [hkeep c hc, List.singleton_append, pieces_cons_of_separates hc, pieces_cons_of_separates hc, ih]
      rfl
    | false =>
      obtain ⟨piece, more, h⟩ := List.exists_cons_of_ne_nil (pieces_ne_nil separates rest)
      rw [h, List.map_cons] at ih
      rw [pieces_append_of_not (hnot c hc) ih, pieces_cons_of_not hc h, List.map_cons, List.flatMap_cons]

end EntityGraph.Text
