import EntityGraph.Proofs.Concrete.Children
import Mathlib.Data.List.Forall2

/-!
# Strings side by side

Strings that are written side by side are read as one string, with the segments of all parts in their
order (`Expr.HasSegments`). What is read off the parts is whether one of them interpolates; that they hold
bytes is not.

* `ofNode_string_hasSegments`, `ofNode_strings_hasSegments`: the segments of one string and of several;
* `ofNode_sideBySide`: what several strings are read as, by what each of them is read as;
* `ofNode_bytes_sideBySide`: bytes side by side are read as text.
-/

namespace EntityGraph

open Concrete

/-! ## Bytes of joined texts -/

namespace Text

theorem toList_loop (bytes : ByteArray) (i : Nat) (read : List UInt8) :
    ByteArray.toList.loop bytes i read = read.reverse ++ bytes.data.toList.drop i := by
  fun_induction ByteArray.toList.loop bytes i read with
  | case1 i read hlt ih =>
    have hi : i < bytes.data.toList.length := by simpa using hlt
    have hget : bytes.get! i = bytes.data.toList[i] := by simp [ByteArray.get!, hlt]
    rw [ih, List.drop_eq_getElem_cons hi, hget, List.reverse_cons, List.append_assoc,
      List.singleton_append]
  | case2 i read hge =>
    rw [List.drop_eq_nil_of_le (by simpa using hge), List.append_nil]

theorem toList_eq_data (bytes : ByteArray) : bytes.toList = bytes.data.toList := by
  rw [ByteArray.toList, toList_loop, List.reverse_nil, List.nil_append, List.drop_zero]

theorem toList_toUTF8_append (first second : String) :
    (first ++ second).toUTF8.toList = first.toUTF8.toList ++ second.toUTF8.toList := by
  simp only [toList_eq_data, String.toUTF8_eq_toByteArray, String.toByteArray_append,
    ByteArray.data_append, Array.toList_append]

theorem join_append (first second : List String) :
    String.join (first ++ second) = String.join first ++ String.join second := by
  rw [← String.toList_inj]
  simp

end Text

namespace Expr

/-! ## Segments -/

/-- The text of a segment that is no interpolation. -/
def text? : Expr → Option String
  | .constant (.str text) _ => some text
  | _ => none

/-- The literal text of segments. -/
def textOf (segments : List Expr) : String :=
  String.join (segments.filterMap text?)

theorem textOf_append (first second : List Expr) :
    textOf (first ++ second) = textOf first ++ textOf second := by
  rw [textOf, List.filterMap_append, Text.join_append]
  rfl

/-- A string is made up of these segments: it has them as its values, or it is the constant of their
text. -/
def HasSegments (segments : List Expr) : Expr → Prop
  | .joinedStr values _ => values = segments
  | .constant (.str text) _ => text = textOf segments
  | .constant (.bytes bytes) _ => bytes = (textOf segments).toUTF8.toList
  | _ => False

variable (source : ByteArray)

/-- The segments of the string that a node is. -/
def segmentsIn (node : Node) : List Expr :=
  segments source node.label.line node.children

theorem literalText_eq (line : Nat) (children : List Node) :
    literalText source children = textOf (segments source line children) := by
  have htext : ∀ node, (segment? source line node).bind text? =
      if node.label.kind = "string_content" then some (node.label.text source) else none := by
    intro node
    rw [segment?]
    split
    · rfl
    · split <;> rfl
  rw [literalText, textOf, segments_eq, List.filterMap_filterMap]
  simp only [htext]
  congr 1
  induction items children with
  | nil => rfl
  | cons node rest ih =>
    by_cases hkind : node.label.kind = "string_content" <;> simp [hkind, ih]

theorem ofNode_string {node : Node} (hkind : node.label.kind = "string") :
    ofNode source node =
      if isFormatted source node.children then .joinedStr (segmentsIn source node) node.label.line
      else if (stringLetters source node.children).contains 'b' then
        .constant (.bytes (textOf (segmentsIn source node)).toUTF8.toList) node.label.line
      else .constant (.str (textOf (segmentsIn source node))) node.label.line := by
  obtain ⟨label, children⟩ := node
  rw [ofNode, show label.kind = "string" from hkind, segmentsIn, ← literalText_eq]
  rfl

theorem ofNode_strings {label : Label} {children : List Node} (hkind : label.kind = "concatenated_string") :
    ofNode source ⟨label, children⟩ =
      if (stringParts children).any (isFormatted source ·.children) then
        .joinedStr ((stringParts children).flatMap (segmentsIn source)) label.line
      else
        .constant (.str (textOf ((stringParts children).flatMap (segmentsIn source)))) label.line := by
  have htext : ∀ parts : List Node, String.join (parts.map (literalText source ·.children)) =
      textOf (parts.flatMap (segmentsIn source)) := by
    intro parts
    induction parts with
    | nil => rfl
    | cons part rest ih =>
      rw [List.map_cons, String.join_cons, ih, List.flatMap_cons, textOf_append,
        literalText_eq source part.label.line, segmentsIn]
  have hsegments : (stringParts children).flatMap (segmentsIn source) = segmentsOfStrings source children :=
    (segmentsOfStrings_eq source children).symm
  rw [← htext, hsegments, ofNode, hkind]
  rfl

theorem ofNode_string_hasSegments {node : Node} (hkind : node.label.kind = "string") :
    (ofNode source node).HasSegments (segmentsIn source node) := by
  rw [ofNode_string source hkind]
  split
  · rfl
  · split <;> rfl

theorem ofNode_strings_hasSegments {label : Label} {children : List Node}
    (hkind : label.kind = "concatenated_string") :
    (ofNode source ⟨label, children⟩).HasSegments ((stringParts children).flatMap (segmentsIn source)) := by
  rw [ofNode_strings source hkind]
  split <;> rfl

/-! ## What strings side by side are read as -/

theorem kind_of_mem_stringParts {children : List Node} {part : Node} (h : part ∈ stringParts children) :
    part.label.kind = "string" := by
  simpa using (List.mem_filter.mp h).2

theorem isFormatted_of_joinedStr {part : Node} (hkind : part.label.kind = "string") {values : List Expr}
    {line : Nat} (h : ofNode source part = .joinedStr values line) :
    isFormatted source part.children = true := by
  rw [ofNode_string source hkind] at h
  split at h
  · next hformatted => exact hformatted
  · split at h <;> cases h

theorem isFormatted_of_constant {part : Node} (hkind : part.label.kind = "string") {value : Constant}
    {line : Nat} (h : ofNode source part = .constant value line) :
    isFormatted source part.children = false := by
  rw [ofNode_string source hkind] at h
  split at h
  · cases h
  · next hnot => exact Bool.not_eq_true _ ▸ hnot

/-- Parts that are read as constants make up the text constant of all their segments. -/
theorem ofNode_strings_of_constants {label : Label} {children : List Node}
    (hkind : label.kind = "concatenated_string") {α : Type} {value : α → Constant} {found : List α}
    (h : List.Forall₂ (fun part x => ∃ line, ofNode source part = .constant (value x) line)
      (stringParts children) found) :
    ofNode source ⟨label, children⟩ =
      .constant (.str (textOf ((stringParts children).flatMap (segmentsIn source)))) label.line := by
  have hplain : ∀ part ∈ stringParts children, isFormatted source part.children = false := by
    intro part hpart
    obtain ⟨i, hi, rfl⟩ := List.mem_iff_getElem.mp hpart
    obtain ⟨line, hline⟩ := h.get hi (h.length_eq ▸ hi)
    exact isFormatted_of_constant source (kind_of_mem_stringParts hpart) hline
  have hnone : (stringParts children).any (isFormatted source ·.children) = false :=
    List.any_eq_false.mpr fun part hpart => by simp [hplain part hpart]
  rw [ofNode_strings source hkind, hnone]
  rfl

theorem textOf_of_texts {parts : List Node} {texts : List String}
    (hsegments : ∀ part ∈ parts, (ofNode source part).HasSegments (segmentsIn source part))
    (h : List.Forall₂ (fun part text => ∃ line, ofNode source part = .constant (.str text) line)
      parts texts) :
    textOf (parts.flatMap (segmentsIn source)) = String.join texts := by
  induction h with
  | nil => rfl
  | cons hfirst _ ih =>
    obtain ⟨line, hline⟩ := hfirst
    obtain ⟨htext, hrest⟩ := List.forall_mem_cons.mp hsegments
    rw [hline] at htext
    rw [List.flatMap_cons, textOf_append, ih hrest, String.join_cons, show _ = textOf _ from htext]

theorem bytes_of_bytes {parts : List Node} {contents : List (List UInt8)}
    (hsegments : ∀ part ∈ parts, (ofNode source part).HasSegments (segmentsIn source part))
    (h : List.Forall₂ (fun part bytes => ∃ line, ofNode source part = .constant (.bytes bytes) line)
      parts contents) :
    (textOf (parts.flatMap (segmentsIn source))).toUTF8.toList = contents.flatten := by
  induction h with
  | nil =>
    rw [Text.toList_eq_data]
    rfl
  | cons hfirst _ ih =>
    obtain ⟨line, hline⟩ := hfirst
    obtain ⟨hbytes, hrest⟩ := List.forall_mem_cons.mp hsegments
    rw [hline] at hbytes
    rw [List.flatMap_cons, textOf_append, Text.toList_toUTF8_append, ih hrest, List.flatten_cons,
      show _ = (textOf _).toUTF8.toList from hbytes]

end Expr

open EntityGraph.Expr

/-- Several strings side by side, each made up of its segments, are one string made up of the segments of
all parts in order. It interpolates if a part does, and it is the constant of the joined texts if all parts
are text. If all parts are bytes it is text as well: the one that has the joined bytes. -/
theorem ofNode_sideBySide (source : ByteArray) {label : Label} {children : List Node}
    (hkind : label.kind = "concatenated_string") :
    (∀ part ∈ stringParts children, (ofNode source part).HasSegments (segmentsIn source part)) ∧
    (ofNode source ⟨label, children⟩).HasSegments
      ((stringParts children).flatMap (segmentsIn source)) ∧
    ((∃ part ∈ stringParts children, ∃ values line, ofNode source part = .joinedStr values line) →
      ofNode source ⟨label, children⟩ =
        .joinedStr ((stringParts children).flatMap (segmentsIn source)) label.line) ∧
    (∀ texts : List String, List.Forall₂
        (fun part text => ∃ line, ofNode source part = .constant (.str text) line)
        (stringParts children) texts →
      ofNode source ⟨label, children⟩ = .constant (.str (String.join texts)) label.line) ∧
    (∀ contents : List (List UInt8), List.Forall₂
        (fun part bytes => ∃ line, ofNode source part = .constant (.bytes bytes) line)
        (stringParts children) contents →
      ∃ text : String, text.toUTF8.toList = contents.flatten ∧
        ofNode source ⟨label, children⟩ = .constant (.str text) label.line) := by
  have hsegments : ∀ part ∈ stringParts children,
      (ofNode source part).HasSegments (segmentsIn source part) := fun part hpart =>
    ofNode_string_hasSegments source (kind_of_mem_stringParts hpart)
  refine ⟨hsegments, ofNode_strings_hasSegments source hkind, ?_, fun texts h => ?_, fun contents h => ?_⟩
  · rintro ⟨part, hpart, values, line, hvalues⟩
    have hformatted := isFormatted_of_joinedStr source (kind_of_mem_stringParts hpart) hvalues
    rw [ofNode_strings source hkind, if_pos (List.any_eq_true.mpr ⟨part, hpart, hformatted⟩)]
  · rw [ofNode_strings_of_constants source hkind h, textOf_of_texts source hsegments h]
  · exact ⟨_, bytes_of_bytes source hsegments h, ofNode_strings_of_constants source hkind h⟩

namespace Concrete

/-- A named node on the first line, with its range. -/
def samplePart (kind : String) (field : Option String) (start stop : Nat) (children : List Node) : Node :=
  ⟨⟨kind, field, true, false, false, start, stop, 0⟩, children⟩

/-- The strings of the line `"a" f"b{c}"`. -/
def sampleStrings : List Node :=
  [samplePart "string" none 0 3
      [samplePart "string_start" none 0 1 [], samplePart "string_content" none 1 2 [],
        samplePart "string_end" none 2 3 []],
    samplePart "string" none 4 11
      [samplePart "string_start" none 4 6 [], samplePart "string_content" none 6 7 [],
        samplePart "interpolation" none 7 10 [samplePart "identifier" (some "expression") 8 9 []],
        samplePart "string_end" none 10 11 []]]

end Concrete

theorem ofNode_sideBySide_mixed :
    ofNode "\"a\" f\"b\x7bc\x7d\"".toUTF8 (samplePart "concatenated_string" none 0 11 sampleStrings) =
      .joinedStr [.constant (.str "a") 1, .constant (.str "b") 1, .formattedValue (.name "c" 1) 1] 1 := by
  have hall := @ofNode_sideBySide "\"a\" f\"b\x7bc\x7d\"".toUTF8
    (samplePart "concatenated_string" none 0 11 []).label sampleStrings rfl
  exact hall.2.2.1 ⟨_, List.mem_cons_of_mem _ List.mem_cons_self, _, _, rfl⟩

/-- The strings of the line `b"a" b"b"`. -/
def Concrete.sampleBytes : List Node :=
  [samplePart "string" none 0 4
      [samplePart "string_start" none 0 2 [], samplePart "string_content" none 2 3 [],
        samplePart "string_end" none 3 4 []],
    samplePart "string" none 5 9
      [samplePart "string_start" none 5 7 [], samplePart "string_content" none 7 8 [],
        samplePart "string_end" none 8 9 []]]

/-- Bytes side by side are read as the text with these bytes. -/
theorem ofNode_bytes_sideBySide :
    (stringParts sampleBytes).map (ofNode "b\"a\" b\"b\"".toUTF8) =
        [.constant (.bytes [97]) 1, .constant (.bytes [98]) 1] ∧
      ofNode "b\"a\" b\"b\"".toUTF8 (samplePart "concatenated_string" none 0 9 sampleBytes) =
        .constant (.str "ab") 1 := by
  have hfirst : "a".toUTF8.toList = [97] := by
    rw [Text.toList_eq_data]
    rfl
  have hsecond : "b".toUTF8.toList = [98] := by
    rw [Text.toList_eq_data]
    rfl
  refine ⟨?_, rfl⟩
  rw [← hfirst, ← hsecond]
  rfl

end EntityGraph
