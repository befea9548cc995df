import EntityGraph.Extraction.References
import EntityGraph.Proofs.Concrete.Strings
import EntityGraph.Proofs.Result

/-!
# Interpolated expressions

An interpolation embeds an expression, and its format specifier can hold interpolations again. The
references of a string are those of the expressions that it interpolates itself, in order; an expression
in a format specifier is not read.

* `Node.embedded` are the expressions embedded in an interpolation, at any depth;
* `references_ofNode_string`: the references of a string that interpolates;
* `references_embedded_iff`: no reference of an embedded expression is lost exactly if none stands in a
  format specifier;
* `references_nested_width`: the width of a format is lost.
-/

namespace EntityGraph

open Concrete

/-! ## References one after the other -/

namespace Expr

theorem referencesOfAll_cons_eq_ok {expr : Expr} {rest : List Expr} {references : List Reference} :
    referencesOfAll (expr :: rest) = .ok references ↔
      ∃ first further, expr.references = .ok first ∧ referencesOfAll rest = .ok further ∧
        first ++ further = references := by
  simp only [referencesOfAll, bind_eq_ok, pure_eq_ok]
  constructor
  · rintro ⟨first, hfirst, further, hfurther, happ⟩
    exact ⟨first, further, hfirst, hfurther, happ⟩
  · rintro ⟨first, further, hfirst, hfurther, happ⟩
    exact ⟨first, hfirst, further, hfurther, happ⟩

theorem referencesOfAll_append_eq_ok {first second : List Expr} {references : List Reference} :
    referencesOfAll (first ++ second) = .ok references ↔
      ∃ before after, referencesOfAll first = .ok before ∧ referencesOfAll second = .ok after ∧
        before ++ after = references := by
  induction first generalizing references with
  | nil => simp [referencesOfAll, pure_eq_ok]
  | cons expr rest ih =>
    rw [List.cons_append, referencesOfAll_cons_eq_ok]
    constructor
    · rintro ⟨front, further, hfront, hfurther, rfl⟩
      obtain ⟨before, after, hbefore, hafter, rfl⟩ := ih.mp hfurther
      refine ⟨front ++ before, after, ?_, hafter, List.append_assoc ..⟩
      exact referencesOfAll_cons_eq_ok.mpr ⟨front, before, hfront, hbefore, rfl⟩
    · rintro ⟨before, after, hbefore, hafter, rfl⟩
      obtain ⟨front, further, hfront, hfurther, rfl⟩ := referencesOfAll_cons_eq_ok.mp hbefore
      refine ⟨front, further ++ after, hfront, ?_, (List.append_assoc ..).symm⟩
      exact ih.mpr ⟨further, after, hfurther, hafter, rfl⟩

theorem referencesOfAll_eq_nil_iff {exprs : List Expr} :
    referencesOfAll exprs = .ok [] ↔ ∀ expr ∈ exprs, expr.references = .ok [] := by
  induction exprs with
  | nil => simp [referencesOfAll, pure_eq_ok]
  | cons expr rest ih =>
    rw [referencesOfAll_cons_eq_ok, List.forall_mem_cons, ← ih]
    constructor
    · rintro ⟨first, further, hfirst, hfurther, happ⟩
      obtain ⟨rfl, rfl⟩ := List.append_eq_nil_iff.mp happ
      exact ⟨hfirst, hfurther⟩
    · rintro ⟨hfirst, hfurther⟩
      exact ⟨[], [], hfirst, hfurther, rfl⟩

/-- An expression followed by others, for each of several. -/
def opened (groups : List (Expr × List Expr)) : List Expr :=
  groups.flatMap fun group => group.1 :: group.2

theorem referencesOfAll_opened_cons_eq_ok {group : Expr × List Expr} {rest : List (Expr × List Expr)}
    {references : List Reference} :
    referencesOfAll (opened (group :: rest)) = .ok references ↔
      ∃ first others further, group.1.references = .ok first ∧ referencesOfAll group.2 = .ok others ∧
        referencesOfAll (opened rest) = .ok further ∧ first ++ (others ++ further) = references := by
  rw [opened, List.flatMap_cons, List.cons_append, referencesOfAll_cons_eq_ok]
  constructor
  · rintro ⟨first, after, hfirst, hafter, rfl⟩
    obtain ⟨others, further, hothers, hfurther, rfl⟩ := referencesOfAll_append_eq_ok.mp hafter
    exact ⟨first, others, further, hfirst, hothers, hfurther, rfl⟩
  · rintro ⟨first, others, further, hfirst, hothers, hfurther, rfl⟩
    exact ⟨first, _, hfirst, referencesOfAll_append_eq_ok.mpr ⟨others, further, hothers, hfurther, rfl⟩, rfl⟩

/-- Further expressions take no references away. -/
theorem length_le_of_opened {groups : List (Expr × List Expr)} {references all : List Reference}
    (h : referencesOfAll (groups.map Prod.fst) = .ok references)
    (hall : referencesOfAll (opened groups) = .ok all) : references.length ≤ all.length := by
  induction groups generalizing references all with
  | nil =>
    rw [List.map_nil, referencesOfAll, pure_eq_ok] at h
    rw [← h]
    exact Nat.zero_le _
  | cons group rest ih =>
    obtain ⟨first, further, hfirst, hfurther, rfl⟩ := referencesOfAll_cons_eq_ok.mp h
    obtain ⟨first', others, more, hfirst', -, hmore, rfl⟩ := referencesOfAll_opened_cons_eq_ok.mp hall
    rw [hfirst] at hfirst'
    cases hfirst'
    have hle := ih hfurther hmore
    simp only [List.length_append]
    omega

/-- The references of the first expressions of the groups are those of all expressions exactly if the
others have none. -/
theorem referencesOfAll_opened_iff {groups : List (Expr × List Expr)} {references : List Reference}
    (h : referencesOfAll (groups.map Prod.fst) = .ok references) :
    referencesOfAll (opened groups) = .ok references ↔
      ∀ group ∈ groups, ∀ other ∈ group.2, other.references = .ok [] := by
  induction groups generalizing references with
  | nil => exact iff_of_true h (by simp)
  | cons group rest ih =>
    obtain ⟨first, further, hfirst, hfurther, rfl⟩ := referencesOfAll_cons_eq_ok.mp h
    rw [List.forall_mem_cons, ← referencesOfAll_eq_nil_iff, ← ih hfurther,
      referencesOfAll_opened_cons_eq_ok]
    constructor
    · rintro ⟨first', others, more, hfirst', hothers, hmore, happ⟩
      rw [hfirst] at hfirst'
      cases hfirst'
      -- What the rest gives is at least as long as without the others, so these give nothing.
      have hrest : others ++ more = further := List.append_cancel_left happ
      have hle := length_le_of_opened hfurther hmore
      have hlength := congrArg List.length hrest
      rw [List.length_append] at hlength
      have hnil : others = [] := List.length_eq_zero_iff.mp (by omega)
      subst hnil
      exact ⟨hothers, hrest ▸ hmore⟩
    · rintro ⟨hothers, hmore⟩
      exact ⟨first, [], further, hfirst, hothers, hmore, rfl⟩

end Expr

/-! ## Embedded expressions -/

namespace Concrete

/-- Whether a node of a string or of a format specifier embeds an expression. -/
def Label.isInterpolation (label : Label) : Bool :=
  label.isItem && (label.kind = "interpolation" || label.kind = "format_expression")

mutual

/-- The expressions embedded in an interpolation: its own, and those in its format specifier. -/
def Node.embedded : Node → List Node
  | ⟨_, children⟩ => (child? "expression" children).toList ++ specified children

/-- The expressions embedded in the format specifier of an interpolation with these children. -/
def specified : List Node → List Node
  | [] => []
  | ⟨label, children⟩ :: rest =>
    if label.isItem && label.kind = "format_specifier" then embeddedAll children ++ specified rest
    else specified rest

def embeddedAll : List Node → List Node
  | [] => []
  | node :: rest =>
    if node.label.isInterpolation then node.embedded ++ embeddedAll rest else embeddedAll rest

end

/-- The interpolations of a string with these children. -/
def interpolations (children : List Node) : List Node :=
  (items children).filter (·.label.kind = "interpolation")

end Concrete

namespace Expr

variable (source : ByteArray)

/-- The expression that a segment interpolates. -/
def interpolated? : Expr → Option Expr
  | .formattedValue value _ => some value
  | _ => none

theorem referencesOfSegments_eq (segments : List Expr) :
    referencesOfSegments segments = referencesOfAll (segments.filterMap interpolated?) := by
  induction segments with
  | nil => rfl
  | cons segment rest ih =>
    cases segment with
    | formattedValue value line =>
      rw [referencesOfSegments, ih]
      rfl
    | _ => exact ih

/-- The expression that an interpolation carries is the one that it is read as. -/
theorem segment?_bind_interpolated? (line : Nat) {node : Node}
    (hcarry : node.label.kind = "interpolation" → (child? "expression" node.children).isSome = true) :
    (segment? source line node).bind interpolated? =
      if node.label.kind = "interpolation" then
        (child? "expression" node.children).map (ofNode source)
      else none := by
  by_cases hkind : node.label.kind = "interpolation"
  · obtain ⟨own, hown⟩ := Option.isSome_iff_exists.mp (hcarry hkind)
    simp [segment?, hkind, ofField?_eq, hown, interpolated?]
  · rw [segment?, if_neg hkind, if_neg hkind]
    split <;> rfl

theorem filterMap_interpolated?_segments (line : Nat) {children : List Node}
    (hcarry : ∀ node ∈ interpolations children, (child? "expression" node.children).isSome = true) :
    (segments source line children).filterMap interpolated? =
      ((interpolations children).filterMap (child? "expression" ·.children)).map (ofNode source) := by
  rw [segments_eq, List.filterMap_filterMap, interpolations] at *
  generalize items children = nodes at hcarry ⊢
  induction nodes with
  | nil => rfl
  | cons node rest ih =>
    have hrest := ih fun other hother => hcarry other (by
      rw [List.filter_cons]
      split
      · exact List.mem_cons_of_mem _ hother
      · exact hother)
    have hnode : node.label.kind = "interpolation" →
        (child? "expression" node.children).isSome = true := fun hkind =>
      hcarry node (List.mem_filter.mpr ⟨List.mem_cons_self, by simpa using hkind⟩)
    rw [List.filterMap_cons, segment?_bind_interpolated? source line hnode, hrest, List.filter_cons]
    by_cases hkind : node.label.kind = "interpolation"
    · obtain ⟨own, hown⟩ := Option.isSome_iff_exists.mp (hnode hkind)
      simp [hkind, hown]
    · simp [hkind]

/-- The expressions that interpolations carry themselves, each with those in its format specifier. -/
def groupsOf (nodes : List Node) : List (Expr × List Expr) :=
  nodes.filterMap fun node => (child? "expression" node.children).map fun own =>
    (ofNode source own, (specified node.children).map (ofNode source))

theorem map_fst_groupsOf (nodes : List Node) :
    (groupsOf source nodes).map Prod.fst =
      (nodes.filterMap (child? "expression" ·.children)).map (ofNode source) := by
  simp only [groupsOf, List.map_filterMap, Option.map_map]
  rfl

theorem opened_groupsOf {nodes : List Node}
    (hcarry : ∀ node ∈ nodes, (child? "expression" node.children).isSome = true) :
    opened (groupsOf source nodes) = (nodes.flatMap Node.embedded).map (ofNode source) := by
  induction nodes with
  | nil => rfl
  | cons node rest ih =>
    obtain ⟨hnode, hrest⟩ := List.forall_mem_cons.mp hcarry
    obtain ⟨own, hown⟩ := Option.isSome_iff_exists.mp hnode
    obtain ⟨label, children⟩ := node
    have hgroup : groupsOf source (⟨label, children⟩ :: rest) =
        (ofNode source own, (specified children).map (ofNode source)) :: groupsOf source rest := by
      simp [groupsOf, hown]
    rw [hgroup, opened, List.flatMap_cons, List.flatMap_cons, List.map_append, ← ih hrest, Node.embedded,
      hown]
    rfl

theorem forall_groupsOf_iff {nodes : List Node} {P : Expr → Prop}
    (hcarry : ∀ node ∈ nodes, (child? "expression" node.children).isSome = true) :
    (∀ group ∈ groupsOf source nodes, ∀ other ∈ group.2, P other) ↔
      ∀ node ∈ nodes.flatMap (specified ·.children), P (ofNode source node) := by
  constructor
  · intro h inner hinner
    obtain ⟨node, hnode, hinner⟩ := List.mem_flatMap.mp hinner
    obtain ⟨own, hown⟩ := Option.isSome_iff_exists.mp (hcarry node hnode)
    have hgroup : (ofNode source own, (specified node.children).map (ofNode source)) ∈
        groupsOf source nodes :=
      List.mem_filterMap.mpr ⟨node, hnode, by rw [hown, Option.map_some]⟩
    exact h _ hgroup _ (List.mem_map_of_mem hinner)
  · intro h group hgroup other hother
    obtain ⟨node, hnode, hgroup⟩ := List.mem_filterMap.mp hgroup
    obtain ⟨own, -, rfl⟩ := Option.map_eq_some_iff.mp hgroup
    obtain ⟨inner, hinner, rfl⟩ := List.mem_map.mp hother
    exact h inner (List.mem_flatMap.mpr ⟨node, hnode, hinner⟩)

theorem references_ofNode_string {node : Node} (hkind : node.label.kind = "string")
    (hformatted : isFormatted source node.children = true)
    (hcarry : ∀ inner ∈ interpolations node.children, (child? "expression" inner.children).isSome = true) :
    (ofNode source node).references =
      referencesOfAll
        (((interpolations node.children).filterMap (child? "expression" ·.children)).map
          (ofNode source)) := by
  rw [ofNode_string source hkind, if_pos hformatted, references, referencesOfSegments_eq, segmentsIn,
    filterMap_interpolated?_segments source node.label.line hcarry]

end Expr

open EntityGraph.Expr

/-- The references of a string whose interpolations carry expressions are those of these expressions, one
after the other. If the string has references, they are those of all embedded expressions exactly if the
expressions in format specifiers, at any depth, have none: whatever these refer to is lost. -/
theorem references_embedded_iff (source : ByteArray) {node : Node} (hkind : node.label.kind = "string")
    (hformatted : isFormatted source node.children = true)
    (hcarry : ∀ inner ∈ interpolations node.children, (child? "expression" inner.children).isSome = true) :
    (ofNode source node).references =
        referencesOfAll
          (((interpolations node.children).filterMap (child? "expression" ·.children)).map
            (ofNode source)) ∧
      ∀ references, (ofNode source node).references = .ok references →
        (referencesOfAll (((interpolations node.children).flatMap Node.embedded).map (ofNode source)) =
            .ok references ↔
          ∀ inner ∈ (interpolations node.children).flatMap (specified ·.children),
            (ofNode source inner).references = .ok []) := by
  have hstring := references_ofNode_string source hkind hformatted hcarry
  refine ⟨hstring, fun references h => ?_⟩
  rw [hstring, ← map_fst_groupsOf] at h
  rw [← opened_groupsOf source hcarry, referencesOfAll_opened_iff h, forall_groupsOf_iff source hcarry]

/-- The string `f"{a} {b:>8}"`. -/
def Concrete.sampleFormatted : Node :=
  samplePart "string" none 0 13
    [samplePart "string_start" none 0 2 [],
      samplePart "interpolation" none 2 5 [samplePart "identifier" (some "expression") 3 4 []],
      samplePart "string_content" none 5 6 [],
      samplePart "interpolation" none 6 12
        [samplePart "identifier" (some "expression") 7 8 [],
          samplePart "format_specifier" (some "format_specifier") 8 11 []],
      samplePart "string_end" none 12 13 []]

theorem references_embedded_names :
    referencesOfAll (((interpolations sampleFormatted.children).flatMap Node.embedded).map
        (ofNode "f\"\x7ba\x7d \x7bb:>8\x7d\"".toUTF8)) =
      .ok [.name "a", .name "b"] := by
  have hiff := @references_embedded_iff "f\"\x7ba\x7d \x7bb:>8\x7d\"".toUTF8 sampleFormatted rfl rfl
    (by decide)
  have hnone : (interpolations sampleFormatted.children).flatMap (specified ·.children) = [] := rfl
  refine (hiff.2 _ rfl).mpr fun inner hinner => ?_
  rw [hnone] at hinner
  cases hinner

/-- The string `f"{x:{width}}"`. -/
def Concrete.samplePadded : Node :=
  samplePart "string" none 0 14
    [samplePart "string_start" none 0 2 [],
      samplePart "interpolation" none 2 13
        [samplePart "identifier" (some "expression") 3 4 [],
          samplePart "format_specifier" (some "format_specifier") 4 12
            [samplePart "format_expression" none 5 12
              [samplePart "identifier" (some "expression") 6 11 []]]],
      samplePart "string_end" none 13 14 []]

/-- The width of a format is embedded, and lost. -/
theorem references_nested_width :
    (ofNode "f\"\x7bx:\x7bwidth\x7d\x7d\"".toUTF8 samplePadded).references = .ok [.name "x"] ∧
      referencesOfAll (((interpolations samplePadded.children).flatMap Node.embedded).map
          (ofNode "f\"\x7bx:\x7bwidth\x7d\x7d\"".toUTF8)) =
        .ok [.name "x", .name "width"] :=
  ⟨rfl, rfl⟩

end EntityGraph
