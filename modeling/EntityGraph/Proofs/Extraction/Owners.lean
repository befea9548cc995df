import EntityGraph.Extraction.References
import EntityGraph.Proofs.Result
import Mathlib.Data.List.Induction

/-!
# Owners of calls

The owner of a call is written with the names along the value links of what the callee is an attribute
of. For a name with attributes of one another (`x.a.b`), the reference of the expression is nested one
attribute in the other, and is written with the same names.

* `Expr.valueLinks`, `Expr.ownerNames_eq`: following the links and turning the names round gives the
  names that the owner is written with;
* `Expr.dotted`, `Expr.references_dotted`: a name with attributes, and its reference;
* `Reference.path?`: the names that a reference is written with;
* `Expr.ownerToken_path`: how the owner is written, and that the two agree.
-/

namespace EntityGraph

namespace Expr

/-! ## Value links -/

theorem sizeOf_lt_of_valueLink? {e value : Expr} (h : e.valueLink? = some value) :
    sizeOf value < sizeOf e := by
  cases e with
  | yield inner line =>
    cases inner with
    | none => cases h
    | some inner =>
      cases h
      simp only [yield.sizeOf_spec, Option.some.sizeOf_spec]
      omega
  | «attribute» | subscript | formattedValue | await | yieldFrom | starred | namedExpr =>
    cases h
    simp only [attribute.sizeOf_spec, subscript.sizeOf_spec, formattedValue.sizeOf_spec,
      await.sizeOf_spec, yieldFrom.sizeOf_spec, starred.sizeOf_spec, namedExpr.sizeOf_spec]
    omega
  | _ => cases h

/-- The expression and what its value links lead to, one link after the other. -/
def valueLinks (e : Expr) : List Expr :=
  match _h : e.valueLink? with
  | none => [e]
  | some value => e :: valueLinks value
termination_by sizeOf e
decreasing_by exact sizeOf_lt_of_valueLink? _h

theorem valueLinks_of_none {e : Expr} (h : e.valueLink? = none) : e.valueLinks = [e] := by
  rw [valueLinks]
  split
  · rfl
  · next hsome =>
    rw [h] at hsome
    cases hsome

theorem valueLinks_of_some {e value : Expr} (h : e.valueLink? = some value) :
    e.valueLinks = e :: value.valueLinks := by
  rw [valueLinks]
  split
  · next hnone =>
    rw [h] at hnone
    cases hnone
  · next hsome =>
    rw [h] at hsome
    cases hsome
    rfl

/-- The name that an expression itself adds to an owner. -/
def ownName? : Expr → Option String
  | .name id _ => some id
  | .attribute _ attr _ => some attr
  | _ => none

/-- The names of an owner are those met along the links, the last one first. -/
theorem ownerNames_eq : ∀ e : Expr, e.ownerNames = (e.valueLinks.filterMap ownName?).reverse
  | .attribute value attr _ => by
    rw [ownerNames, valueLinks_of_some rfl, ownerNames_eq value, ← List.reverse_cons]
    rfl
  | .subscript value _ _ | .formattedValue value _ | .await value _ | .yieldFrom value _
  | .starred value _ | .namedExpr _ value _ | .yield (some value) _ => by
    rw [ownerNames, valueLinks_of_some rfl, ownerNames_eq value]
    rfl
  | .yield none _ | .name .. | .call .. | .binOp .. | .unaryOp .. | .boolOp .. | .compare ..
  | .ifExp .. | .slice .. | .joinedStr .. | .constant .. | .tuple .. | .list .. | .set .. | .dict ..
  | .comprehension .. | .lambda .. | .other .. => by
    rw [valueLinks_of_none rfl]
    rfl

end Expr

/-! ## Names with attributes -/

/-- The names that a reference is written with: a name alone, or an attribute of a single receiver that
is written so. -/
def Reference.path? : Reference → Option (List String)
  | .name id => some [id]
  | .attribute (.one owner) attr => owner.path?.map (· ++ [attr])
  | _ => none

namespace Expr

/-- A name and the attributes of it, each with its line, one taken of the other. -/
def dotted (id : String) (line : Nat) (attrs : List (String × Nat)) : Expr :=
  attrs.foldl (fun value attr => .attribute value attr.1 attr.2) (.name id line)

variable (id : String) (line : Nat)

theorem dotted_append (attrs : List (String × Nat)) (attr : String × Nat) :
    dotted id line (attrs ++ [attr]) = .attribute (dotted id line attrs) attr.1 attr.2 := by
  rw [dotted, List.foldl_append, List.foldl_cons, List.foldl_nil, dotted]

theorem ownerNames_dotted (attrs : List (String × Nat)) :
    (dotted id line attrs).ownerNames = id :: attrs.map Prod.fst := by
  induction attrs using List.reverseRecOn with
  | nil => rfl
  | append_singleton attrs attr ih =>
    rw [dotted_append, ownerNames, ih, List.map_append, List.cons_append]
    rfl

/-- A name with attributes has one reference, which is written with the same names. -/
theorem references_dotted (attrs : List (String × Nat)) :
    ∃ reference : Reference, (dotted id line attrs).references = .ok [reference] ∧
      reference.path? = some (id :: attrs.map Prod.fst) := by
  induction attrs using List.reverseRecOn with
  | nil => exact ⟨.name id, rfl, rfl⟩
  | append_singleton attrs attr ih =>
    obtain ⟨owner, howner, hpath⟩ := ih
    refine ⟨.attribute (.one owner) attr.1, ?_, ?_⟩
    · rw [dotted_append, references, howner]
      rfl
    · rw [Reference.path?, hpath, List.map_append]
      rfl

/-! ## Owners -/

theorem ownerToken_of_nil {e : Expr} (h : e.ownerNames = []) : e.ownerToken = "unknown" := by
  rw [ownerToken, h]
  rfl

theorem ownerToken_of_ne_nil {e : Expr} (h : e.ownerNames ≠ []) :
    e.ownerToken = ".".intercalate e.ownerNames := by
  rw [ownerToken]
  split
  · next hnil => exact absurd hnil h
  · rfl

/-- A call of an attribute is always known by name, so that only its arguments can fail. -/
theorem call?_attribute_eq_ok {value : Expr} {attr : String} {args : List Expr}
    {keywords : List Keyword} {attrLine callLine : Nat} {made : Option Call} :
    (Expr.call (.attribute value attr attrLine) args keywords callLine).call? = .ok made ↔
      ∃ positional named, referencesOfAll args = .ok positional ∧
        referencesOfKeywords keywords = .ok named ∧
        made = some ⟨attr, attrLine, some value.ownerToken, positional ++ named⟩ := by
  simp only [call?, Call.of?, bind_eq_ok]
  constructor
  · rintro ⟨positional, hpositional, named, hnamed, hmade⟩
    exact ⟨positional, named, hpositional, hnamed, (Except.ok.inj hmade).symm⟩
  · rintro ⟨positional, named, hpositional, hnamed, rfl⟩
    exact ⟨positional, hpositional, named, hnamed, rfl⟩

/-- An owner is written with the names that are met along the value links, the innermost first, and is
unknown where there are none. Of a name with attributes `x.a.b` it is written with `x` and the attributes
in their order. So is the one reference of this expression, and a call `x.a.b.m(..)` is the call of `m`
with this owner whenever its arguments have references. -/
theorem ownerToken_path :
    (∀ e : Expr,
      (e.valueLinks.filterMap ownName? = [] → e.ownerToken = "unknown") ∧
      (e.valueLinks.filterMap ownName? ≠ [] →
        e.ownerToken = ".".intercalate (e.valueLinks.filterMap ownName?).reverse)) ∧
    ∀ (id : String) (line : Nat) (attrs : List (String × Nat)),
      (dotted id line attrs).ownerToken = ".".intercalate (id :: attrs.map Prod.fst) ∧
      (∃ reference : Reference, (dotted id line attrs).references = .ok [reference] ∧
        reference.path? = some (id :: attrs.map Prod.fst)) ∧
      ∀ (attr : String) (attrLine : Nat) (args : List Expr) (keywords : List Keyword) (callLine : Nat)
        (made : Option Call),
        (Expr.call (.attribute (dotted id line attrs) attr attrLine) args keywords callLine).call? =
            .ok made ↔
          ∃ positional named, referencesOfAll args = .ok positional ∧
            referencesOfKeywords keywords = .ok named ∧
            made = some ⟨attr, attrLine, some (".".intercalate (id :: attrs.map Prod.fst)),
              positional ++ named⟩ := by
  refine ⟨fun e => ?_, fun id line attrs => ?_⟩
  · have hnames := ownerNames_eq e
    constructor
    · intro hnil
      exact ownerToken_of_nil (by rw [hnames, hnil, List.reverse_nil])
    · intro hne
      rw [← hnames]
      exact ownerToken_of_ne_nil (hnames ▸ List.reverse_ne_nil_iff.mpr hne)
  · have hnames := ownerNames_dotted id line attrs
    have htoken : (dotted id line attrs).ownerToken = ".".intercalate (id :: attrs.map Prod.fst) := by
      rw [ownerToken_of_ne_nil (hnames ▸ List.cons_ne_nil _ _), hnames]
    refine ⟨htoken, references_dotted id line attrs, fun attr attrLine args keywords callLine made => ?_⟩
    rw [call?_attribute_eq_ok, htoken]

/-- The expression `await self.items[0]`. -/
def sampleAwaited : Expr :=
  .await (.subscript (.attribute (.name "self" 1) "items" 1) (.constant (.number "0") 1) 1) 1

theorem ownerToken_path_awaited :
    sampleAwaited.ownerToken = "self.items" ∧
      (Expr.call (.name "get" 1) [] [] 1).ownerToken = "unknown" ∧
      (Expr.call (.attribute (dotted "a" 1 [("b", 1)]) "c" 1) [.name "x" 1] [] 1).call? =
        .ok (some ⟨"c", 1, some "a.b", [.name "x"]⟩) := by
  have hlinks : sampleAwaited.valueLinks.filterMap ownName? = ["items", "self"] := by
    simp only [sampleAwaited, valueLinks, valueLink?]
    rfl
  refine ⟨?_, (ownerToken_path.1 _).1 ?_, ?_⟩
  · rw [(ownerToken_path.1 _).2 (by rw [hlinks]; decide), hlinks]
    rfl
  · rw [valueLinks_of_none rfl]
    rfl
  · exact ((ownerToken_path.2 "a" 1 [("b", 1)]).2.2 _ _ _ _ _ _).mpr ⟨_, _, rfl, rfl, rfl⟩

end Expr

end EntityGraph
