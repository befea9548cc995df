import EntityGraph.Extraction.Declarations
import EntityGraph.Proofs.Concrete.Strings

/-!
# Parameters by their separators

A parameter list is a row of names that separators divide: a positional separator ends the parameters that
are passed by position only, and a splat or a keyword separator begins those that are passed by keyword
only. A mapping of all other keywords comes last.

* `Says`: what an item of a parameter list says, by its kind;
* `Signature`: the names of a parameter list by the separators between them, `Signature.grouped` the
  groups that these names make up;
* `addAll_names`, `addAll_slash`, `addAll_star`, `addAll_mapping`: what each stretch of the row adds;
* `ofItems_grouped`: the groups that a parameter list is read as, and what they are as inputs.
-/

namespace EntityGraph

open Concrete

/-! ## What items say -/

namespace Concrete

/-- What an item of a parameter list says. A name can be missing where the source is faulty. -/
inductive Says (source : ByteArray) : Node → Parameter → Prop
  | name {node : Node} : node.label.kind = "identifier" →
    Says source node (.plain (node.label.text source))
  | typed {node : Node} : node.label.kind = "typed_parameter" →
    (∀ inner ∈ (items node.children).head?, inner.label.kind = "identifier") →
    Says source node (.ofName? (firstText? source node.children))
  | default {node : Node} : node.label.kind ∈ ["default_parameter", "typed_default_parameter"] →
    Says source node (.ofName? (text? source "name" node.children))
  | splat {node : Node} : node.label.kind = "list_splat_pattern" →
    Says source node (.splat (firstText? source node.children))
  | mapping {node : Node} : node.label.kind = "dictionary_splat_pattern" →
    Says source node (.mapping (firstText? source node.children))
  | typedSplat {node inner : Node} : node.label.kind = "typed_parameter" →
    (items node.children).head? = some inner → inner.label.kind = "list_splat_pattern" →
    Says source node (.splat (firstText? source inner.children))
  | typedMapping {node inner : Node} : node.label.kind = "typed_parameter" →
    (items node.children).head? = some inner → inner.label.kind = "dictionary_splat_pattern" →
    Says source node (.mapping (firstText? source inner.children))
  | keywordSeparator {node : Node} : node.label.kind = "keyword_separator" →
    Says source node .keywordSeparator
  | positionalSeparator {node : Node} : node.label.kind = "positional_separator" →
    Says source node .positionalSeparator

theorem annotated_of_ne {node : Node} (h : node.label.kind ≠ "typed_parameter") : annotated node = node :=
  if_neg h

/-- A typed parameter stands for itself if what it annotates is a name. -/
theorem annotated_of_identifier {node : Node}
    (h : ∀ inner ∈ (items node.children).head?, inner.label.kind = "identifier") :
    annotated node = node := by
  unfold annotated
  split
  · split
    · next inner rest hitems =>
      have hinner : inner.label.kind = "identifier" := h inner (by rw [hitems]; rfl)
      exact if_pos hinner
    · rfl
  · rfl

theorem annotated_of_typed {node inner : Node} (hkind : node.label.kind = "typed_parameter")
    (hhead : (items node.children).head? = some inner) (hinner : inner.label.kind ≠ "identifier") :
    annotated node = inner := by
  obtain ⟨rest, hitems⟩ := List.head?_eq_some_iff.mp hhead
  simp only [annotated, hkind, if_true, hitems, if_neg hinner]

variable (source : ByteArray)

theorem Says.ofNode_eq {node : Node} {parameter : Parameter} (h : Says source node parameter) :
    Parameter.ofNode source node = parameter := by
  cases h with
  | name hkind | splat hkind | mapping hkind | keywordSeparator hkind | positionalSeparator hkind =>
    have hself := annotated_of_ne (hkind.trans_ne (by decide))
    rw [Parameter.ofNode, hself]
    obtain ⟨label, children⟩ := node
    simp only [show label.kind = _ from hkind]
  | typed hkind hinner =>
    rw [Parameter.ofNode, annotated_of_identifier hinner]
    obtain ⟨label, children⟩ := node
    simp only [show label.kind = _ from hkind]
  | default hkind =>
    obtain ⟨label, children⟩ := node
    rcases List.mem_pair.mp hkind with hkind | hkind
    all_goals
      have hself := annotated_of_ne (hkind.trans_ne (by decide))
      rw [Parameter.ofNode, hself]
      simp only [show label.kind = _ from hkind]
  | @typedSplat inner hkind hhead hinner | @typedMapping inner hkind hhead hinner =>
    rw [Parameter.ofNode, annotated_of_typed hkind hhead (hinner.trans_ne (by decide))]
    obtain ⟨label, children⟩ := inner
    simp only [show label.kind = _ from hinner]

end Concrete

/-! ## Signatures -/

/-- What begins the parameters that are passed by keyword only. A splat takes all further positions, under
its name. -/
inductive Star where
  | separator
  | splat (name : Option String)

namespace Star

def parameter : Star → Parameter
  | separator => .keywordSeparator
  | splat name => .splat name

def name? : Star → Option String
  | separator => none
  | splat name => name

end Star

/-- The names of a parameter list: those at the front, those behind a positional separator, those behind
a star, and the name of the mapping. -/
structure Signature where
  front : List (Option String)
  slash : Option (List (Option String))
  star : Option (Star × List (Option String))
  mapping : Option (Option String)

/-- The name of a parameter that has one of its own. -/
def Concrete.Parameter.name? : Parameter → Option String
  | .plain name => some name
  | _ => none

namespace Signature

def slashRow (signature : Signature) : List Parameter :=
  match signature.slash with
  | none => []
  | some names => .positionalSeparator :: names.map .ofName?

def starRow (signature : Signature) : List Parameter :=
  match signature.star with
  | none => []
  | some (star, names) => star.parameter :: names.map .ofName?

/-- The row of parameters, from left to right. -/
def row (signature : Signature) : List Parameter :=
  signature.front.map .ofName? ++ (signature.slashRow ++ (signature.starRow ++
    signature.mapping.toList.map .mapping))

/-- The names by their place: a positional separator makes those before it positional, and those behind a
star are passed by keyword. -/
def grouped (signature : Signature) : Parameters where
  posonly := if signature.slash.isSome then signature.front.filterMap id else []
  args := (signature.slash.getD signature.front).filterMap id
  vararg := signature.star.bind fun group => group.1.name?
  kwonly := ((signature.star.map Prod.snd).getD []).filterMap id
  kwarg := signature.mapping.join

theorem filterMap_name?_ofName? (names : List (Option String)) :
    (names.map Parameter.ofName?).filterMap Parameter.name? = names.filterMap id := by
  rw [List.filterMap_map]
  refine List.filterMap_congr fun name _ => ?_
  cases name <;> rfl

/-- Each name of the row is in exactly one group, and the groups in their order have the names in theirs. -/
theorem filterMap_name?_row (signature : Signature) :
    signature.row.filterMap Parameter.name? =
      signature.grouped.posonly ++ signature.grouped.args ++ signature.grouped.kwonly := by
  obtain ⟨front, slash, star, mapping⟩ := signature
  have hmapping : (mapping.toList.map Parameter.mapping).filterMap Parameter.name? = [] := by
    cases mapping <;> rfl
  have hslash : (slashRow ⟨front, slash, star, mapping⟩).filterMap Parameter.name? =
      (slash.getD []).filterMap id := by
    cases slash with
    | none => rfl
    | some names => exact filterMap_name?_ofName? names
  have hstar : (starRow ⟨front, slash, star, mapping⟩).filterMap Parameter.name? =
      ((star.map Prod.snd).getD []).filterMap id := by
    rcases star with _ | ⟨_ | _, names⟩
    · rfl
    all_goals exact filterMap_name?_ofName? names
  rw [row, List.filterMap_append, List.filterMap_append, List.filterMap_append, hmapping, hslash, hstar,
    filterMap_name?_ofName?, List.append_nil, ← List.append_assoc]
  congr 1
  cases slash with
  | none => exact List.append_nil _
  | some names => rfl

end Signature

/-! ## What stretches of the row add -/

namespace Parameters

/-- Names are added to the group that names go to. -/
def withNames (params : Parameters) (keywordOnly : Bool) (names : List String) : Parameters :=
  if keywordOnly then { params with kwonly := params.kwonly ++ names }
  else { params with args := params.args ++ names }

theorem addAll_names (params : Parameters) (keywordOnly : Bool) (names : List (Option String))
    (rest : List Parameter) :
    addAll params keywordOnly (names.map Parameter.ofName? ++ rest) =
      addAll (params.withNames keywordOnly (names.filterMap id)) keywordOnly rest := by
  induction names generalizing params with
  | nil => cases keywordOnly <;> simp [withNames]
  | cons name names ih =>
    cases name with
    | none => exact ih params
    | some name =>
      have hadd : addAll params keywordOnly (.plain name :: (names.map Parameter.ofName? ++ rest)) =
          addAll (params.withNames keywordOnly [name]) keywordOnly
            (names.map Parameter.ofName? ++ rest) := by
        cases keywordOnly <;> rfl
      have htwo : (params.withNames keywordOnly [name]).withNames keywordOnly (names.filterMap id) =
          params.withNames keywordOnly (name :: names.filterMap id) := by
        cases keywordOnly <;> simp [withNames]
      rw [List.map_cons, List.cons_append, show Parameter.ofName? (some name) = .plain name from rfl, hadd,
        ih, htwo]
      rfl

/-- The names at the front are arguments until a separator makes them positional. -/
theorem addAll_slash (signature : Signature) (rest : List Parameter) :
    addAll ⟨[], signature.front.filterMap id, none, [], none⟩ false (signature.slashRow ++ rest) =
      addAll ⟨signature.grouped.posonly, signature.grouped.args, none, [], none⟩ false rest := by
  obtain ⟨front, slash, star, mapping⟩ := signature
  cases slash with
  | none => rfl
  | some names => exact addAll_names ⟨front.filterMap id, [], none, [], none⟩ false names rest

theorem addAll_star (signature : Signature) (posonly args : List String) (rest : List Parameter) :
    addAll ⟨posonly, args, none, [], none⟩ false (signature.starRow ++ rest) =
      addAll ⟨posonly, args, signature.grouped.vararg, signature.grouped.kwonly, none⟩
        signature.star.isSome rest := by
  obtain ⟨front, slash, star, mapping⟩ := signature
  rcases star with _ | ⟨_ | name, names⟩
  · rfl
  · exact addAll_names ⟨posonly, args, none, [], none⟩ true names rest
  · exact addAll_names ⟨posonly, args, name, [], none⟩ true names rest

theorem addAll_mapping (params : Parameters) (hnone : params.kwarg = none) (keywordOnly : Bool)
    (mapping : Option (Option String)) :
    addAll params keywordOnly (mapping.toList.map Parameter.mapping) =
      { params with kwarg := mapping.join } := by
  cases mapping with
  | none =>
    show params = { params with kwarg := none }
    rw [← hnone]
  | some name => rfl

theorem ofList_row (signature : Signature) : ofList signature.row = signature.grouped := by
  have hfront := addAll_names empty false signature.front
  rw [ofList, Signature.row, hfront]
  show addAll ⟨[], signature.front.filterMap id, none, [], none⟩ false _ = _
  rw [addAll_slash, addAll_star, addAll_mapping _ rfl]
  rfl

end Parameters

/-- A parameter list whose items say a signature is read as the groups of the signature: the names before
a positional separator, those between it and a star and those behind the star, each name in one of them
and all in the order of the source, with the names of the splat and of the mapping beside them. A function
with such parameters has those in the middle and the mapping as its inputs. -/
theorem Parameters.ofItems_grouped (source : ByteArray) {children : List Node} {signature : Signature}
    (h : List.Forall₂ (Says source) (items children) signature.row) :
    Parameters.ofItems source children = signature.grouped ∧
      signature.row.filterMap Parameter.name? =
        signature.grouped.posonly ++ signature.grouped.args ++ signature.grouped.kwonly ∧
      ∀ (header : FunctionHeader) (body : List Stmt),
        header.params = Parameters.ofItems source children →
          Function.inputs <$> Function.ofDefinition header body =
            (fun _ => signature.grouped.args ++ signature.grouped.kwarg.toList) <$>
              Stmt.processAll body := by
  have hrow : (items children).map (Parameter.ofNode source) = signature.row := by
    refine List.forall₂_eq_eq_eq ▸ List.forall₂_map_left_iff.mpr ?_
    exact h.imp fun node parameter hitem => hitem.ofNode_eq
  have hgrouped : Parameters.ofItems source children = signature.grouped := by
    rw [ofItems, hrow, ofList_row]
  refine ⟨hgrouped, signature.filterMap_name?_row, fun header body hparams => ?_⟩
  rw [Function.ofDefinition, hparams, hgrouped]
  cases Stmt.processAll body <;> rfl

/-- The splat in `(a, b: T, /, c=1, *r: T, d, **k)`, without its type. -/
def Concrete.sampleSplat : Node :=
  samplePart "list_splat_pattern" none 18 20 [samplePart "identifier" none 19 20 []]

/-- The parameters in `(a, b: T, /, c=1, *r: T, d, **k)`. -/
def Concrete.sampleParameters : List Node :=
  [samplePart "identifier" none 1 2 [],
    samplePart "typed_parameter" none 4 8
      [samplePart "identifier" none 4 5 [], samplePart "type" (some "type") 7 8 []],
    samplePart "positional_separator" none 10 11 [],
    samplePart "default_parameter" none 13 16
      [samplePart "identifier" (some "name") 13 14 [], samplePart "integer" (some "value") 15 16 []],
    samplePart "typed_parameter" none 18 23
      [sampleSplat, samplePart "type" (some "type") 22 23 []],
    samplePart "identifier" none 25 26 [],
    samplePart "dictionary_splat_pattern" none 28 31 [samplePart "identifier" none 30 31 []]]

def sampleSignature : Signature where
  front := [some "a", some "b"]
  slash := some [some "c"]
  star := some (.splat (some "r"), [some "d"])
  mapping := some (some "k")

theorem Parameters.ofItems_grouped_separators :
    List.Forall₂ (Says "(a, b: T, /, c=1, *r: T, d, **k)".toUTF8) (items sampleParameters)
        sampleSignature.row ∧
      Parameters.ofItems "(a, b: T, /, c=1, *r: T, d, **k)".toUTF8 sampleParameters =
        ⟨["a", "b"], ["c"], some "r", ["d"], some "k"⟩ := by
  have hitems : List.Forall₂ (Says "(a, b: T, /, c=1, *r: T, d, **k)".toUTF8) (items sampleParameters)
      sampleSignature.row := by
    refine .cons (.name rfl) (.cons (.typed rfl ?_) (.cons (.positionalSeparator rfl) (.cons (.default ?_)
      (.cons (@Says.typedSplat _ _ sampleSplat rfl rfl rfl)
        (.cons (.name rfl) (.cons (.mapping rfl) .nil))))))
    · rintro inner ⟨⟩
      rfl
    · exact List.mem_cons_self
  exact ⟨hitems, (Parameters.ofItems_grouped _ hitems).1⟩

end EntityGraph
