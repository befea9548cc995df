import EntityGraph.Proofs.Extraction.NestedClasses
import EntityGraph.Proofs.Extraction.Shape

/-!
# Members of classes

What each statement in the body of a class contributes to the class.

* `FirstsOf`: the first occurrences in a list, which `distinct` gives (`firstsOf_iff`);
* `constructorDefinition?`, `methodDefinition?`: the functions in the body of a class that construct, and
  those that do not;
* `constructorStmts`: the statements of the constructors of a class, each before those in its blocks;
* `Class.ofDefinition_partition`: the methods, gaps and attributes of a class come from the functions in
  its body that do not construct, the classes and the constructors, and from nothing else;
* `Class.ofDefinition_attributes_iff`: an attribute that a constructor assigns is recorded exactly if it
  is itself the target of a plain assignment, not in a tuple, a list or a starred target;
* `Class.ofDefinition_annotated_unrecorded`: the attribute of an annotated assignment is not recorded.
-/

namespace EntityGraph

/-! ## First occurrences -/

section Firsts

variable {α : Type} [DecidableEq α] {xs firsts : List α}

/-- The first occurrences in a list: each of its elements once, in the order in which they first occur. -/
structure FirstsOf (xs firsts : List α) : Prop where
  nodup : firsts.Nodup
  mem_iff : ∀ x, x ∈ firsts ↔ x ∈ xs
  inOrder : firsts.Pairwise fun x y => xs.idxOf x < xs.idxOf y

theorem mem_distinct {x : α} : x ∈ distinct xs ↔ x ∈ xs := by
  induction xs with
  | nil => rfl
  | cons first rest ih =>
    rw [distinct, List.mem_cons, List.mem_cons, List.mem_filter, ih, decide_eq_true_iff]
    by_cases h : x = first <;> simp [h]

theorem distinct_inOrder (xs : List α) :
    (distinct xs).Pairwise fun x y => xs.idxOf x < xs.idxOf y := by
  induction xs with
  | nil => exact List.Pairwise.nil
  | cons first rest ih =>
    -- What is left behind the first element comes one place later than in the rest.
    have hlater : ∀ x ∈ (distinct rest).filter (· ≠ first),
        (first :: rest).idxOf x = rest.idxOf x + 1 := by
      intro x hx
      have hne : x ≠ first := of_decide_eq_true (List.mem_filter.mp hx).2
      exact List.idxOf_cons_ne rest hne.symm
    rw [distinct, List.pairwise_cons]
    refine ⟨fun y hy => ?_, ?_⟩
    · rw [hlater y hy, List.idxOf_cons_self]
      omega
    · refine (ih.filter _).imp_of_mem fun hx hy hlt => ?_
      rw [hlater _ hx, hlater _ hy]
      omega

theorem distinct_firstsOf (xs : List α) : FirstsOf xs (distinct xs) :=
  ⟨distinct_nodup xs, fun _ => mem_distinct, distinct_inOrder xs⟩

theorem firstsOf_iff : FirstsOf xs firsts ↔ firsts = distinct xs := by
  constructor
  · intro h
    have hd := distinct_firstsOf xs
    have hperm : firsts.Perm (distinct xs) :=
      (List.perm_ext_iff_of_nodup h.nodup hd.nodup).mpr fun x => (h.mem_iff x).trans (hd.mem_iff x).symm
    exact hperm.eq_of_pairwise (fun x y _ _ hxy hyx => absurd hxy (Nat.lt_asymm hyx)) h.inOrder hd.inOrder
  · rintro rfl
    exact distinct_firstsOf xs

namespace FirstsOf

theorem idxOf_lt {x y : α} (h : FirstsOf xs firsts) (hx : x ∈ firsts) (hy : y ∈ firsts)
    (hlt : firsts.idxOf x < firsts.idxOf y) : xs.idxOf x < xs.idxOf y := by
  have hpair := List.pairwise_iff_getElem.mp h.inOrder _ _ (List.idxOf_lt_length_of_mem hx)
    (List.idxOf_lt_length_of_mem hy) hlt
  rwa [List.getElem_idxOf, List.getElem_idxOf] at hpair

/-- The first occurrences in a part of a list are those in the whole exactly if all elements are in the
part, and first occur in the whole in the same order. -/
theorem whole_iff {whole : List α} (h : FirstsOf xs firsts) (hsub : xs ⊆ whole) :
    FirstsOf whole firsts ↔
      whole ⊆ xs ∧ ∀ x ∈ xs, ∀ y ∈ xs, xs.idxOf x < xs.idxOf y → whole.idxOf x < whole.idxOf y := by
  constructor
  · intro hwhole
    refine ⟨fun x hx => (h.mem_iff x).mp ((hwhole.mem_iff x).mpr hx), fun x hx y hy hlt => ?_⟩
    have hx' := (h.mem_iff x).mpr hx
    have hy' := (h.mem_iff y).mpr hy
    refine hwhole.idxOf_lt hx' hy' ?_
    rcases Nat.lt_trichotomy (firsts.idxOf x) (firsts.idxOf y) with hbefore | hsame | hafter
    · exact hbefore
    · rw [(List.idxOf_inj hx').mp hsame] at hlt
      omega
    · have := h.idxOf_lt hy' hx' hafter
      omega
  · rintro ⟨hsubset, horder⟩
    refine ⟨h.nodup, fun x => ?_, ?_⟩
    · exact (h.mem_iff x).trans ⟨fun hx => hsub hx, fun hx => hsubset hx⟩
    · exact h.inOrder.imp_of_mem fun hx hy hlt =>
        horder _ ((h.mem_iff _).mp hx) _ ((h.mem_iff _).mp hy) hlt

end FirstsOf

end Firsts

/-! ## Statements of constructors -/

/-- What a plain assignment assigns to. -/
def Stmt.plainTargets : Stmt → List Expr
  | .assign targets _ _ => targets
  | _ => []

/-- The definition of a constructor: of a function in the body of a class that is named like one. -/
def constructorDefinition? (settings : Settings) : Stmt → Option (FunctionHeader × List Stmt)
  | .functionDef made inner => if settings.isConstructor made.name then some (made, inner) else none
  | _ => none

/-- The statements of the constructors in the body of a class, at every depth, each before those in its
blocks. -/
def constructorStmts (settings : Settings) (body : List Stmt) : List Stmt :=
  (body.filterMap (constructorDefinition? settings)).flatMap fun definition =>
    definition.2.flatMap Stmt.preorder

/-- The attributes of the object that are targets of plain assignments in constructors, as they are
met. -/
def plainAttributes (settings : Settings) (body : List Stmt) : List String :=
  ((constructorStmts settings body).flatMap Stmt.plainTargets).filterMap
    (attributeOf? settings.selfName)

theorem assignedBy_eq (selfName : String) (stmt : Stmt) :
    assignedBy selfName stmt = stmt.plainTargets.filterMap (attributeOf? selfName) := by
  cases stmt <;> rfl

variable {settings : Settings} {header : ClassHeader} {body : List Stmt}

theorem constructorBody?_eq (stmt : Stmt) :
    constructorBody? settings stmt = (constructorDefinition? settings stmt).map Prod.snd := by
  cases stmt with
  | functionDef made inner =>
    rw [constructorBody?, constructorDefinition?]
    split <;> rfl
  | _ => rfl

theorem attributesOf_eq : attributesOf settings body = distinct (plainAttributes settings body) := by
  have hassigned : assignedBy settings.selfName =
      fun stmt => stmt.plainTargets.filterMap (attributeOf? settings.selfName) :=
    funext (assignedBy_eq settings.selfName)
  have hbodies : body.filterMap (constructorBody? settings) =
      (body.filterMap (constructorDefinition? settings)).map Prod.snd := by
    rw [funext constructorBody?_eq, List.map_filterMap]
  rw [attributesOf, plainAttributes, constructorStmts, hassigned, hbodies, List.flatMap_map]
  simp only [Stmt.preorderAll_eq_flatMap, List.filterMap_flatMap, List.flatMap_assoc]

theorem attributeOf?_eq_some {selfName attr : String} {target : Expr} :
    attributeOf? selfName target = some attr ↔
      ∃ inner outer, target = .attribute (.name selfName inner) attr outer := by
  constructor
  · intro h
    unfold attributeOf? at h
    split at h
    · split at h
      · next hid => exact ⟨_, _, by rw [hid, Option.some.inj h]⟩
      · cases h
    · cases h
  · rintro ⟨inner, outer, rfl⟩
    exact if_pos rfl

theorem mem_plainAttributes {attr : String} : attr ∈ plainAttributes settings body ↔
    ∃ targets value line inner outer, .assign targets value line ∈ constructorStmts settings body ∧
      .attribute (.name settings.selfName inner) attr outer ∈ targets := by
  simp only [plainAttributes, List.mem_filterMap, List.mem_flatMap, attributeOf?_eq_some]
  constructor
  · rintro ⟨_, ⟨stmt, hstmt, htarget⟩, inner, outer, rfl⟩
    cases stmt with
    | assign targets value line => exact ⟨targets, value, line, inner, outer, hstmt, htarget⟩
    | _ => exact absurd htarget List.not_mem_nil
  · rintro ⟨targets, value, line, inner, outer, hstmt, htarget⟩
    exact ⟨_, ⟨_, hstmt, htarget⟩, inner, outer, rfl⟩

/-! ## Methods -/

/-- The definition of a method: of a function in the body of a class that does not construct. -/
def methodDefinition? (settings : Settings) : Stmt → Option (FunctionHeader × List Stmt)
  | .functionDef made inner => if settings.isConstructor made.name then none else some (made, inner)
  | _ => none

/-- Whether the statement defines a function or a class. -/
def Stmt.isDefinition : Stmt → Bool
  | .functionDef .. | .classDef .. => true
  | _ => false

theorem methodOf?_eq (stmt : Stmt) : methodOf? settings stmt =
    (methodDefinition? settings stmt).mapM fun definition =>
      Function.ofDefinition definition.1 definition.2 := by
  cases stmt with
  | functionDef made inner =>
    rw [methodOf?, methodDefinition?]
    split <;> rfl
  | _ => rfl

theorem filterMap_isDefinition {β : Type} {f : Stmt → Option β}
    (h : ∀ stmt : Stmt, stmt.isDefinition = false → f stmt = none) (body : List Stmt) :
    (body.filter Stmt.isDefinition).filterMap f = body.filterMap f := by
  rw [List.filterMap_filter]
  refine List.filterMap_congr fun stmt _ => ?_
  cases hd : stmt.isDefinition with
  | true => rfl
  | false => exact (h stmt hd).symm

/-- The methods of a class are built one by one, from the definitions of methods. -/
theorem Class.ofDefinition_eq (settings : Settings) (header : ClassHeader) (body : List Stmt) :
    Class.ofDefinition settings header body = do
      let methods ← (body.filterMap (methodDefinition? settings)).mapM fun definition =>
        Function.ofDefinition definition.1 definition.2
      return ⟨header.name, header.line, header.bases.filterMap baseName?, methods,
        attributesOf settings body⟩ := by
  rw [Class.ofDefinition, funext methodOf?_eq]
  exact mapM_mapM_bind _ _ body fun methods => pure (Class.mk header.name header.line
    (header.bases.filterMap baseName?) methods (attributesOf settings body))

theorem gapsOf_eq (header : ClassHeader) (body : List Stmt) :
    gapsOf header body = (body.filterMap Stmt.classHeader?).map fun nested =>
      .nestedClass header.name nested.name nested.line := by
  rw [gapsOf, List.map_filterMap]
  refine List.filterMap_congr fun stmt _ => ?_
  cases stmt <;> rfl

/-- The statements in the body of a class that are no definitions contribute nothing. -/
theorem Class.ofDefinition_filter (settings : Settings) (header : ClassHeader) (body : List Stmt) :
    Class.ofDefinition settings header (body.filter Stmt.isDefinition) =
      Class.ofDefinition settings header body := by
  have hmethods := filterMap_isDefinition (f := methodDefinition? settings)
    (fun stmt h => by cases stmt <;> first | rfl | cases h) body
  have hconstructors := filterMap_isDefinition (f := constructorBody? settings)
    (fun stmt h => by cases stmt <;> first | rfl | cases h) body
  rw [Class.ofDefinition_eq, Class.ofDefinition_eq, attributesOf, attributesOf, hmethods, hconstructors]

/-- The members of a class are exactly these. Its methods are built from the functions in its body that
do not construct, in order; its attributes are the first occurrences of those that plain assignments in
its constructors have as targets, at any depth of blocks, each statement before those in its blocks; its
gaps are the classes in its body, in order. No other statement of the body contributes anything. -/
theorem Class.ofDefinition_partition (settings : Settings) (header : ClassHeader) (body : List Stmt) :
    (∀ declared, Class.ofDefinition settings header body = .ok declared ↔ ∃ methods attributes,
        List.Forall₂ (fun definition method => Function.ofDefinition definition.1 definition.2 = .ok method)
          (body.filterMap (methodDefinition? settings)) methods ∧
        FirstsOf (plainAttributes settings body) attributes ∧
        declared = {
          name := header.name
          line := header.line
          superclasses := header.bases.filterMap baseName?
          methods := methods
          attributes := attributes }) ∧
      (∀ attr, attr ∈ plainAttributes settings body ↔ ∃ targets value line inner outer,
        .assign targets value line ∈ constructorStmts settings body ∧
          .attribute (.name settings.selfName inner) attr outer ∈ targets) ∧
      (∀ stmt : Stmt, stmt.preorder = stmt :: stmt.blocks.flatMap (·.flatMap Stmt.preorder)) ∧
      gapsOf header body = (body.filterMap Stmt.classHeader?).map (fun nested =>
        .nestedClass header.name nested.name nested.line) ∧
      Class.ofDefinition settings header (body.filter Stmt.isDefinition) =
        Class.ofDefinition settings header body ∧
      gapsOf header (body.filter Stmt.isDefinition) = gapsOf header body := by
  refine ⟨fun declared => ?_, fun _ => mem_plainAttributes, fun stmt => ?_, gapsOf_eq header body,
    ofDefinition_filter settings header body,
    filterMap_isDefinition (fun stmt h => by cases stmt <;> first | rfl | cases h) body⟩
  · rw [ofDefinition_eq, bind_eq_ok]
    simp only [pure_eq_ok, mapM_eq_ok, firstsOf_iff, attributesOf_eq]
    constructor
    · rintro ⟨methods, hmethods, rfl⟩
      exact ⟨methods, _, hmethods, rfl, rfl⟩
    · rintro ⟨methods, _, hmethods, rfl, rfl⟩
      exact ⟨methods, hmethods, rfl⟩
  · rw [Stmt.preorder_eq, funext Stmt.preorderAll_eq_flatMap]

/-- A function with these statements in the body of a class. -/
def memberFunction (name : String) (line : Nat) (body : List Stmt) : Stmt :=
  .functionDef ⟨name, ⟨[], ["self"], none, [], none⟩, [], false, line⟩ body

/-- An attribute of the object on a line. -/
def ownAttribute (attr : String) (line : Nat) : Expr :=
  .attribute (.name "self" line) attr line

/-- Two methods of one name, a nested class, and two constructors: one with `self.x = a` and, in a branch,
`self.y = a`; and one with `self.y = self.z = a`. -/
def sampleMembers : List Stmt :=
  [memberFunction "f" 2 [.other "Pass" 2],
    memberFunction "__init__" 3 [.assign [ownAttribute "x" 4] (.name "a" 4) 4,
      .branch (.name "a" 5) [.assign [ownAttribute "y" 6] (.name "a" 6) 6] [] 5],
    .classDef (sampleHeader "B" 7) [.other "Pass" 7],
    memberFunction "f" 8 [.other "Pass" 8],
    memberFunction "__new__" 9 [.assign [ownAttribute "y" 10, ownAttribute "z" 10] (.name "a" 10) 10]]

/-- Both methods stay, and the attributes are met in the first constructor before those in the second. -/
theorem Class.ofDefinition_partition_members : ∃ declared,
    Class.ofDefinition .default (sampleHeader "A" 1) sampleMembers = .ok declared ∧
      declared.methods.map (fun method => (method.name, method.line)) = [("f", 2), ("f", 8)] ∧
      declared.attributes = ["x", "y", "z"] ∧
      gapsOf (sampleHeader "A" 1) sampleMembers = [.nestedClass "A" "B" 7] := by
  obtain ⟨hdeclared, -, -, hgaps, -⟩ :=
    Class.ofDefinition_partition .default (sampleHeader "A" 1) sampleMembers
  have hmethods : List.Forall₂
      (fun definition method => Function.ofDefinition definition.1 definition.2 = .ok method)
      (sampleMembers.filterMap (methodDefinition? .default)) _ :=
    .cons rfl (.cons rfl .nil)
  have hattributes : FirstsOf (plainAttributes .default sampleMembers) ["x", "y", "z"] :=
    firstsOf_iff.mpr rfl
  exact ⟨_, (hdeclared _).mpr ⟨_, _, hmethods, hattributes, rfl⟩, rfl, rfl, hgaps⟩

/-! ## Attributes assigned in any form -/

namespace Expr

mutual

/-- What is in a target: tuples, lists and starred targets are opened, at any depth. -/
def targetLeaves : Expr → List Expr
  | .tuple elts _ | .list elts _ => targetLeavesOfAll elts
  | .starred value _ => targetLeaves value
  | target => [target]

def targetLeavesOfAll : List Expr → List Expr
  | [] => []
  | target :: rest => targetLeaves target ++ targetLeavesOfAll rest

end

end Expr

/-- What an assignment of a value assigns to, in any of its forms. -/
def Stmt.assignedTargets : Stmt → List Expr
  | .assign targets _ _ => targets
  | .augAssign target _ _ _ | .annAssign target _ (some _) _ => [target]
  | _ => []

/-- The attributes of the object that the constructors assign in any form, as they are met. -/
def assignedAttributes (settings : Settings) (body : List Stmt) : List String :=
  (((constructorStmts settings body).flatMap Stmt.assignedTargets).flatMap Expr.targetLeaves).filterMap
    (attributeOf? settings.selfName)

theorem plainAttributes_subset : plainAttributes settings body ⊆ assignedAttributes settings body := by
  intro attr hattr
  obtain ⟨targets, value, line, inner, outer, hstmt, htarget⟩ := mem_plainAttributes.mp hattr
  refine List.mem_filterMap.mpr ⟨_, ?_, attributeOf?_eq_some.mpr ⟨inner, outer, rfl⟩⟩
  exact List.mem_flatMap.mpr ⟨_, List.mem_flatMap.mpr ⟨_, hstmt, htarget⟩, by simp [Expr.targetLeaves]⟩

/-- Of the attributes that the constructors assign, those are recorded that are targets of a plain
assignment, each one once. They are all of them, in the order of their first assignments, exactly if
each is the target of a plain assignment and the first plain ones come in that order. -/
theorem Class.ofDefinition_attributes_iff {declared : Class}
    (h : Class.ofDefinition settings header body = .ok declared) :
    declared.attributes.Nodup ∧ declared.attributes ⊆ assignedAttributes settings body ∧
      (∀ attr ∈ assignedAttributes settings body, attr ∈ declared.attributes ↔
        ∃ targets value line inner outer, .assign targets value line ∈ constructorStmts settings body ∧
          .attribute (.name settings.selfName inner) attr outer ∈ targets) ∧
      (FirstsOf (assignedAttributes settings body) declared.attributes ↔
        assignedAttributes settings body ⊆ plainAttributes settings body ∧
          ∀ x ∈ plainAttributes settings body, ∀ y ∈ plainAttributes settings body,
            (plainAttributes settings body).idxOf x < (plainAttributes settings body).idxOf y →
              (assignedAttributes settings body).idxOf x < (assignedAttributes settings body).idxOf y) := by
  obtain ⟨methods, -, rfl⟩ := Class.ofDefinition_eq_ok.mp h
  have hfirsts : FirstsOf (plainAttributes settings body) (attributesOf settings body) :=
    firstsOf_iff.mpr attributesOf_eq
  refine ⟨hfirsts.nodup, fun attr hattr => ?_, fun attr _ => ?_, hfirsts.whole_iff plainAttributes_subset⟩
  · exact plainAttributes_subset ((hfirsts.mem_iff attr).mp hattr)
  · exact (hfirsts.mem_iff attr).trans mem_plainAttributes

/-- A class whose constructor has these statements. -/
def constructedBy (body : List Stmt) : List Stmt :=
  [memberFunction "__init__" 2 body]

/-- `self.x = a`, then `self.y, b = c`. -/
def sampleAssignments : List Stmt :=
  [.assign [ownAttribute "x" 3] (.name "a" 3) 3,
    .assign [.tuple [ownAttribute "y" 4, .name "b" 4] 4] (.name "c" 4) 4]

theorem Class.ofDefinition_attributes_tuple : ∃ declared,
    Class.ofDefinition .default (sampleHeader "A" 1) (constructedBy sampleAssignments) = .ok declared ∧
      "x" ∈ declared.attributes ∧ "y" ∈ assignedAttributes .default (constructedBy sampleAssignments) ∧
      ¬ FirstsOf (assignedAttributes .default (constructedBy sampleAssignments)) declared.attributes := by
  have hattributes := @Class.ofDefinition_attributes_iff .default (sampleHeader "A" 1)
    (constructedBy sampleAssignments) _ rfl
  have hassigned : assignedAttributes .default (constructedBy sampleAssignments) = ["x", "y"] := rfl
  have hplain : plainAttributes .default (constructedBy sampleAssignments) = ["x"] := rfl
  refine ⟨_, rfl, ?_, by simp [hassigned], fun hfirsts => ?_⟩
  · refine (hattributes.2.2.1 "x" (by simp [hassigned])).mpr ?_
    exact ⟨_, _, _, _, _, List.mem_cons_self, List.mem_cons_self⟩
  · have hall := (hattributes.2.2.2.mp hfirsts).1
    rw [hassigned, hplain] at hall
    exact absurd (hall (List.mem_cons_of_mem _ List.mem_cons_self)) (by decide)

/-- `self.x: int = a`. -/
def sampleAnnotated : List Stmt :=
  [.annAssign (ownAttribute "x" 3) (.name "int" 3) (some (.name "a" 3)) 3]

/-- A constructor that assigns an attribute with an annotation leaves the class without it. -/
theorem Class.ofDefinition_annotated_unrecorded : ∃ declared,
    Class.ofDefinition .default (sampleHeader "A" 1) (constructedBy sampleAnnotated) = .ok declared ∧
      "x" ∈ assignedAttributes .default (constructedBy sampleAnnotated) ∧ declared.attributes = [] ∧
      ¬ FirstsOf (assignedAttributes .default (constructedBy sampleAnnotated)) declared.attributes := by
  have hassigned : "x" ∈ assignedAttributes .default (constructedBy sampleAnnotated) := by decide
  refine ⟨_, rfl, hassigned, rfl, fun hfirsts => ?_⟩
  exact absurd ((hfirsts.mem_iff "x").mpr hassigned) (List.not_mem_nil)

end EntityGraph
