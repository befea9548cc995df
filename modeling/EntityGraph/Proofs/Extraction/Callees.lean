import EntityGraph.Extraction.References
import EntityGraph.Proofs.Result

/-!
# Callees of expressions

When taking the references of an expression fails, and with which error. `Expr.callees` lists the
callees that are judged on the way, in order; `Expr.Judges` says which they are apart from any order,
by the places whose references are taken (`Expr.Reads`).

* `error?_references`: the error is that of the first callee that no call may have;
* `mem_callees`: the list holds the callees of exactly the calls that are read;
* `references_fails_iff`: when an expression fails, and the error.
-/

namespace EntityGraph

/-! ## Callees of expressions -/

/-- The callees that a call may have: what is named, what is computed by an index, a call or an
operator, and what stands in a faulty piece of source. -/
def Expr.isExpectedCallee : Expr → Bool
  | .attribute .. | .name .. | .subscript .. | .call .. | .binOp .. => true
  | .other kind _ => kind = "ERROR"
  | _ => false

/-- The error that a callee causes. -/
def Expr.calleeFault? (callee : Expr) : Option UnexpectedCallee :=
  if callee.isExpectedCallee then none else some ⟨callee.kindName, callee.line⟩

/-- The error of the first callee that causes one. -/
def firstFault (callees : List Expr) : Option UnexpectedCallee :=
  callees.findSome? Expr.calleeFault?

namespace Expr

mutual

/-- The callees that are judged when the references of an expression are taken, in order: those in the
arguments of a call before its own, those of a conditional's test last. -/
def callees : Expr → List Expr
  | .binOp left _ right _ => callees left ++ callees right
  | .unaryOp _ operand _ => callees operand
  | .call func args keywords _ => calleesOfAll args ++ (calleesOfKeywords keywords ++ [func])
  | .attribute value _ _ => callees value
  | .subscript value index _ =>
    callees value ++ if index.isReference then callees index else []
  | .joinedStr values _ => calleesOfSegments values
  | .ifExp test body orelse _ => callees body ++ (callees orelse ++ callees test)
  | _ => []

def calleesOfAll : List Expr → List Expr
  | [] => []
  | expr :: rest => callees expr ++ calleesOfAll rest

def calleesOfKeywords : List Keyword → List Expr
  | [] => []
  | ⟨_, value⟩ :: rest => callees value ++ calleesOfKeywords rest

/-- Those in what is interpolated. -/
def calleesOfSegments : List Expr → List Expr
  | [] => []
  | .formattedValue value _ :: rest => callees value ++ calleesOfSegments rest
  | _ :: rest => calleesOfSegments rest

end

end Expr

theorem Expr.calleeFault?_eq_none {callee : Expr} :
    callee.calleeFault? = none ↔ callee.isExpectedCallee = true := by
  simp [calleeFault?]

theorem Expr.calleeFault?_eq_some {callee : Expr} {fault : UnexpectedCallee} :
    callee.calleeFault? = some fault ↔
      callee.isExpectedCallee = false ∧ fault = ⟨callee.kindName, callee.line⟩ := by
  cases h : callee.isExpectedCallee <;> simp [calleeFault?, h, eq_comm]

theorem firstFault_append (first second : List Expr) :
    firstFault (first ++ second) = (firstFault first).or (firstFault second) :=
  List.findSome?_append

theorem firstFault_singleton (callee : Expr) : firstFault [callee] = callee.calleeFault? := by
  cases h : callee.calleeFault? <;> simp [firstFault, h]

theorem firstFault_flatMap {α : Type} (f : α → List Expr) (xs : List α) :
    firstFault (xs.flatMap f) = xs.findSome? fun x => firstFault (f x) := by
  induction xs with
  | nil => rfl
  | cons x xs ih =>
    rw [List.flatMap_cons, firstFault_append, ih, List.findSome?_cons]
    cases firstFault (f x) <;> rfl

theorem firstFault_eq_some {callees : List Expr} {fault : UnexpectedCallee} :
    firstFault callees = some fault ↔ ∃ before callee after, callees = before ++ callee :: after ∧
      (∀ earlier ∈ before, earlier.isExpectedCallee = true) ∧ callee.isExpectedCallee = false ∧
      fault = ⟨callee.kindName, callee.line⟩ := by
  simp only [firstFault, List.findSome?_eq_some_iff, Expr.calleeFault?_eq_none,
    Expr.calleeFault?_eq_some]
  constructor
  · rintro ⟨before, callee, after, heq, hfault, hbefore⟩
    exact ⟨before, callee, after, heq, hbefore, hfault⟩
  · rintro ⟨before, callee, after, heq, hbefore, hfault⟩
    exact ⟨before, callee, after, heq, hfault, hbefore⟩

theorem exists_firstFault_iff {callees : List Expr} :
    (∃ fault, firstFault callees = some fault) ↔
      ∃ callee ∈ callees, callee.isExpectedCallee = false := by
  simp only [firstFault, ← Option.isSome_iff_exists, List.findSome?_isSome_iff, Expr.calleeFault?,
    Option.isSome_ite', Bool.not_eq_true]

/-! ### Errors of references -/

/-- The callee alone decides whether a call fails, not what its arguments refer to. -/
theorem error?_callOf (func : Expr) (takenVar : List Reference) :
    error? (Call.of? func takenVar) = func.calleeFault? := by
  cases func with
  | other kind line =>
    by_cases h : kind = "ERROR" <;>
      simp [Call.of?, Expr.calleeFault?, Expr.isExpectedCallee, error?, Expr.kindName, Expr.line, h]
  | _ => rfl

namespace Expr

mutual

/-- Taking references fails with the first fault among the callees that are judged on the way. -/
theorem error?_references : ∀ e : Expr, error? e.references = firstFault e.callees
  | .binOp left _ right _ => by
    rw [references, error?_bind fun _ => error?_bind_pure _ _, error?_references left,
      error?_references right, callees, firstFault_append]
  | .unaryOp _ operand _ => by rw [references, error?_references operand, callees]
  | .call func args keywords _ => by
    have judged : ∀ a b, error? (do
        let made ← Call.of? func (a ++ b)
        return (made.map Reference.call).toList) = func.calleeFault? := fun a b => by
      rw [error?_bind_pure, error?_callOf]
    rw [references, error?_bind fun _ => error?_bind fun _ => judged _ _,
      error?_referencesOfAll args, error?_referencesOfKeywords keywords, callees,
      firstFault_append, firstFault_append, firstFault_singleton]
  | .attribute value attr _ => by
    rw [references, error?_bind_pure _ fun owner => [Reference.attribute (.of value owner) attr],
      error?_references value, callees]
  | .subscript value index _ => by
    cases h : index.isReference with
    | true =>
      simp only [references, callees, h, if_true, firstFault_append]
      rw [error?_bind fun _ => error?_bind_pure _ _, error?_references value, error?_references index]
    | false =>
      simp only [references, callees, h, Bool.false_eq_true, if_false, List.append_nil]
      rw [← error?_references value]
      exact error?_bind_pure _ _
  | .joinedStr values _ => by rw [references, error?_referencesOfSegments values, callees]
  | .ifExp test body orelse _ => by
    rw [references, error?_bind fun _ => error?_bind fun _ => error?_bind_pure _ _,
      error?_references body, error?_references orelse, error?_references test, callees,
      firstFault_append, firstFault_append]
  | .name .. | .boolOp .. | .compare .. | .slice .. | .formattedValue .. | .constant .. | .tuple ..
  | .list .. | .set .. | .dict .. | .comprehension .. | .lambda .. | .await .. | .yield ..
  | .yieldFrom .. | .starred .. | .namedExpr .. | .other .. => rfl

theorem error?_referencesOfAll :
    ∀ exprs : List Expr, error? (referencesOfAll exprs) = firstFault (calleesOfAll exprs)
  | [] => rfl
  | expr :: rest => by
    rw [referencesOfAll, error?_bind fun _ => error?_bind_pure _ _, error?_references expr,
      error?_referencesOfAll rest, calleesOfAll, firstFault_append]

theorem error?_referencesOfKeywords :
    ∀ keywords : List Keyword,
      error? (referencesOfKeywords keywords) = firstFault (calleesOfKeywords keywords)
  | [] => rfl
  | ⟨_, value⟩ :: rest => by
    rw [referencesOfKeywords, error?_bind fun _ => error?_bind_pure _ _, error?_references value,
      error?_referencesOfKeywords rest, calleesOfKeywords, firstFault_append]

theorem error?_referencesOfSegments :
    ∀ values : List Expr,
      error? (referencesOfSegments values) = firstFault (calleesOfSegments values)
  | [] => rfl
  | value :: rest => by
    cases value with
    | formattedValue value _ =>
      rw [referencesOfSegments, error?_bind fun _ => error?_bind_pure _ _, error?_references value,
        error?_referencesOfSegments rest, calleesOfSegments, firstFault_append]
    | _ => exact error?_referencesOfSegments rest

end

end Expr

/-! ### Places that are read -/

/-- The second expression stands in the first at a place whose references are taken. Callees, bare
literals, comparisons, collections and the other kinds that are not looked into have no such places
below them. -/
inductive Expr.Reads : Expr → Expr → Prop
  | self (e : Expr) : Reads e e
  | left {left right e : Expr} {op : String} {line : Nat} :
    Reads left e → Reads (.binOp left op right line) e
  | right {left right e : Expr} {op : String} {line : Nat} :
    Reads right e → Reads (.binOp left op right line) e
  | operand {operand e : Expr} {op : String} {line : Nat} :
    Reads operand e → Reads (.unaryOp op operand line) e
  | argument {func arg e : Expr} {args : List Expr} {keywords : List Keyword} {line : Nat} :
    arg ∈ args → Reads arg e → Reads (.call func args keywords line) e
  | keyword {func value e : Expr} {name : Option String} {args : List Expr}
    {keywords : List Keyword} {line : Nat} :
    ⟨name, value⟩ ∈ keywords → Reads value e → Reads (.call func args keywords line) e
  | receiver {value e : Expr} {attr : String} {line : Nat} :
    Reads value e → Reads (.attribute value attr line) e
  | base {value index e : Expr} {line : Nat} : Reads value e → Reads (.subscript value index line) e
  | index {value index e : Expr} {line : Nat} :
    index.isReference = true → Reads index e → Reads (.subscript value index line) e
  | segment {value e : Expr} {values : List Expr} {line inner : Nat} :
    .formattedValue value inner ∈ values → Reads value e → Reads (.joinedStr values line) e
  | body {test body orelse e : Expr} {line : Nat} : Reads body e → Reads (.ifExp test body orelse line) e
  | orelse {test body orelse e : Expr} {line : Nat} :
    Reads orelse e → Reads (.ifExp test body orelse line) e
  | test {test body orelse e : Expr} {line : Nat} : Reads test e → Reads (.ifExp test body orelse line) e

/-- The callee of a call that is read in the expression. -/
def Expr.Judges (e callee : Expr) : Prop :=
  ∃ args keywords line, e.Reads (.call callee args keywords line)

namespace Expr

theorem mem_calleesOfAll {callee : Expr} {exprs : List Expr} :
    callee ∈ calleesOfAll exprs ↔ ∃ expr ∈ exprs, callee ∈ expr.callees := by
  induction exprs with
  | nil => simp [calleesOfAll]
  | cons expr rest ih => simp [calleesOfAll, ih]

theorem mem_calleesOfKeywords {callee : Expr} {keywords : List Keyword} :
    callee ∈ calleesOfKeywords keywords ↔ ∃ keyword ∈ keywords, callee ∈ keyword.value.callees := by
  induction keywords with
  | nil => simp [calleesOfKeywords]
  | cons keyword rest ih =>
    cases keyword
    simp [calleesOfKeywords, ih]

theorem mem_calleesOfSegments {callee : Expr} {values : List Expr} :
    callee ∈ calleesOfSegments values ↔
      ∃ value line, .formattedValue value line ∈ values ∧ callee ∈ value.callees := by
  induction values with
  | nil => simp [calleesOfSegments]
  | cons value rest ih =>
    by_cases hv : ∃ inner line, value = .formattedValue inner line
    · obtain ⟨inner, line, rfl⟩ := hv
      simp only [calleesOfSegments, List.mem_append, ih, List.mem_cons, formattedValue.injEq]
      constructor
      · rintro (h | ⟨v, l, hv, h⟩)
        · exact ⟨inner, line, .inl ⟨rfl, rfl⟩, h⟩
        · exact ⟨v, l, .inr hv, h⟩
      · rintro ⟨v, l, ⟨rfl, rfl⟩ | hv, h⟩
        · exact .inl h
        · exact .inr ⟨v, l, hv, h⟩
    · rw [calleesOfSegments, ih]
      · constructor
        · rintro ⟨v, l, hm, h⟩
          exact ⟨v, l, List.mem_cons_of_mem _ hm, h⟩
        · rintro ⟨v, l, hm, h⟩
          rcases List.mem_cons.mp hm with rfl | hm
          · exact absurd ⟨v, l, rfl⟩ hv
          · exact ⟨v, l, hm, h⟩
      · exact fun v l e => hv ⟨v, l, e⟩

/-- What is read in an expression is judged with it. -/
theorem Reads.callees_subset {e inner : Expr} (h : e.Reads inner) : inner.callees ⊆ e.callees := by
  induction h with
  | self => exact List.Subset.refl _
  | left _ ih | body _ ih | base _ ih => exact fun _ hc => List.mem_append_left _ (ih hc)
  | right _ ih => exact fun _ hc => List.mem_append_right _ (ih hc)
  | operand _ ih | receiver _ ih => exact ih
  | argument harg _ ih =>
    exact fun _ hc => List.mem_append_left _ (mem_calleesOfAll.mpr ⟨_, harg, ih hc⟩)
  | keyword hkey _ ih =>
    exact fun _ hc => List.mem_append_right _
      (List.mem_append_left _ (mem_calleesOfKeywords.mpr ⟨_, hkey, ih hc⟩))
  | index href _ ih =>
    intro c hc
    simp only [callees, href, if_true]
    exact List.mem_append_right _ (ih hc)
  | segment hseg _ ih => exact fun _ hc => mem_calleesOfSegments.mpr ⟨_, _, hseg, ih hc⟩
  | orelse _ ih => exact fun _ hc => List.mem_append_right _ (List.mem_append_left _ (ih hc))
  | test _ ih => exact fun _ hc => List.mem_append_right _ (List.mem_append_right _ (ih hc))

/-- A place that is read in a part is read in the whole, if the part is. -/
theorem Judges.of_part {e part callee : Expr} (h : ∀ inner, part.Reads inner → e.Reads inner) :
    part.Judges callee → e.Judges callee
  | ⟨args, keywords, line, hr⟩ => ⟨args, keywords, line, h _ hr⟩

mutual

theorem judges_of_mem_callees : ∀ (e : Expr) {callee : Expr}, callee ∈ e.callees → e.Judges callee
  | .binOp left _ right _, _, h => by
    rcases List.mem_append.mp h with h | h
    · exact .of_part (fun _ => .left) (judges_of_mem_callees left h)
    · exact .of_part (fun _ => .right) (judges_of_mem_callees right h)
  | .unaryOp _ operand _, _, h => .of_part (fun _ => .operand) (judges_of_mem_callees operand h)
  | .call func args keywords line, callee, h => by
    simp only [callees, List.mem_append, List.mem_singleton] at h
    rcases h with h | h | rfl
    · obtain ⟨arg, harg, hj⟩ := judges_of_mem_calleesOfAll args h
      exact .of_part (fun _ => .argument harg) hj
    · obtain ⟨⟨key, value⟩, hkey, hj⟩ := judges_of_mem_calleesOfKeywords keywords h
      exact .of_part (fun _ => .keyword hkey) hj
    · exact ⟨args, keywords, line, .self _⟩
  | .attribute value _ _, _, h => .of_part (fun _ => .receiver) (judges_of_mem_callees value h)
  | .subscript value index _, _, h => by
    simp only [callees, List.mem_append] at h
    rcases h with h | h
    · exact .of_part (fun _ => .base) (judges_of_mem_callees value h)
    · cases href : index.isReference with
      | true =>
        rw [href, if_pos rfl] at h
        exact .of_part (fun _ => .index href) (judges_of_mem_callees index h)
      | false => simp [href] at h
  | .joinedStr values _, _, h => by
    obtain ⟨value, line, hseg, hj⟩ := judges_of_mem_calleesOfSegments values h
    exact .of_part (fun _ => .segment hseg) hj
  | .ifExp test body orelse _, _, h => by
    simp only [callees, List.mem_append] at h
    rcases h with h | h | h
    · exact .of_part (fun _ => .body) (judges_of_mem_callees body h)
    · exact .of_part (fun _ => .orelse) (judges_of_mem_callees orelse h)
    · exact .of_part (fun _ => .test) (judges_of_mem_callees test h)
termination_by structural e => e

theorem judges_of_mem_calleesOfAll : ∀ (exprs : List Expr) {callee : Expr},
    callee ∈ calleesOfAll exprs → ∃ expr ∈ exprs, expr.Judges callee
  | expr :: rest, _, h => by
    rcases List.mem_append.mp h with h | h
    · exact ⟨expr, List.mem_cons_self, judges_of_mem_callees expr h⟩
    · obtain ⟨e, he, hj⟩ := judges_of_mem_calleesOfAll rest h
      exact ⟨e, List.mem_cons_of_mem _ he, hj⟩

theorem judges_of_mem_calleesOfKeywords : ∀ (keywords : List Keyword) {callee : Expr},
    callee ∈ calleesOfKeywords keywords → ∃ keyword ∈ keywords, keyword.value.Judges callee
  | ⟨key, value⟩ :: rest, _, h => by
    rcases List.mem_append.mp h with h | h
    · exact ⟨⟨key, value⟩, List.mem_cons_self, judges_of_mem_callees value h⟩
    · obtain ⟨k, hk, hj⟩ := judges_of_mem_calleesOfKeywords rest h
      exact ⟨k, List.mem_cons_of_mem _ hk, hj⟩

theorem judges_of_mem_calleesOfSegments : ∀ (values : List Expr) {callee : Expr},
    callee ∈ calleesOfSegments values →
      ∃ value line, .formattedValue value line ∈ values ∧ value.Judges callee
  | value :: rest, _, h => by
    cases value with
    | formattedValue value line =>
      rcases List.mem_append.mp h with h | h
      · exact ⟨value, line, List.mem_cons_self, judges_of_mem_callees value h⟩
      · obtain ⟨v, l, hv, hj⟩ := judges_of_mem_calleesOfSegments rest h
        exact ⟨v, l, List.mem_cons_of_mem _ hv, hj⟩
    | _ =>
      obtain ⟨v, l, hv, hj⟩ := judges_of_mem_calleesOfSegments rest h
      exact ⟨v, l, List.mem_cons_of_mem _ hv, hj⟩

end

theorem mem_callees {e callee : Expr} : callee ∈ e.callees ↔ e.Judges callee := by
  refine ⟨judges_of_mem_callees e, ?_⟩
  rintro ⟨args, keywords, line, h⟩
  exact h.callees_subset (by simp [callees])

/-- Taking references fails exactly if some call that is read in the expression has a callee that no call
may have. The error is then that of the first such callee in the order of evaluation, which lists the
callees of just these calls. A dictionary that an attribute is taken of has no calls that are read. -/
theorem references_fails_iff (e : Expr) :
    ((∃ fault, e.references = .error fault) ↔ ∃ callee args keywords line,
      e.Reads (.call callee args keywords line) ∧ callee.isExpectedCallee = false) ∧
    (∀ fault, e.references = .error fault ↔ ∃ before callee after,
      e.callees = before ++ callee :: after ∧
        (∀ earlier ∈ before, earlier.isExpectedCallee = true) ∧ callee.isExpectedCallee = false ∧
        fault = ⟨callee.kindName, callee.line⟩) ∧
    ∀ callee, callee ∈ e.callees ↔ ∃ args keywords line, e.Reads (.call callee args keywords line) := by
  refine ⟨?_, fun fault => ?_, fun callee => mem_callees⟩
  · simp only [eq_error_iff, error?_references, exists_firstFault_iff, mem_callees]
    constructor
    · rintro ⟨callee, ⟨args, keywords, line, hread⟩, hunexpected⟩
      exact ⟨callee, args, keywords, line, hread, hunexpected⟩
    · rintro ⟨callee, args, keywords, line, hread, hunexpected⟩
      exact ⟨callee, ⟨args, keywords, line, hread⟩, hunexpected⟩
  · rw [eq_error_iff, error?_references, firstFault_eq_some]

end Expr

end EntityGraph
