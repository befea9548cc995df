import EntityGraph.Program.Dump
import EntityGraph.Program.Stmt

/-!
# Programs with other line numbers

`Expr.renumber` and `Stmt.renumber` change every line of a program, and nothing else. Lines of sources
are 64-bit words: `Stmt.HasWordLines` says that cutting them to words changes none.

* `isReference_renumber`: whether an expression is a reference does not depend on lines;
* `dump_renumber`: neither does its dump.
-/

namespace EntityGraph

/-- The number cut to 64 bits. -/
def toWord (line : Nat) : Nat :=
  line % 0x10000000000000000

namespace Expr

mutual

/-- The expression with `f` applied to its line and to the lines below it. -/
def renumber (f : Nat → Nat) : Expr → Expr
  | .name id line => .name id (f line)
  | .attribute value attr line => .attribute (renumber f value) attr (f line)
  | .call func args keywords line =>
    .call (renumber f func) (renumberAll f args) (renumberKeywords f keywords) (f line)
  | .binOp left op right line => .binOp (renumber f left) op (renumber f right) (f line)
  | .unaryOp op operand line => .unaryOp op (renumber f operand) (f line)
  | .boolOp op values line => .boolOp op (renumberAll f values) (f line)
  | .compare left ops comparators line =>
    .compare (renumber f left) ops (renumberAll f comparators) (f line)
  | .ifExp test body orelse line =>
    .ifExp (renumber f test) (renumber f body) (renumber f orelse) (f line)
  | .subscript value index line => .subscript (renumber f value) (renumber f index) (f line)
  | .slice lower upper step line =>
    .slice (renumberPart f lower) (renumberPart f upper) (renumberPart f step) (f line)
  | .joinedStr values line => .joinedStr (renumberAll f values) (f line)
  | .formattedValue value line => .formattedValue (renumber f value) (f line)
  | .constant value line => .constant value (f line)
  | .tuple elts line => .tuple (renumberAll f elts) (f line)
  | .list elts line => .list (renumberAll f elts) (f line)
  | .set elts line => .set (renumberAll f elts) (f line)
  | .dict keys values line => .dict (renumberParts f keys) (renumberAll f values) (f line)
  | .comprehension kind line => .comprehension kind (f line)
  | .lambda line => .lambda (f line)
  | .await value line => .await (renumber f value) (f line)
  | .yield value line => .yield (renumberPart f value) (f line)
  | .yieldFrom value line => .yieldFrom (renumber f value) (f line)
  | .starred value line => .starred (renumber f value) (f line)
  | .namedExpr target value line => .namedExpr (renumber f target) (renumber f value) (f line)
  | .other kind line => .other kind (f line)

def renumberAll (f : Nat → Nat) : List Expr → List Expr
  | [] => []
  | expr :: rest => renumber f expr :: renumberAll f rest

def renumberKeywords (f : Nat → Nat) : List Keyword → List Keyword
  | [] => []
  | ⟨arg, value⟩ :: rest => ⟨arg, renumber f value⟩ :: renumberKeywords f rest

/-- A part that may be absent. -/
def renumberPart (f : Nat → Nat) : Option Expr → Option Expr
  | none => none
  | some expr => some (renumber f expr)

def renumberParts (f : Nat → Nat) : List (Option Expr) → List (Option Expr)
  | [] => []
  | part :: rest => renumberPart f part :: renumberParts f rest

end

variable (f : Nat → Nat)

theorem renumberAll_eq_map (exprs : List Expr) : renumberAll f exprs = exprs.map (renumber f) := by
  induction exprs with
  | nil => rfl
  | cons expr rest ih => rw [renumberAll, ih, List.map_cons]

theorem renumberPart_eq_map (part : Option Expr) : renumberPart f part = part.map (renumber f) := by
  cases part <;> rfl

/-! ## What does not depend on lines -/

theorem isReference_renumber (e : Expr) : (e.renumber f).isReference = e.isReference := by
  cases e <;> rfl

mutual

theorem dump_renumber : ∀ e : Expr, (e.renumber f).dump = e.dump
  | .name .. | .constant .. | .comprehension .. | .lambda .. | .yield none _ | .other .. => rfl
  | .attribute value _ _ => by simp only [renumber, dump.eq_def (.attribute ..), dump_renumber value]
  | .unaryOp _ value _ => by simp only [renumber, dump.eq_def (.unaryOp ..), dump_renumber value]
  | .formattedValue value _ => by
    simp only [renumber, dump.eq_def (.formattedValue ..), dump_renumber value]
  | .await value _ => by simp only [renumber, dump.eq_def (.await ..), dump_renumber value]
  | .yieldFrom value _ => by simp only [renumber, dump.eq_def (.yieldFrom ..), dump_renumber value]
  | .starred value _ => by simp only [renumber, dump.eq_def (.starred ..), dump_renumber value]
  | .yield (some value) _ => by
    simp only [renumber, renumberPart, dump.eq_def (.yield (some _) _), dump_renumber value]
  | .binOp first _ second _ => by
    simp only [renumber, dump.eq_def (.binOp ..), dump_renumber first, dump_renumber second]
  | .subscript first second _ => by
    simp only [renumber, dump.eq_def (.subscript ..), dump_renumber first, dump_renumber second]
  | .namedExpr first second _ => by
    simp only [renumber, dump.eq_def (.namedExpr ..), dump_renumber first, dump_renumber second]
  | .boolOp _ values _ => by simp only [renumber, dump.eq_def (.boolOp ..), dumpAll_renumber values]
  | .joinedStr values _ => by simp only [renumber, dump.eq_def (.joinedStr ..), dumpAll_renumber values]
  | .tuple values _ => by simp only [renumber, dump.eq_def (.tuple ..), dumpAll_renumber values]
  | .list values _ => by simp only [renumber, dump.eq_def (.list ..), dumpAll_renumber values]
  | .set values _ => by simp only [renumber, dump.eq_def (.set ..), dumpAll_renumber values]
  | .call func args keywords _ => by
    simp only [renumber, dump.eq_def (.call ..), dump_renumber func, dumpAll_renumber args,
      dumpKeywords_renumber keywords]
  | .compare left _ comparators _ => by
    simp only [renumber, dump.eq_def (.compare ..), dump_renumber left, dumpAll_renumber comparators]
  | .ifExp test body orelse _ => by
    simp only [renumber, dump.eq_def (.ifExp ..), dump_renumber test, dump_renumber body,
      dump_renumber orelse]
  | .slice lower upper step _ => by
    simp only [renumber, dump.eq_def (.slice ..), dumpPart_renumber lower, dumpPart_renumber upper,
      dumpPart_renumber step]
  | .dict keys values _ => by
    simp only [renumber, dump.eq_def (.dict ..), dumpParts_renumber keys, dumpAll_renumber values]

theorem dumpAll_renumber : ∀ exprs : List Expr, dumpAll (renumberAll f exprs) = dumpAll exprs
  | [] => rfl
  | expr :: rest => by rw [renumberAll, dumpAll, dumpAll, dump_renumber expr, dumpAll_renumber rest]

theorem dumpKeywords_renumber :
    ∀ keywords : List Keyword, dumpKeywords (renumberKeywords f keywords) = dumpKeywords keywords
  | [] => rfl
  | ⟨none, value⟩ :: rest => by
    simp only [renumberKeywords, dumpKeywords.eq_def (⟨none, _⟩ :: _), dump_renumber value,
      dumpKeywords_renumber rest]
  | ⟨some _, value⟩ :: rest => by
    simp only [renumberKeywords, dumpKeywords.eq_def (⟨some _, _⟩ :: _), dump_renumber value,
      dumpKeywords_renumber rest]

theorem dumpPart_renumber : ∀ part : Option Expr, dumpPart (renumberPart f part) = dumpPart part
  | none => rfl
  | some expr => dump_renumber expr

theorem dumpParts_renumber :
    ∀ parts : List (Option Expr), dumpParts (renumberParts f parts) = dumpParts parts
  | [] => rfl
  | part :: rest => by
    rw [renumberParts, dumpParts, dumpParts, dumpPart_renumber part, dumpParts_renumber rest]

end

end Expr

/-! ## Statements -/

def FunctionHeader.renumber (f : Nat → Nat) (header : FunctionHeader) : FunctionHeader :=
  { header with decorators := Expr.renumberAll f header.decorators, line := f header.line }

def ClassHeader.renumber (f : Nat → Nat) (header : ClassHeader) : ClassHeader :=
  { header with
    bases := Expr.renumberAll f header.bases
    keywords := Expr.renumberKeywords f header.keywords
    decorators := Expr.renumberAll f header.decorators
    line := f header.line }

namespace Stmt

mutual

/-- The statement with `f` applied to its line and to the lines below it. -/
def renumber (f : Nat → Nat) : Stmt → Stmt
  | .functionDef header body => .functionDef (header.renumber f) (renumberAll f body)
  | .classDef header body => .classDef (header.renumber f) (renumberAll f body)
  | .assign targets value line => .assign (Expr.renumberAll f targets) (value.renumber f) (f line)
  | .augAssign target op value line => .augAssign (target.renumber f) op (value.renumber f) (f line)
  | .annAssign target annotation value line =>
    .annAssign (target.renumber f) (Expr.renumber f annotation) (Expr.renumberPart f value) (f line)
  | .expr value line => .expr (value.renumber f) (f line)
  | .return value line => .return (Expr.renumberPart f value) (f line)
  | .branch test body orelse line =>
    .branch (test.renumber f) (renumberAll f body) (renumberAll f orelse) (f line)
  | .while test body orelse line =>
    .while (test.renumber f) (renumberAll f body) (renumberAll f orelse) (f line)
  | .for target iter body orelse isAsync line =>
    .for (target.renumber f) (iter.renumber f) (renumberAll f body) (renumberAll f orelse) isAsync
      (f line)
  | .try body handlers orelse finalbody line =>
    .try (renumberAll f body) (renumberHandlers f handlers) (renumberAll f orelse)
      (renumberAll f finalbody) (f line)
  | .with items body isAsync line =>
    .with (Expr.renumberAll f items) (renumberAll f body) isAsync (f line)
  | .importModules names line => .importModules names (f line)
  | .importFrom module names level line => .importFrom module names level (f line)
  | .other kind line => .other kind (f line)

def renumberAll (f : Nat → Nat) : List Stmt → List Stmt
  | [] => []
  | stmt :: rest => renumber f stmt :: renumberAll f rest

def renumberHandlers (f : Nat → Nat) : List Handler → List Handler
  | [] => []
  | ⟨kind, name, body, line⟩ :: rest =>
    ⟨Expr.renumberPart f kind, name, renumberAll f body, f line⟩ :: renumberHandlers f rest

end

theorem renumberAll_eq_map (f : Nat → Nat) (body : List Stmt) :
    renumberAll f body = body.map (renumber f) := by
  induction body with
  | nil => rfl
  | cons stmt rest ih => rw [renumberAll, ih, List.map_cons]

/-- Every line of the statements is a 64-bit word: none changes if all are cut to words. -/
def HasWordLines (body : List Stmt) : Prop :=
  renumberAll toWord body = body

end Stmt

end EntityGraph
