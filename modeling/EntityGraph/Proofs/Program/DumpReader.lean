import EntityGraph.Proofs.Program.Renumber
import EntityGraph.Proofs.Program.WellFormed
import EntityGraph.Proofs.Text.Lossy
import EntityGraph.Proofs.Text.Reader

/-!
# Reading dumps

A dump escapes nothing, yet it can be read back where its texts keep out of the way of the characters
around them (`Expr.TextsFit`). `DumpReader.expr` is a reader of dumps: it takes the name of a kind, and
then the parts that the kind has. Lines are not in a dump, so it makes every line zero.

* `Expr.dump_eq`: a dump is the name of a kind, and its fields in parentheses;
* `DumpReader.whole_takes`: a reader of the parts of an expression makes one of the expression;
* `DumpReader.expr_takes`: the dump of a readable expression is read back;
* `Expr.dump_eq_dump_iff`: readable expressions have the same dump where they differ in lines alone.
-/

namespace EntityGraph

open Text (Reader Reads ReadsAt Refuses RefusesAt)

/-! ## Texts in dumps -/

/-- Whether the character can come right after a part of an expression. -/
def isClose (c : Char) : Bool :=
  c == ',' || c == ')' || c == ']'

/-- Whether the character can come right after the name of a kind, or after a part. -/
def isBreak (c : Char) : Bool :=
  c == '(' || isClose c

def isQuote (c : Char) : Bool :=
  c == '\''

/-- The text can stand in quotes. -/
def Unquoted (text : String) : Prop :=
  '\'' ∉ text.toList

/-- The literal can be told from the text of its dump. -/
def Constant.TextFits : Constant → Prop
  | .str text => Unquoted text
  | .bytes content => ∃ text, Text.decode? ⟨content.toArray⟩ = some text ∧ Unquoted text
  | .number spelling =>
    (∃ c ∈ spelling.toList.head?, c.isDigit = true ∨ c = '.') ∧ ')' ∉ spelling.toList
  | .bool _ | .ellipsis | .none => True

namespace Expr

/-- The kinds with a constructor of their own that a dump can write by their name alone. -/
def bareKinds : List String :=
  ["Lambda", "ListComp", "SetComp", "DictComp", "GeneratorExp", "Yield"]

/-- The texts that the expression holds itself keep out of the way of the characters around them: no
quotes in what is quoted, and no breaks in the name of a kind, which a word never has. -/
def TextsFit : Expr → Prop
  | .name text _ | .attribute _ text _ | .binOp _ text _ _ | .unaryOp text _ _ | .boolOp text _ _ =>
    Unquoted text
  | .call _ _ keywords _ => ∀ keyword ∈ keywords, ∀ arg ∈ keyword.arg, Unquoted arg
  | .compare _ ops _ _ => ∀ op ∈ ops, Unquoted op
  | .constant value _ => value.TextFits
  | .other kind _ => (∀ c ∈ kind.toList, isBreak c = false) ∧ kind ∉ bareKinds
  | _ => True

/-- The texts of the expression fit, at every depth. -/
def Readable (e : Expr) : Prop :=
  ∀ part : Expr, part.OccursIn e → part.TextsFit

theorem readable_iff {e : Expr} : e.Readable ↔ e.TextsFit ∧ ∀ child ∈ e.children, child.Readable :=
  forall_occursIn_iff

theorem readable_of_leaf {e : Expr} (hfit : e.TextsFit) (hleaf : e.children = []) : e.Readable :=
  readable_iff.mpr ⟨hfit, fun child hc => by rw [hleaf] at hc; cases hc⟩

theorem sizeOf_lt_of_mem_children {e child : Expr} (h : child ∈ e.children) : sizeOf child < sizeOf e := by
  have hlist : ∀ exprs : List Expr, child ∈ exprs → sizeOf child < sizeOf exprs :=
    fun _ => List.sizeOf_lt_of_mem
  have hpart : ∀ part : Option Expr, part = some child → sizeOf child < sizeOf part := by
    rintro _ rfl
    exact Nat.lt_add_of_pos_left Nat.one_pos
  have hparts : ∀ parts : List (Option Expr), child ∈ parts.filterMap id →
      sizeOf child < sizeOf parts := by
    intro parts hc
    obtain ⟨part, hmem, hsome⟩ := List.mem_filterMap.mp hc
    exact Nat.lt_trans (hpart part hsome) (List.sizeOf_lt_of_mem hmem)
  have hkeywords : ∀ keywords : List Keyword, child ∈ keywords.map Keyword.value →
      sizeOf child < sizeOf keywords := by
    intro keywords hc
    obtain ⟨⟨arg, value⟩, hmem, rfl⟩ := List.mem_map.mp hc
    have hsize := List.sizeOf_lt_of_mem hmem
    rw [Keyword.mk.sizeOf_spec] at hsize
    show sizeOf value < sizeOf keywords
    omega
  cases e <;> simp only [children, List.mem_cons, List.mem_append, List.not_mem_nil, or_false,
    Option.mem_toList] at h <;> simp <;> grind

/-! ## The fields of a dump -/

/-- What a dump has after the name of a kind and the parenthesis. -/
def fields : Expr → String
  | .name id _ => "id='" ++ (id ++ "')")
  | .attribute value attr _ => "value=" ++ (value.dump ++ (", attr='" ++ (attr ++ "')")))
  | .call func args keywords _ =>
    "func=" ++ (func.dump ++ (", args=[" ++ ((joined (dumpAll args) ++ "], keywords=[") ++
      (joined (dumpKeywords keywords) ++ "])"))))
  | .binOp left op right _ =>
    "left=" ++ (left.dump ++ (", op='" ++ ((op ++ "', right=") ++ (right.dump ++ ")"))))
  | .unaryOp op operand _ => "op='" ++ ((op ++ "', operand=") ++ (operand.dump ++ ")"))
  | .boolOp op values _ => "op='" ++ ((op ++ "', values=[") ++ (joined (dumpAll values) ++ "])"))
  | .compare left ops comparators _ =>
    "left=" ++ (left.dump ++ (", ops=[" ++
      ((joined (ops.map fun op => "'" ++ op ++ "'") ++ "], comparators=[") ++
        (joined (dumpAll comparators) ++ "])"))))
  | .ifExp test body orelse _ =>
    "test=" ++ (test.dump ++ (", body=" ++ (body.dump ++ (", orelse=" ++ (orelse.dump ++ ")")))))
  | .subscript value index _ => "value=" ++ (value.dump ++ (", slice=" ++ (index.dump ++ ")")))
  | .slice lower upper step _ =>
    "lower=" ++ ((dumpPart lower ++ ", upper=") ++ ((dumpPart upper ++ ", step=") ++
      (dumpPart step ++ ")")))
  | .constant value _ => "value=" ++ (value.dump ++ ")")
  | .joinedStr values _ => "values=[" ++ (joined (dumpAll values) ++ "])")
  | .tuple elts _ | .list elts _ | .set elts _ => "elts=[" ++ (joined (dumpAll elts) ++ "])")
  | .dict keys values _ =>
    "keys=[" ++ ((joined (dumpParts keys) ++ "], values=[") ++ (joined (dumpAll values) ++ "])"))
  | .formattedValue value _ | .await value _ | .yield (some value) _ | .yieldFrom value _
  | .starred value _ => "value=" ++ (value.dump ++ ")")
  | .namedExpr target value _ => "target=" ++ (target.dump ++ (", value=" ++ (value.dump ++ ")")))
  | .yield none _ | .comprehension .. | .lambda _ | .other .. => ")"

/-- Whether the expression is written by the name of its kind alone. -/
def isBare : Expr → Bool
  | .yield none _ | .comprehension .. | .lambda _ | .other .. => true
  | _ => false

theorem dump_eq (e : Expr) : e.dump = e.kindName ++ "(" ++ e.fields := by
  -- The first literal of a dump is cut in three: the name, the parenthesis, and the first field.
  cases e with
  | yield value line => cases value <;> (rw [dump.eq_def]; simp only [fields, String.append_assoc]; rfl)
  | _ => rw [dump.eq_def]; simp only [fields, String.append_assoc]; rfl

theorem dumpAll_eq_map (exprs : List Expr) : dumpAll exprs = exprs.map dump := by
  induction exprs with
  | nil => rfl
  | cons expr rest ih => rw [dumpAll, ih, List.map_cons]

end Expr

/-! ## The reader -/

namespace DumpReader

open Text.Reader

/-- The rest of a text in quotes, and the word after it, which begins with the quote. -/
def quoted (close : String) : Reader String :=
  before (token isQuote) close

/-- The literal that is spelled without quotes. -/
def ofSpelling (spelling : String) : Constant :=
  if spelling = "True" then .bool true
  else if spelling = "False" then .bool false
  else if spelling = "Ellipsis" then .ellipsis
  else if spelling = "None" then .none
  else .number spelling

/-- A literal, and the parenthesis after it. -/
def constant : Reader Constant :=
  (do
    word "'"
    let text ← quoted "')"
    return .str text) <|>
  (do
    word "b'"
    let text ← quoted "')"
    return .bytes text.toByteArray.data.toList) <|>
  (do
    let spelling ← before (token (· == ')')) ")"
    return ofSpelling spelling)

def operator : Reader String := do
  word "'"
  quoted "'"

section Parts

variable (item : Reader Expr)

/-- A part that may be absent. -/
def part : Reader (Option Expr) :=
  (do
    let value ← item
    return some value) <|>
  (do
    word "None"
    return none)

def keyword : Reader Keyword := do
  word "keyword("
  (do
    word "arg='"
    let arg ← quoted "', value="
    let value ← item
    word ")"
    return ⟨some arg, value⟩) <|>
  (do
    word "value="
    let value ← item
    word ")"
    return ⟨none, value⟩)

/-- The fields of a kind that has one part. -/
def one (field : String) (make : Expr → Expr) : Reader Expr := do
  word field
  let value ← item
  word ")"
  return make value

/-- The fields of a kind that has two parts. -/
def two (first second : String) (make : Expr → Expr → Expr) : Reader Expr := do
  word first
  let left ← item
  word second
  let right ← item
  word ")"
  return make left right

/-- The fields of a kind that has a list of parts. -/
def many (field : String) (make : List Expr → Expr) : Reader Expr := do
  word field
  let elts ← items item "])"
  return make elts

/-- The fields of the kind, and the parenthesis after them. -/
def fields (kind : String) : Reader Expr :=
  match kind with
  | "Name" => do
    word "id='"
    let id ← quoted "')"
    return .name id 0
  | "Attribute" => do
    word "value="
    let value ← item
    word ", attr='"
    let attr ← quoted "')"
    return .attribute value attr 0
  | "Call" => do
    word "func="
    let func ← item
    word ", args=["
    let args ← items item "], keywords=["
    let keywords ← items (keyword item) "])"
    return .call func args keywords 0
  | "BinOp" => do
    word "left="
    let left ← item
    word ", op='"
    let op ← quoted "', right="
    let right ← item
    word ")"
    return .binOp left op right 0
  | "UnaryOp" => do
    word "op='"
    let op ← quoted "', operand="
    let operand ← item
    word ")"
    return .unaryOp op operand 0
  | "BoolOp" => do
    word "op='"
    let op ← quoted "', values=["
    let values ← items item "])"
    return .boolOp op values 0
  | "Compare" => do
    word "left="
    let left ← item
    word ", ops=["
    let ops ← items operator "], comparators=["
    let comparators ← items item "])"
    return .compare left ops comparators 0
  | "IfExp" => do
    word "test="
    let test ← item
    word ", body="
    let body ← item
    word ", orelse="
    let orelse ← item
    word ")"
    return .ifExp test body orelse 0
  | "Subscript" => two item "value=" ", slice=" (.subscript · · 0)
  | "Slice" => do
    word "lower="
    let lower ← before (part item) ", upper="
    let upper ← before (part item) ", step="
    let step ← before (part item) ")"
    return .slice lower upper step 0
  | "JoinedStr" => many item "values=[" (.joinedStr · 0)
  | "FormattedValue" => one item "value=" (.formattedValue · 0)
  | "Constant" => do
    word "value="
    let value ← constant
    return .constant value 0
  | "Tuple" => many item "elts=[" (.tuple · 0)
  | "List" => many item "elts=[" (.list · 0)
  | "Set" => many item "elts=[" (.set · 0)
  | "Dict" => do
    word "keys=["
    let keys ← items (part item) "], values=["
    let values ← items item "])"
    return .dict keys values 0
  | "Await" => one item "value=" (.await · 0)
  | "Yield" => one item "value=" (fun value => .yield (some value) 0)
  | "YieldFrom" => one item "value=" (.yieldFrom · 0)
  | "Starred" => one item "value=" (.starred · 0)
  | "NamedExpr" => two item "target=" ", value=" (.namedExpr · · 0)
  | _ => failure

end Parts

/-- The expression that is written by the name of its kind alone. -/
def bare (kind : String) : Expr :=
  match kind with
  | "Yield" => .yield none 0
  | "Lambda" => .lambda 0
  | "ListComp" => .comprehension .list 0
  | "SetComp" => .comprehension .set 0
  | "DictComp" => .comprehension .dict 0
  | "GeneratorExp" => .comprehension .generator 0
  | kind => .other kind 0

/-- An expression, of parts that `item` reads. -/
def whole (item : Reader Expr) : Reader Expr := do
  let kind ← before (token isBreak) "("
  (do word ")"; return bare kind) <|> fields item kind

/-- An expression that is no deeper than `depth`. -/
def expr : Nat → Reader Expr
  | 0 => failure
  | depth + 1 => whole (expr depth)

/-! ## What is read -/

theorem quoted_reads {text close : String} (htext : Unquoted text)
    (hclose : close.toList.head? = some '\'') : Reads (quoted close) (text ++ close) text := by
  refine (ReadsAt.token fun c hc => ?_).before ⟨'\'', hclose, rfl⟩
  exact beq_eq_false_iff_ne.mpr fun h => htext (h ▸ hc)

theorem operator_reads {op : String} (h : Unquoted op) : Reads operator ("'" ++ op ++ "'") op := by
  rw [String.append_assoc]
  exact (Reads.word "'").bind (quoted_reads h rfl)

theorem unquoted_reads (spelling : String) {c : Char} (hc : spelling.toList.head? = some c)
    (hquote : '\'' ≠ c) (hbytes : 'b' ≠ c) (hclose : ')' ∉ spelling.toList) :
    Reads constant (spelling ++ ")") (ofSpelling spelling) := by
  refine .orElse_right (((Refuses.word rfl hc hquote).append _).bind _) ?_
  refine .orElse_right (((Refuses.word rfl hc hbytes).append _).bind _) ?_
  have htoken : ∀ c ∈ spelling.toList, (c == ')') = false := fun c hc =>
    beq_eq_false_iff_ne.mpr fun h => hclose (h ▸ hc)
  exact ((ReadsAt.token htoken).before ⟨')', rfl, rfl⟩).bind_pure ofSpelling

/-- A number is told from the other literals by its first character. -/
theorem number_reads {spelling : String} (h : (Constant.number spelling).TextFits) :
    Reads constant (spelling ++ ")") (.number spelling) := by
  obtain ⟨⟨c, hc, hnumber⟩, hclose⟩ := h
  have hne : ∀ d : Char, ¬ (d.isDigit = true ∨ d = '.') → d ≠ c := fun d hd h => hd (h ▸ hnumber)
  have hword : ∀ w d, w.toList.head? = some d → ¬ (d.isDigit = true ∨ d = '.') → spelling ≠ w := by
    rintro w d hd hnot rfl
    exact hne d hnot (Option.some.inj (hd.symm.trans hc))
  have hspelling : ofSpelling spelling = .number spelling := by
    rw [ofSpelling, if_neg (hword "True" 'T' rfl (by decide)), if_neg (hword "False" 'F' rfl (by decide)),
      if_neg (hword "Ellipsis" 'E' rfl (by decide)), if_neg (hword "None" 'N' rfl (by decide))]
  rw [← hspelling]
  exact unquoted_reads spelling hc (hne _ (by decide)) (hne _ (by decide)) hclose

theorem constant_reads {value : Constant} (h : value.TextFits) :
    Reads constant (value.dump ++ ")") value := by
  cases value with
  | str text =>
    show Reads constant ("'" ++ text ++ "'" ++ ")") (.str text)
    rw [String.append_assoc, String.append_assoc]
    exact .orElse_left ((Reads.word "'").bind ((quoted_reads h rfl).bind_pure Constant.str))
  | bytes content =>
    obtain ⟨text, hdecode, htext⟩ := h
    have hcontent : text.toByteArray.data.toList = content := by rw [Text.toByteArray_of_decode? hdecode]
    show Reads constant ("b'" ++ Text.decodeLossy content ++ "'" ++ ")") (.bytes content)
    rw [Text.decodeLossy_eq_of_decode? hdecode, ← hcontent, String.append_assoc, String.append_assoc]
    refine .orElse_right (((Refuses.word rfl rfl (by decide)).append _).bind _) (.orElse_left ?_)
    exact (Reads.word "b'").bind ((quoted_reads htext rfl).bind_pure fun text : String =>
      Constant.bytes text.toByteArray.data.toList)
  | number spelling => exact number_reads h
  | bool value =>
    cases value with
    | true => exact unquoted_reads "True" rfl (by decide) (by decide) (by decide)
    | false => exact unquoted_reads "False" rfl (by decide) (by decide) (by decide)
  | ellipsis => exact unquoted_reads "Ellipsis" rfl (by decide) (by decide) (by decide)
  | none => exact unquoted_reads "None" rfl (by decide) (by decide) (by decide)

/-! ## Parts -/

/-- The reader takes the expression off its dump, with every line zero. -/
abbrev Takes (item : Reader Expr) (e : Expr) : Prop :=
  Reads item e.dump (e.renumber fun _ => 0)

/-- The reader takes nothing off a word alone. -/
def RefusesWords (item : Reader Expr) : Prop :=
  ∀ text : String, (∀ c ∈ text.toList, isBreak c = false) → RefusesAt isClose item text

section Parts

variable {item : Reader Expr}

theorem RefusesWords.empty (h : RefusesWords item) : RefusesAt isClose item "" :=
  h "" (List.forall_mem_nil _)

theorem part_reads (hwords : RefusesWords item) {value : Option Expr}
    (hvalue : ∀ e ∈ value, Takes item e) :
    ReadsAt isClose (part item) (Expr.dumpPart value) (Expr.renumberPart (fun _ => 0) value) := by
  cases value with
  | none =>
    -- What is absent is no dump: the name of a kind has a parenthesis after it.
    refine .orElse_right ((hwords "None" (by simp [isBreak, isClose])).bind _) (Reads.readsAt ?_ isClose)
    exact (Reads.word "None").bind_pure fun _ => none
  | some e => exact Reads.readsAt (.orElse_left ((hvalue e rfl).bind_pure some)) isClose

theorem parts_read (hwords : RefusesWords item) {parts : List (Option Expr)}
    (h : ∀ part ∈ parts, ∀ e ∈ part, Takes item e) :
    List.Forall₂ (ReadsAt isClose (part item)) (Expr.dumpParts parts)
      (Expr.renumberParts (fun _ => 0) parts) := by
  induction parts with
  | nil => exact .nil
  | cons part rest ih =>
    exact .cons (part_reads hwords (h part List.mem_cons_self))
      (ih fun part hpart => h part (List.mem_cons_of_mem _ hpart))

theorem keyword_none_reads {value : Expr} (hvalue : Takes item value) :
    Reads (keyword item) ("keyword(value=" ++ value.dump ++ ")") ⟨none, value.renumber fun _ => 0⟩ := by
  have htext : "keyword(value=" ++ value.dump ++ ")" = "keyword(" ++ ("value=" ++ (value.dump ++ ")")) := by
    simp only [String.append_assoc]
    rfl
  rw [htext]
  refine (Reads.word "keyword(").bind (.orElse_right ?_ ?_)
  · exact ((Refuses.word rfl rfl (by decide)).append _).bind _
  · exact (Reads.word "value=").bind (hvalue.bind ((Reads.word ")").bind_pure fun _ => Keyword.mk none _))

theorem keyword_some_reads {arg : String} {value : Expr} (harg : Unquoted arg)
    (hvalue : Takes item value) : Reads (keyword item)
      ("keyword(arg='" ++ arg ++ "', value=" ++ value.dump ++ ")")
      ⟨some arg, value.renumber fun _ => 0⟩ := by
  have htext : "keyword(arg='" ++ arg ++ "', value=" ++ value.dump ++ ")" =
      "keyword(" ++ ("arg='" ++ ((arg ++ "', value=") ++ (value.dump ++ ")"))) := by
    simp only [String.append_assoc]
    rfl
  rw [htext]
  refine (Reads.word "keyword(").bind (.orElse_left ((Reads.word "arg='").bind ?_))
  exact (quoted_reads harg rfl).bind (hvalue.bind ((Reads.word ")").bind_pure fun _ =>
    Keyword.mk (some arg) _))

theorem keywords_read {keywords : List Keyword}
    (hargs : ∀ keyword ∈ keywords, ∀ arg ∈ keyword.arg, Unquoted arg)
    (h : ∀ keyword ∈ keywords, Takes item keyword.value) :
    List.Forall₂ (ReadsAt isClose (keyword item)) (Expr.dumpKeywords keywords)
      (Expr.renumberKeywords (fun _ => 0) keywords) := by
  induction keywords with
  | nil => exact .nil
  | cons first rest ih =>
    obtain ⟨arg, value⟩ := first
    have hvalue : Takes item value := h ⟨arg, value⟩ List.mem_cons_self
    have hrest := ih (fun keyword hk => hargs keyword (List.mem_cons_of_mem _ hk))
      (fun keyword hk => h keyword (List.mem_cons_of_mem _ hk))
    cases arg with
    | none => exact .cons ((keyword_none_reads hvalue).readsAt isClose) hrest
    | some arg =>
      have harg : Unquoted arg := hargs ⟨some arg, value⟩ List.mem_cons_self arg rfl
      exact .cons ((keyword_some_reads harg hvalue).readsAt isClose) hrest

theorem operators_read {ops : List String} (h : ∀ op ∈ ops, Unquoted op) :
    List.Forall₂ (ReadsAt isClose operator) (ops.map fun op => "'" ++ op ++ "'") ops := by
  rw [List.forall₂_map_left_iff, List.forall₂_same]
  exact fun op hop => (operator_reads (h op hop)).readsAt isClose

theorem operator_refusesAt : RefusesAt isClose operator "" :=
  (RefusesAt.word rfl rfl).bind _

theorem part_refusesAt (h : RefusesWords item) : RefusesAt isClose (part item) "" :=
  (h.empty.bind _).orElse ((RefusesAt.word rfl rfl).bind _)

theorem keyword_refusesAt : RefusesAt isClose (keyword item) "" :=
  (RefusesAt.word rfl rfl).bind _

theorem items_read {α : Type} {item : Reader α} {close : String} {texts : List String} {values : List α}
    (hclose : close.toList.head? = some ']') (hitems : List.Forall₂ (ReadsAt isClose item) texts values)
    (hrefuse : RefusesAt isClose item "") : Reads (items item close) (Expr.joined texts ++ close) values :=
  .items rfl rfl hclose hitems hrefuse

theorem all_read (hwords : RefusesWords item) {exprs : List Expr} (h : ∀ e ∈ exprs, Takes item e)
    {close : String} (hclose : close.toList.head? = some ']') :
    Reads (items item close) (Expr.joined (Expr.dumpAll exprs) ++ close)
      (Expr.renumberAll (fun _ => 0) exprs) := by
  refine items_read hclose ?_ hwords.empty
  rw [Expr.dumpAll_eq_map, Expr.renumberAll_eq_map, List.forall₂_map_left_iff, List.forall₂_map_right_iff,
    List.forall₂_same]
  exact fun e he => (h e he).readsAt isClose

end Parts

/-! ## Expressions -/

section Whole

variable {item : Reader Expr}

theorem kindName_word {e : Expr} (h : e.TextsFit) : ∀ c ∈ e.kindName.toList, isBreak c = false := by
  cases e with
  | other kind line => exact h.1
  | comprehension kind line =>
    cases kind <;> simp [Expr.kindName, ComprehensionKind.kindName, isBreak, isClose]
  | _ => simp [Expr.kindName, isBreak, isClose]

/-- The name of the kind is taken first, up to the parenthesis. -/
theorem kind_reads {e : Expr} (h : e.TextsFit) :
    Reads (before (token isBreak) "(") (e.kindName ++ "(") e.kindName :=
  (ReadsAt.token (kindName_word h)).before ⟨'(', rfl, rfl⟩

theorem whole_refusesWords : RefusesWords (whole item) := by
  intro text htext
  have hends : ∀ c, isClose c = true → isBreak c = true := fun c hc => by rw [isBreak, hc, Bool.or_true]
  exact ((ReadsAt.token htext).bind_refusesAt hends ((RefusesAt.word rfl rfl).bind _)).bind _

theorem expr_refusesWords (depth : Nat) : RefusesWords (expr depth) := by
  cases depth with
  | zero => exact fun _ _ _ _ _ => rfl
  | succ depth => exact whole_refusesWords

theorem one_reads {field : String} {make : Expr → Expr} {e : Expr} (h : Takes item e) :
    Reads (one item field make) (field ++ (e.dump ++ ")")) (make (e.renumber fun _ => 0)) :=
  (Reads.word field).bind (h.bind ((Reads.word ")").bind_pure fun _ => make _))

theorem two_reads {first second : String} {make : Expr → Expr → Expr} {e₁ e₂ : Expr}
    (h₁ : Takes item e₁) (h₂ : Takes item e₂) :
    Reads (two item first second make) (first ++ (e₁.dump ++ (second ++ (e₂.dump ++ ")"))))
      (make (e₁.renumber fun _ => 0) (e₂.renumber fun _ => 0)) := by
  refine (Reads.word first).bind (h₁.bind ((Reads.word second).bind (h₂.bind ?_)))
  exact (Reads.word ")").bind_pure fun _ => make _ _

theorem many_reads (hwords : RefusesWords item) {field : String} {make : List Expr → Expr}
    {exprs : List Expr} (h : ∀ e ∈ exprs, Takes item e) :
    Reads (many item field make) (field ++ (Expr.joined (Expr.dumpAll exprs) ++ "])"))
      (make (Expr.renumberAll (fun _ => 0) exprs)) :=
  (Reads.word field).bind ((all_read hwords h rfl).bind_pure make)

theorem call_reads (hwords : RefusesWords item) {func : Expr} {args : List Expr} {keywords : List Keyword}
    {line : Nat} (hfit : (Expr.call func args keywords line).TextsFit) (hfunc : Takes item func)
    (hargs : ∀ arg ∈ args, Takes item arg)
    (hkeywords : ∀ keyword ∈ keywords, Takes item keyword.value) :
    Reads (fields item "Call") (Expr.call func args keywords line).fields
      ((Expr.call func args keywords line).renumber fun _ => 0) := by
  refine (Reads.word "func=").bind (hfunc.bind ((Reads.word ", args=[").bind ?_))
  refine (all_read hwords hargs rfl).bind ?_
  exact (items_read rfl (keywords_read hfit hkeywords) keyword_refusesAt).bind_pure (Expr.call _ _ · 0)

theorem compare_reads (hwords : RefusesWords item) {left : Expr} {ops : List String}
    {comparators : List Expr} {line : Nat} (hops : ∀ op ∈ ops, Unquoted op) (hleft : Takes item left)
    (hcomparators : ∀ value ∈ comparators, Takes item value) :
    Reads (fields item "Compare") (Expr.compare left ops comparators line).fields
      ((Expr.compare left ops comparators line).renumber fun _ => 0) := by
  refine (Reads.word "left=").bind (hleft.bind ((Reads.word ", ops=[").bind ?_))
  refine (items_read rfl (operators_read hops) operator_refusesAt).bind ?_
  exact (all_read hwords hcomparators rfl).bind_pure (Expr.compare _ ops · 0)

theorem slice_reads (hwords : RefusesWords item) {lower upper step : Option Expr} {line : Nat}
    (hlower : ∀ e ∈ lower, Takes item e) (hupper : ∀ e ∈ upper, Takes item e)
    (hstep : ∀ e ∈ step, Takes item e) :
    Reads (fields item "Slice") (Expr.slice lower upper step line).fields
      ((Expr.slice lower upper step line).renumber fun _ => 0) := by
  refine (Reads.word "lower=").bind ?_
  refine ((part_reads hwords hlower).before ⟨',', rfl, rfl⟩).bind ?_
  refine ((part_reads hwords hupper).before ⟨',', rfl, rfl⟩).bind ?_
  exact ((part_reads hwords hstep).before ⟨')', rfl, rfl⟩).bind_pure (Expr.slice _ _ · 0)

theorem dict_reads (hwords : RefusesWords item) {keys : List (Option Expr)} {values : List Expr}
    {line : Nat} (hkeys : ∀ key ∈ keys, ∀ e ∈ key, Takes item e)
    (hvalues : ∀ value ∈ values, Takes item value) :
    Reads (fields item "Dict") (Expr.dict keys values line).fields
      ((Expr.dict keys values line).renumber fun _ => 0) := by
  refine (Reads.word "keys=[").bind ?_
  refine (items_read rfl (parts_read hwords hkeys) (part_refusesAt hwords)).bind ?_
  exact (all_read hwords hvalues rfl).bind_pure (Expr.dict _ · 0)

/-- The fields of an expression are read by the reader of its kind. -/
theorem fields_read (hwords : RefusesWords item) {e : Expr} (hbare : e.isBare = false) (hfit : e.TextsFit)
    (h : ∀ child ∈ e.children, Takes item child) :
    Reads (fields item e.kindName) e.fields (e.renumber fun _ => 0) := by
  match e with
  | .name id line => exact (Reads.word "id='").bind ((quoted_reads hfit rfl).bind_pure (Expr.name · 0))
  | .attribute value attr line =>
    have hvalue : Takes item value := h value (List.mem_singleton_self _)
    refine (Reads.word "value=").bind (hvalue.bind ((Reads.word ", attr='").bind ?_))
    exact (quoted_reads hfit rfl).bind_pure (Expr.attribute _ · 0)
  | .binOp left op right line =>
    have hleft : Takes item left := h left List.mem_cons_self
    have hright : Takes item right := h right (List.mem_cons_of_mem _ List.mem_cons_self)
    refine (Reads.word "left=").bind (hleft.bind ((Reads.word ", op='").bind ?_))
    refine (quoted_reads hfit rfl).bind (hright.bind ?_)
    exact (Reads.word ")").bind_pure fun _ => Expr.binOp _ op _ 0
  | .unaryOp op operand line =>
    have hoperand : Takes item operand := h operand (List.mem_singleton_self _)
    refine (Reads.word "op='").bind ((quoted_reads hfit rfl).bind (hoperand.bind ?_))
    exact (Reads.word ")").bind_pure fun _ => Expr.unaryOp op _ 0
  | .boolOp op values line =>
    refine (Reads.word "op='").bind ((quoted_reads hfit rfl).bind ?_)
    exact (all_read hwords h rfl).bind_pure (Expr.boolOp op · 0)
  | .ifExp test body orelse line =>
    have htest : Takes item test := h test List.mem_cons_self
    have hbody : Takes item body := h body (List.mem_cons_of_mem _ List.mem_cons_self)
    have horelse : Takes item orelse :=
      h orelse (List.mem_cons_of_mem _ (List.mem_cons_of_mem _ List.mem_cons_self))
    refine (Reads.word "test=").bind (htest.bind ((Reads.word ", body=").bind (hbody.bind ?_)))
    refine (Reads.word ", orelse=").bind (horelse.bind ?_)
    exact (Reads.word ")").bind_pure fun _ => Expr.ifExp _ _ _ 0
  | .constant value line =>
    exact (Reads.word "value=").bind ((constant_reads hfit).bind_pure (Expr.constant · 0))
  | .call func args keywords line =>
    exact call_reads hwords hfit (h func List.mem_cons_self)
      (fun arg harg => h arg (List.mem_cons_of_mem _ (List.mem_append_left _ harg)))
      (fun keyword hk => h _ (List.mem_cons_of_mem _ (List.mem_append_right _ (List.mem_map_of_mem hk))))
  | .compare left ops comparators line =>
    exact compare_reads hwords hfit (h left List.mem_cons_self)
      (fun value hv => h value (List.mem_cons_of_mem _ hv))
  | .slice lower upper step line =>
    have hpart : ∀ part : Option Expr, part.toList ⊆ (Expr.slice lower upper step line).children →
        ∀ e ∈ part, Takes item e := fun part hsub e he => h e (hsub (Option.mem_toList.mpr he))
    exact slice_reads hwords
      (hpart lower fun e he => List.mem_append_left _ (List.mem_append_left _ he))
      (hpart upper fun e he => List.mem_append_left _ (List.mem_append_right _ he))
      (hpart step fun e he => List.mem_append_right _ he)
  | .dict keys values line =>
    exact dict_reads hwords
      (fun key hkey e he => h e (List.mem_append_left _ (List.mem_filterMap.mpr ⟨key, hkey, he⟩)))
      (fun value hv => h value (List.mem_append_right _ hv))
  | .subscript left right line | .namedExpr left right line =>
    exact two_reads (h left List.mem_cons_self) (h right (List.mem_cons_of_mem _ List.mem_cons_self))
  | .joinedStr elts line | .tuple elts line | .list elts line | .set elts line => exact many_reads hwords h
  | .formattedValue value line | .await value line | .yieldFrom value line | .starred value line
  | .yield (some value) line => exact one_reads (h value (List.mem_singleton_self _))
  | .yield none line | .comprehension kind line | .lambda line | .other kind line => cases hbare

theorem bare_kindName {e : Expr} (hbare : e.isBare = true) (hfit : e.TextsFit) :
    bare e.kindName = e.renumber fun _ => 0 := by
  match e with
  | .yield none line | .lambda line => rfl
  | .comprehension kind line => cases kind <;> rfl
  | .other kind line =>
    have hother : kind ∉ Expr.bareKinds := hfit.2
    show bare kind = .other kind 0
    unfold bare
    split <;> first | rfl | exact absurd (by decide) hother

theorem fields_of_isBare {e : Expr} (h : e.isBare = true) : e.fields = ")" := by
  match e with
  | .yield none line | .comprehension kind line | .lambda line | .other kind line => rfl

/-- Where there are fields, the first thing after the parenthesis is the name of one. -/
theorem close_refuses_fields {e : Expr} (h : e.isBare = false) : Refuses (word ")") e.fields := by
  match e with
  | .yield none line | .comprehension kind line | .lambda line | .other kind line => cases h
  | .name .. | .attribute .. | .call .. | .binOp .. | .unaryOp .. | .boolOp .. | .compare .. | .ifExp ..
  | .subscript .. | .slice .. | .joinedStr .. | .formattedValue .. | .constant .. | .tuple .. | .list ..
  | .set .. | .dict .. | .await .. | .yield (some _) _ | .yieldFrom .. | .starred .. | .namedExpr .. =>
    exact (Refuses.word rfl rfl (by decide)).append _

/-- A reader of the parts of an expression makes a reader of the expression. -/
theorem whole_takes (hwords : RefusesWords item) {e : Expr} (hfit : e.TextsFit)
    (h : ∀ child ∈ e.children, Takes item child) : Takes (whole item) e := by
  rw [Takes, Expr.dump_eq]
  refine (kind_reads hfit).bind ?_
  -- The parenthesis comes right after the first one exactly if there are no fields.
  cases hbare : e.isBare with
  | true =>
    rw [fields_of_isBare hbare, ← bare_kindName hbare hfit]
    exact .orElse_left ((Reads.word ")").bind_pure fun _ => bare e.kindName)
  | false => exact .orElse_right ((close_refuses_fields hbare).bind _) (fields_read hwords hbare hfit h)

end Whole

/-- The dump of a readable expression is read back by a reader that goes deep enough. -/
theorem expr_takes {e : Expr} (h : e.Readable) {depth : Nat} (hdepth : sizeOf e < depth) :
    Takes (expr depth) e := by
  -- The parts are smaller than the expression, so one level less is deep enough for them.
  induction depth generalizing e with
  | zero => exact absurd hdepth (Nat.not_lt_zero _)
  | succ depth ih =>
    obtain ⟨hfit, hchildren⟩ := Expr.readable_iff.mp h
    refine whole_takes (expr_refusesWords depth) hfit fun child hc => ih (hchildren child hc) ?_
    have hsize := Expr.sizeOf_lt_of_mem_children hc
    omega

end DumpReader

/-- Readable expressions that have the same dump differ in their lines alone. -/
theorem Expr.dump_eq_dump_iff {e₁ e₂ : Expr} (h₁ : e₁.Readable) (h₂ : e₂.Readable) :
    e₁.dump = e₂.dump ↔ (e₁.renumber fun _ => 0) = e₂.renumber fun _ => 0 := by
  constructor
  · intro hdump
    -- One reader that goes deep enough for both takes both off the same text.
    obtain ⟨depth, hdepth₁, hdepth₂⟩ : ∃ depth, sizeOf e₁ < depth ∧ sizeOf e₂ < depth :=
      ⟨sizeOf e₁ + sizeOf e₂ + 1, by omega, by omega⟩
    have hread₁ := DumpReader.expr_takes h₁ hdepth₁ []
    have hread₂ := DumpReader.expr_takes h₂ hdepth₂ []
    rw [hdump, hread₂] at hread₁
    exact (congrArg Prod.fst (Option.some.inj hread₁)).symm
  · intro hlines
    rw [← Expr.dump_renumber (fun _ => 0) e₁, hlines, Expr.dump_renumber]

/-- The call `f(b"hi", 0x1F, key=yield)` on two lines. -/
theorem Expr.dump_eq_dump_call :
    let call (line : Nat) : Expr := .call (.name "f" line)
      [.constant (.bytes [0x68, 0x69]) line, .constant (.number "0x1F") line]
      [⟨some "key", .yield none line⟩] line
    (call 1).Readable ∧ (call 7).Readable ∧ (call 1).dump = (call 7).dump ∧
      ((call 1).renumber fun _ => 0) = (call 7).renumber fun _ => 0 := by
  intro call
  have hbytes : Text.decode? ⟨#[0x68, 0x69]⟩ = some "hi" := by decide +kernel
  have hcall : ∀ line, (call line).Readable := by
    intro line
    have hfunc : (Expr.name "f" line).Readable := readable_of_leaf (by simp [TextsFit, Unquoted]) rfl
    have hcontent : (Expr.constant (.bytes [0x68, 0x69]) line).Readable :=
      readable_of_leaf ⟨"hi", hbytes, by simp [Unquoted]⟩ rfl
    have hnumber : (Expr.constant (.number "0x1F") line).Readable :=
      readable_of_leaf ⟨⟨'0', rfl, .inl rfl⟩, by simp⟩ rfl
    have hyield : (Expr.yield none line).Readable := readable_of_leaf trivial rfl
    refine readable_iff.mpr ⟨by simp [call, TextsFit, Unquoted], fun child hc => ?_⟩
    obtain rfl | rfl | rfl | rfl : child = _ ∨ child = _ ∨ child = _ ∨ child = _ := by
      simpa [call, children] using hc
    all_goals assumption
  have hdump : (call 1).dump = (call 7).dump := rfl
  exact ⟨hcall 1, hcall 7, hdump, (dump_eq_dump_iff (hcall 1) (hcall 7)).mp hdump⟩

end EntityGraph
