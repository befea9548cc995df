import EntityGraph.Proofs.Extraction.Constants
import EntityGraph.Proofs.Extraction.EntryGuard

/-!
# The entry guard setting

How an entry guard reads is a setting that touches the top level of a process only. Two extractions under
settings that differ in the guard alone fail alike, or give files that are the same but for the process,
and the processes differ only where a conditional is a guard under one of the settings and not under the
other.

* `Declared.ofStmt_withGuard`: declarations do not depend on the guard;
* `GuardApart`: how the entities of one statement may differ, and `rootProcess_apart` that they do not
  differ in another way;
* `walks_apart`: the same for whole statement lists;
* `File.ofModule_withGuard`: what becomes of a module under both settings.
-/

namespace EntityGraph

/-- The settings with an entry guard that reads `if <token> == "<literal>":`. -/
def Settings.withGuard (settings : Settings) (token literal : String) : Settings :=
  { settings with entryGuardToken := token, entryGuardLiteral := literal }

/-! ## Declarations -/

section Declarations

variable (settings : Settings) (token literal : String)

theorem attributesOf_withGuard (members : List Stmt) :
    attributesOf (settings.withGuard token literal) members = attributesOf settings members := rfl

theorem methodOf?_withGuard (stmt : Stmt) :
    methodOf? (settings.withGuard token literal) stmt = methodOf? settings stmt := by
  cases stmt <;> rfl

theorem Class.ofDefinition_withGuard (header : ClassHeader) (members : List Stmt) :
    ofDefinition (settings.withGuard token literal) header members =
      ofDefinition settings header members := by
  rw [ofDefinition, ofDefinition, funext (methodOf?_withGuard settings token literal),
    attributesOf_withGuard]

theorem Declared.ofStmt_withGuard (stmt : Stmt) :
    ofStmt (settings.withGuard token literal) stmt = ofStmt settings stmt := by
  cases stmt with
  | classDef header members =>
    rw [ofStmt, ofStmt, Class.ofDefinition_withGuard]
  | _ => rfl

end Declarations

/-! ## Statements at the top level -/

/-- How the entities that a statement at the top level gives may differ between two settings: if it is an
entry guard under one of them alone, it gives there those of its body, and elsewhere a conditional that
holds them. -/
inductive GuardApart (first second : Settings) (stmt : Stmt) : List Entity → List Entity → Prop
  | alike {entities : List Entity} : stmt.isEntryGuard first = stmt.isEntryGuard second →
    GuardApart first second stmt entities entities
  | opened {body : List Stmt} {inner : List Entity} : stmt.guardBody? first = some body →
    stmt.guardBody? second = none → Stmt.processAll body = .ok inner →
    GuardApart first second stmt inner
      [.logic .ifThen (some [.unmodeled "Compare"]) inner none stmt.line]
  | closed {body : List Stmt} {inner : List Entity} : stmt.guardBody? first = none →
    stmt.guardBody? second = some body → Stmt.processAll body = .ok inner →
    GuardApart first second stmt
      [.logic .ifThen (some [.unmodeled "Compare"]) inner none stmt.line] inner

namespace Stmt

variable {first second : Settings} {stmt : Stmt}

theorem eq_branch_of_guardBody? {settings : Settings} {body : List Stmt}
    (h : stmt.guardBody? settings = some body) : ∃ test line, stmt = .branch test body [] line := by
  unfold guardBody? at h
  split at h
  · split at h
    · cases h
      exact ⟨_, _, rfl⟩
    · cases h
  · cases h

/-- What the body of a guard is does not depend on the settings. -/
theorem guardBody?_unique {body other : List Stmt} (hfirst : stmt.guardBody? first = some body)
    (hsecond : stmt.guardBody? second = some other) : other = body := by
  obtain ⟨_, _, rfl⟩ := eq_branch_of_guardBody? hfirst
  obtain ⟨_, _, heq⟩ := eq_branch_of_guardBody? hsecond
  cases heq
  rfl

theorem rootProcess_of_some {settings : Settings} {body : List Stmt}
    (h : stmt.guardBody? settings = some body) : stmt.rootProcess settings = processAll body := by
  rw [rootProcess, h]

theorem rootProcess_of_none {settings : Settings} (h : stmt.guardBody? settings = none) :
    stmt.rootProcess settings = stmt.process := by
  rw [rootProcess, h]

theorem rootProcess_of_alike (h : stmt.isEntryGuard first = stmt.isEntryGuard second) :
    stmt.rootProcess first = stmt.rootProcess second := by
  rw [isEntryGuard, isEntryGuard] at h
  cases hfirst : stmt.guardBody? first with
  | none =>
    have hsecond : stmt.guardBody? second = none := by simpa [hfirst] using h
    rw [rootProcess_of_none hfirst, rootProcess_of_none hsecond]
  | some body =>
    obtain ⟨other, hsecond⟩ := Option.isSome_iff_exists.mp (h.symm.trans (by rw [hfirst]; rfl))
    rw [rootProcess_of_some hfirst, rootProcess_of_some hsecond, guardBody?_unique hfirst hsecond]

/-- Under two settings a statement at the top level fails alike, or gives entities that differ only if it
is a guard under one of them alone. -/
theorem rootProcess_apart (first second : Settings) (stmt : Stmt) :
    (∃ fault, stmt.rootProcess first = .error fault ∧ stmt.rootProcess second = .error fault) ∨
      ∃ left right, stmt.rootProcess first = .ok left ∧ stmt.rootProcess second = .ok right ∧
        GuardApart first second stmt left right := by
  by_cases halike : stmt.isEntryGuard first = stmt.isEntryGuard second
  · rw [rootProcess_of_alike halike]
    cases stmt.rootProcess second with
    | error fault => exact .inl ⟨fault, rfl, rfl⟩
    | ok entities => exact .inr ⟨entities, entities, rfl, rfl, .alike halike⟩
  · rw [isEntryGuard, isEntryGuard] at halike
    cases hfirst : stmt.guardBody? first with
    | some body =>
      have hsecond : stmt.guardBody? second = none := by simpa [hfirst] using halike
      rw [rootProcess_of_some hfirst, rootProcess_of_none hsecond, process_of_guardBody? hfirst]
      cases hinner : processAll body with
      | error fault => exact .inl ⟨fault, rfl, rfl⟩
      | ok inner => exact .inr ⟨inner, _, rfl, rfl, .opened hfirst hsecond hinner⟩
    | none =>
      have hne : stmt.guardBody? second ≠ none := by simpa [hfirst] using halike
      obtain ⟨body, hsecond⟩ := Option.ne_none_iff_exists'.mp hne
      rw [rootProcess_of_none hfirst, rootProcess_of_some hsecond, process_of_guardBody? hsecond]
      cases hinner : processAll body with
      | error fault => exact .inl ⟨fault, rfl, rfl⟩
      | ok inner => exact .inr ⟨_, inner, rfl, rfl, .closed hfirst hsecond hinner⟩

end Stmt

/-! ## Modules -/

/-- The two walks of a statement list fail alike, or both give one piece for each statement. -/
theorem walks_apart (first second : Settings) (body : List Stmt) :
    (∃ fault, walk first true body = .error fault ∧ walk second true body = .error fault) ∨
      ∃ pieces : List (List Entity × List Entity),
        List.Forall₂ (fun stmt piece => stmt.rootProcess first = .ok piece.1 ∧
          stmt.rootProcess second = .ok piece.2 ∧ GuardApart first second stmt piece.1 piece.2)
          body pieces ∧
        walk first true body = .ok (pieces.flatMap Prod.fst) ∧
        walk second true body = .ok (pieces.flatMap Prod.snd) := by
  induction body with
  | nil => exact .inr ⟨[], .nil, rfl, rfl⟩
  | cons stmt rest ih =>
    rw [walk, walk, if_pos rfl, if_pos rfl]
    obtain ⟨fault, hleft, hright⟩ | ⟨left, right, hleft, hright, hapart⟩ :=
      stmt.rootProcess_apart first second
    · exact .inl ⟨fault, by rw [hleft]; rfl, by rw [hright]; rfl⟩
    rw [hleft, hright]
    obtain ⟨fault, hfirst, hsecond⟩ | ⟨pieces, hpieces, hfirst, hsecond⟩ := ih
    · exact .inl ⟨fault, by rw [hfirst]; rfl, by rw [hsecond]; rfl⟩
    · refine .inr ⟨(left, right) :: pieces, .cons ⟨hleft, hright, hapart⟩ hpieces, ?_, ?_⟩
      · rw [hfirst]; rfl
      · rw [hsecond]; rfl

/-- Under settings that differ in the entry guard alone, a module fails with the same error, or its two
files are the same but for the process. Both processes then consist of one piece for each top-level
statement. The pieces are the same, unless the statement is a conditional that is a guard under one of
the settings alone: there the piece is what its body gives, under the others a conditional around that. -/
theorem File.ofModule_withGuard (settings : Settings) (token literal : String) (files : FileTree)
    (root path : Path) (body : List Stmt) :
    (∃ fault, ofModule settings files root path body = .error fault ∧
      ofModule (settings.withGuard token literal) files root path body = .error fault) ∨
      ∃ file process, ofModule settings files root path body = .ok file ∧
        ofModule (settings.withGuard token literal) files root path body =
          .ok { file with process := process } ∧
        ∃ pieces : List (List Entity × List Entity),
          List.Forall₂ (fun stmt piece => stmt.rootProcess settings = .ok piece.1 ∧
            stmt.rootProcess (settings.withGuard token literal) = .ok piece.2 ∧
            GuardApart settings (settings.withGuard token literal) stmt piece.1 piece.2) body pieces ∧
          file.process = pieces.flatMap Prod.fst ∧ process = pieces.flatMap Prod.snd := by
  have hdeclared : body.mapM (Declared.ofStmt (settings.withGuard token literal)) =
      body.mapM (Declared.ofStmt settings) := by
    rw [funext (Declared.ofStmt_withGuard settings token literal)]
  rw [ofModule, ofModule, hdeclared]
  cases body.mapM (Declared.ofStmt settings) with
  | error fault => exact .inl ⟨fault, rfl, rfl⟩
  | ok declared =>
    obtain ⟨fault, hfirst, hsecond⟩ | ⟨pieces, hpieces, hfirst, hsecond⟩ :=
      walks_apart settings (settings.withGuard token literal) body
    · exact .inl ⟨fault, by rw [hfirst]; rfl, by rw [hsecond]; rfl⟩
    · rw [hfirst, hsecond]
      exact .inr ⟨_, _, rfl, rfl, pieces, hpieces, rfl, rfl⟩

end EntityGraph
