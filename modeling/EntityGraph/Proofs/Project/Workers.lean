import EntityGraph.Proofs.Project.Counters
import Mathlib.Logic.Relation
import Mathlib.Order.WellFounded

/-!
# Runs by several workers

A run resets the counters, gives each of its files to a worker, and ends when all workers are done. A
worker extracts its file and then adds to the counters, one update after the other; in between, any
other worker may make its steps. `Batch.Step` is one step of whichever worker is next, and
`Project.Completes` a run under some order of such steps.

* `Batch.Step.outcomes_eq`, `Batch.Step.settled_eq`: no step changes the outcomes, nor the counters as
  they will be when all is counted;
* `Batch.exists_done`, `Batch.wellFounded_step`: whatever the steps so far, the run can be brought to
  its end, and it cannot go on forever;
* `Project.completes_iff`: every order of the steps ends as the files one after the other do;
* `Project.completes_tally`: the outcomes and the counters of a run, whatever runs came before it.
-/

namespace EntityGraph

open CommandLine (extractedFiles statsLines)

/-- How far the worker on a file is: it has not begun, or has updates of its outcome left to make. -/
inductive Worker where
  | waiting (path : Path)
  | counting (outcome : Outcome) (updates : List Update)

/-- The workers of a run, in the order of its files, and the counters that they share. -/
structure Batch where
  counters : Counters
  workers : List Worker

/-! ## Runs -/

section Steps

variable (extract : Path → Except ExtractError File)

/-- What extraction makes of a file on its own. -/
def Outcome.alone (path : Path) : Outcome :=
  ⟨path, extract path⟩

/-- A step of one worker: it extracts its file, or makes its next update. -/
inductive Worker.Step : Counters × Worker → Counters × Worker → Prop
  | extracts (counters : Counters) (path : Path) :
    Step (counters, .waiting path)
      (counters, .counting (.alone extract path) (Outcome.alone extract path).updates)
  | counts (counters : Counters) (outcome : Outcome) (update : Update) (updates : List Update) :
    Step (counters, .counting outcome (update :: updates))
      (counters.apply update, .counting outcome updates)

/-- A step of one of the workers, whichever it is; the others stay as they are. -/
inductive Batch.Step : Batch → Batch → Prop
  | worker (before after : List Worker) {counters counters' : Counters} {worker worker' : Worker} :
    Worker.Step extract (counters, worker) (counters', worker') →
    Step ⟨counters, before ++ worker :: after⟩ ⟨counters', before ++ worker' :: after⟩

end Steps

/-- The single stores that begin a run over this many files, in their order. -/
def Counters.stores (total : Nat) : List (Counters → Counters) :=
  [fun counters => { counters with filesTotal := .ofNat total },
    fun counters => { counters with filesProcessed := 0 },
    fun counters => { counters with entitiesExtracted := 0 },
    fun counters => { counters with errors := 0 },
    fun counters => { counters with phase := .running }]

namespace Batch

/-- The beginning of a run: the counters are reset, whatever they were, and no worker has begun. -/
def opened (counters : Counters) (paths : List Path) : Batch :=
  ⟨(Counters.stores paths.length).foldl (fun counters store => store counters) counters,
    paths.map .waiting⟩

/-- All workers are done, with these outcomes. -/
def IsDone (batch : Batch) (outcomes : List Outcome) : Prop :=
  batch.workers = outcomes.map fun outcome => .counting outcome []

end Batch

namespace Project

/-- A run of the project over the files can end with these outcomes and leave it as `later`: some order
of the steps of its workers does. -/
def Completes (project : Project) (workspace : Workspace) (paths : List Path)
    (outcomes : List Outcome) (later : Project) : Prop :=
  ∃ batch, Relation.ReflTransGen (Batch.Step (project.extractFile workspace))
      (.opened project.progress paths) batch ∧
    batch.IsDone outcomes ∧ later = { project with progress := batch.counters.finish }

/-- Some run over some files leaves the project as `later`. -/
def RunsTo (project later : Project) : Prop :=
  ∃ workspace paths outcomes, project.Completes workspace paths outcomes later

end Project

/-! ## What steps keep -/

section Invariants

variable (extract : Path → Except ExtractError File)

namespace Worker

/-- The outcome that the worker has or will have. -/
def outcome : Worker → Outcome
  | .waiting path => .alone extract path
  | .counting outcome _ => outcome

/-- The updates that the worker has not made yet. -/
def due : Worker → List Update
  | .waiting path => (Outcome.alone extract path).updates
  | .counting _ updates => updates

/-- The number of steps that the worker has not made yet. -/
def stepsLeft : Worker → Nat
  | .waiting path => (Outcome.alone extract path).updates.length + 1
  | .counting _ updates => updates.length

variable {extract} {counters counters' : Counters} {worker worker' : Worker}

theorem Step.outcome_eq (h : Step extract (counters, worker) (counters', worker')) :
    worker'.outcome extract = worker.outcome extract := by
  cases h <;> rfl

/-- What a worker has counted and what it has still to count add up to the same. -/
theorem Step.applyAll_due (h : Step extract (counters, worker) (counters', worker')) :
    counters'.applyAll (worker'.due extract) = counters.applyAll (worker.due extract) := by
  cases h <;> rfl

theorem Step.stepsLeft_eq (h : Step extract (counters, worker) (counters', worker')) :
    worker'.stepsLeft extract + 1 = worker.stepsLeft extract := by
  cases h <;> rfl

end Worker

namespace Batch

/-- The outcomes that the workers have or will have. -/
def outcomes (batch : Batch) : List Outcome :=
  batch.workers.map (Worker.outcome extract)

/-- The counters as they will be when every worker has made all its updates. -/
def settled (batch : Batch) : Counters :=
  batch.counters.applyAll (batch.workers.flatMap (Worker.due extract))

def stepsLeft (batch : Batch) : Nat :=
  (batch.workers.map (Worker.stepsLeft extract)).sum

variable {extract} {batch later : Batch}

theorem Step.outcomes_eq (h : Step extract batch later) :
    later.outcomes extract = batch.outcomes extract := by
  obtain ⟨before, after, hworker⟩ := h
  simp only [outcomes, List.map_append, List.map_cons, hworker.outcome_eq]

/-- Updates commute, so those that the other workers have to make can come after the step. -/
theorem Step.settled_eq (h : Step extract batch later) :
    later.settled extract = batch.settled extract := by
  obtain ⟨before, after, hworker⟩ := h
  have hfirst : ∀ counters worker, settled extract ⟨counters, before ++ worker :: after⟩ =
      (counters.applyAll (worker.due extract)).applyAll
        ((before ++ after).flatMap (Worker.due extract)) := by
    intro counters worker
    rw [settled, ← Counters.applyAll_append, ← List.flatMap_cons]
    exact Counters.applyAll_perm (List.perm_middle.flatMap_right _) counters
  rw [hfirst, hfirst, hworker.applyAll_due]

theorem Step.stepsLeft_eq (h : Step extract batch later) :
    later.stepsLeft extract + 1 = batch.stepsLeft extract := by
  obtain ⟨before, after, hworker⟩ := h
  have hleft := hworker.stepsLeft_eq
  simp only [stepsLeft, List.map_append, List.map_cons, List.sum_append, List.sum_cons]
  omega

/-- What no step changes is the same after any number of steps. -/
theorem eq_of_steps {α : Type} {f : Batch → α}
    (hstep : ∀ {earlier next : Batch}, Step extract earlier next → f next = f earlier)
    (h : Relation.ReflTransGen (Step extract) batch later) : f later = f batch := by
  induction h with
  | refl => rfl
  | tail _ hlast ih => rw [hstep hlast, ih]

/-! ## Beginnings and ends -/

theorem outcomes_opened (counters : Counters) (paths : List Path) :
    (opened counters paths).outcomes extract = paths.map (.alone extract) := by
  rw [outcomes, opened, List.map_map]
  rfl

/-- A run begins with fresh counters, so it settles as if there had been no run before. -/
theorem settled_opened (counters : Counters) (paths : List Path) :
    (opened counters paths).settled extract =
      (Counters.start paths.length).applyAll
        ((paths.map (.alone extract)).flatMap Outcome.updates) := by
  rw [settled, opened, List.flatMap_map, List.flatMap_map]
  rfl

variable {outcomes : List Outcome}

theorem IsDone.outcomes_eq (h : batch.IsDone outcomes) : batch.outcomes extract = outcomes := by
  rw [Batch.outcomes, h, List.map_map]
  exact List.map_id outcomes

theorem IsDone.settled_eq (h : batch.IsDone outcomes) : batch.settled extract = batch.counters := by
  have hdue : batch.workers.flatMap (Worker.due extract) = [] := by
    rw [h, List.flatMap_map]
    exact List.flatMap_eq_nil_iff.mpr fun _ _ => rfl
  rw [settled, hdue]
  rfl

variable (extract) in
/-- No run goes on forever. -/
theorem wellFounded_step : WellFounded fun later batch : Batch => Step extract batch later :=
  Subrelation.wf (fun h => Nat.lt_of_succ_le (Nat.le_of_eq (Step.stepsLeft_eq h)))
    (measure (stepsLeft extract)).wf

variable (extract) in
/-- As long as some worker is not done, there is a step to make. -/
theorem isDone_or_exists_step (counters : Counters) (workers : List Worker) :
    (∃ outcomes, IsDone ⟨counters, workers⟩ outcomes) ∨
      ∃ later, Step extract ⟨counters, workers⟩ later := by
  induction workers with
  | nil => exact .inl ⟨[], rfl⟩
  | cons worker rest ih =>
    cases worker with
    | waiting path => exact .inr ⟨_, .worker [] rest (.extracts counters path)⟩
    | counting outcome updates =>
      cases updates with
      | cons update further => exact .inr ⟨_, .worker [] rest (.counts counters outcome update further)⟩
      | nil =>
        rcases ih with ⟨outcomes, hdone⟩ | ⟨later, hstep⟩
        · exact .inl ⟨outcome :: outcomes, congrArg (Worker.counting outcome [] :: ·) hdone⟩
        · cases hstep with
          | worker before after hworker =>
            exact .inr ⟨_, .worker (.counting outcome [] :: before) after hworker⟩

variable (extract) in
/-- Whatever the steps so far were, the workers can be brought to their end. -/
theorem exists_done (batch : Batch) :
    ∃ last outcomes, Relation.ReflTransGen (Step extract) batch last ∧ last.IsDone outcomes := by
  induction batch using (wellFounded_step extract).induction with
  | _ batch ih =>
    rcases isDone_or_exists_step extract batch.counters batch.workers with
      ⟨outcomes, hdone⟩ | ⟨next, hstep⟩
    · exact ⟨batch, outcomes, .refl, hdone⟩
    · obtain ⟨last, outcomes, hsteps, hdone⟩ := ih next hstep
      exact ⟨last, outcomes, .head hstep hsteps, hdone⟩

end Batch

end Invariants

/-! ## Completed runs -/

namespace Project

variable {project later : Project} {workspace : Workspace} {paths : List Path}
  {outcomes : List Outcome}

theorem extractFiles_eq_of_completes (h : project.Completes workspace paths outcomes later) :
    project.extractFiles workspace paths = (outcomes, later) := by
  obtain ⟨batch, hsteps, hdone, rfl⟩ := h
  have houtcomes : paths.map (.alone (project.extractFile workspace)) = outcomes := by
    rw [← Batch.outcomes_opened project.progress, ← Batch.eq_of_steps Batch.Step.outcomes_eq hsteps,
      hdone.outcomes_eq]
  have hcounters : batch.counters.finish = countersAfter outcomes := by
    rw [← hdone.settled_eq, Batch.eq_of_steps Batch.Step.settled_eq hsteps, Batch.settled_opened,
      houtcomes, countersAfter, ← houtcomes, List.length_map]
  rw [hcounters, ← houtcomes]
  rfl

/-- A run ends as the files one after the other do, in whichever order its workers make their steps. -/
theorem completes_iff :
    project.Completes workspace paths outcomes later ↔
      project.extractFiles workspace paths = (outcomes, later) := by
  refine ⟨extractFiles_eq_of_completes, fun h => ?_⟩
  obtain ⟨last, ended, hsteps, hdone⟩ :=
    Batch.exists_done (project.extractFile workspace) (.opened project.progress paths)
  have hcompletes : project.Completes workspace paths ended _ := ⟨last, hsteps, hdone, rfl⟩
  rw [extractFiles_eq_of_completes hcompletes] at h
  cases h
  exact hcompletes

theorem tally_of_completes (h : project.Completes workspace paths outcomes later) :
    later.progress.Tally outcomes := by
  cases extractFiles_eq_of_completes h
  exact countersAfter_tally _

/-- Runs change nothing of a project but its counters. -/
theorem eq_of_runs (h : Relation.ReflTransGen RunsTo project later) :
    later = { project with progress := later.progress } := by
  induction h with
  | refl => rfl
  | tail _ hrun ih =>
    obtain ⟨workspace, paths, outcomes, batch, -, -, rfl⟩ := hrun
    rw [ih]

/-- After any runs over any files, whatever the order in which its workers make their steps, a run ends
with the outcomes of its files in their order, each as the file has it alone before all runs, and with
counters that show just these outcomes. So the files that failed can be taken from those that were
processed, which leaves those that were extracted, as the statistics say. -/
theorem completes_tally {first project : Project}
    (hruns : Relation.ReflTransGen RunsTo first project) (workspace : Workspace) (paths : List Path) :
    (∃ outcomes later, project.Completes workspace paths outcomes later) ∧
      ∀ outcomes later, project.Completes workspace paths outcomes later →
        outcomes = paths.map (fun path => ⟨path, first.extractFile workspace path⟩) ∧
        later.progress.Tally outcomes ∧
        (paths.length < UInt64.size →
          later.progress.errors ≤ later.progress.filesProcessed ∧
          (later.progress.filesProcessed - later.progress.errors).toNat =
            (extractedFiles outcomes).length ∧
          (statsLines later.progress (extractedFiles outcomes))[1]? =
            some ("  Files extracted: " ++ toString (extractedFiles outcomes).length)) := by
  refine ⟨⟨_, _, completes_iff.mpr rfl⟩, fun outcomes later hrun => ?_⟩
  have halone : project.extractFile workspace = first.extractFile workspace := by
    rw [eq_of_runs hruns]
    rfl
  have houtcomes : outcomes = paths.map fun path => ⟨path, first.extractFile workspace path⟩ := by
    rw [← halone]
    exact (congrArg Prod.fst (completes_iff.mp hrun)).symm
  have htally := tally_of_completes hrun
  refine ⟨houtcomes, htally, fun hlength => ?_⟩
  have hcount : outcomes.length < UInt64.size := by
    rwa [houtcomes, List.length_map]
  have hextracted := htally.toNat_extracted hcount
  refine ⟨htally.errors_le hcount, hextracted, ?_⟩
  rw [← hextracted]
  rfl

end Project

/-! ## A run over mixed files -/

section Mixed

open Concrete

def mixedNode (kind : String) (field : Option String) (stop : Nat) (children : List Node) : Node :=
  ⟨⟨kind, field, true, false, false, 0, stop, 0⟩, children⟩

/-- The tree of `f()` or of `1()`, whose callee is a literal. -/
def mixedTree (callee : String) : Node :=
  mixedNode "module" none 3 [mixedNode "expression_statement" none 3 [mixedNode "call" none 3
    [mixedNode callee (some "function") 1 []]]]

/-- A source with a call, one with a call that no source should have, and a file that is no source. -/
def mixedWorkspace : Workspace where
  files := ⟨[("a.py", .file "f()".toUTF8), ("b.py", .file "1()".toUTF8),
    ("notes.txt", .file "".toUTF8)], []⟩
  parse source := some ⟨mixedTree (if source = "f()" then "identifier" else "integer"), false⟩

def mixedPaths : List Path :=
  [⟨"a.py"⟩, ⟨"b.py"⟩, ⟨"gone.py"⟩, ⟨"a.py"⟩, ⟨"notes.txt"⟩]

def mixedProject : Project :=
  .ofRoot ⟨"."⟩ .default

/-- The project after a first run in which the only file is missing. -/
def mixedLater : Project :=
  (mixedProject.extractFiles mixedWorkspace [⟨"gone.py"⟩]).2

end Mixed

/-- Of five files two are extracted, with an entity each. -/
theorem Project.completes_tally_mixed :
    Relation.ReflTransGen RunsTo mixedProject mixedLater ∧ mixedPaths.length < UInt64.size ∧
      ∃ outcomes later, mixedLater.Completes mixedWorkspace mixedPaths outcomes later ∧
        outcomes = mixedPaths.map (fun path => ⟨path, mixedProject.extractFile mixedWorkspace path⟩) ∧
        later.progress.Tally outcomes ∧ later.progress = ⟨.finished, 5, 5, 2, 3⟩ ∧
        later.progress.errors ≤ later.progress.filesProcessed ∧
        (later.progress.filesProcessed - later.progress.errors).toNat =
          (extractedFiles outcomes).length := by
  have hruns : Relation.ReflTransGen RunsTo mixedProject mixedLater :=
    .single ⟨mixedWorkspace, [⟨"gone.py"⟩], _, completes_iff.mpr rfl⟩
  have hlength : mixedPaths.length < UInt64.size := by decide
  obtain ⟨⟨outcomes, later, hrun⟩, hall⟩ := completes_tally hruns mixedWorkspace mixedPaths
  obtain ⟨houtcomes, htally, hbounded⟩ := hall outcomes later hrun
  obtain ⟨hle, hextracted, -⟩ := hbounded hlength
  refine ⟨hruns, hlength, outcomes, later, hrun, houtcomes, htally, ?_, hle, hextracted⟩
  cases completes_iff.mp hrun
  decide +kernel

end EntityGraph
