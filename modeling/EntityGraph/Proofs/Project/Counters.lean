import EntityGraph.CommandLine.Report
import Mathlib.Algebra.Ring.Nat
import Mathlib.Data.List.Perm.Basic

/-!
# Counters of a run

The counters of a finished run show how many of its files were processed and how many failed, and how
many entities the others have (`Counters.Tally`), each cut to 64 bits.

* `Counters.applyAll_perm`: updates commute, so it does not matter in which order they are made;
* `countersAfter_tally`: the updates of all outcomes add up to what is to be shown;
* `Counters.Tally.errors_le`, `Counters.Tally.toNat_extracted`: the files that failed are among those that
  were processed, and the difference is the number of files that were extracted.
-/

namespace EntityGraph

open CommandLine (extractedFiles)

/-! ## Outcomes -/

/-- The file of the outcome was not extracted. -/
def Outcome.isFailure (outcome : Outcome) : Bool :=
  !outcome.result.isOk

/-- The outcomes of files that were not extracted. -/
def failures (outcomes : List Outcome) : Nat :=
  outcomes.countP Outcome.isFailure

/-- The entities of the files that were extracted. -/
def extractedEntities (outcomes : List Outcome) : Nat :=
  ((extractedFiles outcomes).map File.entityCount).sum

section Cons

variable (path : Path) (file : File) (fault : ExtractError) (rest : List Outcome)

theorem failures_cons_ok : failures (⟨path, .ok file⟩ :: rest) = failures rest :=
  List.countP_cons_of_neg Bool.false_ne_true

theorem failures_cons_error : failures (⟨path, .error fault⟩ :: rest) = failures rest + 1 :=
  List.countP_cons_of_pos rfl

theorem extractedEntities_cons_ok :
    extractedEntities (⟨path, .ok file⟩ :: rest) = file.entityCount + extractedEntities rest :=
  List.sum_cons

theorem extractedEntities_cons_error :
    extractedEntities (⟨path, .error fault⟩ :: rest) = extractedEntities rest := rfl

end Cons

theorem length_extractedFiles (outcomes : List Outcome) :
    (extractedFiles outcomes).length + failures outcomes = outcomes.length := by
  induction outcomes with
  | nil => rfl
  | cons outcome rest ih =>
    obtain ⟨path, result⟩ := outcome
    cases result with
    | ok file =>
      rw [failures_cons_ok, List.length_cons, ← ih, Nat.add_right_comm]
      rfl
    | error fault =>
      rw [failures_cons_error, List.length_cons, ← ih, ← Nat.add_assoc]
      rfl

theorem failures_le_length (outcomes : List Outcome) : failures outcomes ≤ outcomes.length :=
  List.countP_le_length

namespace Counters

/-! ## Order of updates -/

theorem apply_comm (counters : Counters) (first second : Update) :
    (counters.apply first).apply second = (counters.apply second).apply first := by
  have hswap : ∀ a b c : UInt64, a + b + c = a + c + b := fun a b c => by
    rw [UInt64.add_assoc, UInt64.add_comm b c, UInt64.add_assoc]
  cases first <;> cases second <;> simp only [apply, hswap]

instance : RightCommutative apply :=
  ⟨apply_comm⟩

theorem applyAll_append (counters : Counters) (first second : List Update) :
    counters.applyAll (first ++ second) = (counters.applyAll first).applyAll second :=
  List.foldl_append

theorem applyAll_perm {first second : List Update} (h : first.Perm second) (counters : Counters) :
    counters.applyAll first = counters.applyAll second :=
  h.foldl_eq counters

/-! ## Sums of updates -/

/-- What the updates of outcomes add to each counter. -/
theorem applyAll_updates (counters : Counters) (outcomes : List Outcome) :
    counters.applyAll (outcomes.flatMap Outcome.updates) =
      { counters with
        filesProcessed := counters.filesProcessed + .ofNat outcomes.length
        entitiesExtracted := counters.entitiesExtracted + .ofNat (extractedEntities outcomes)
        errors := counters.errors + .ofNat (failures outcomes) } := by
  induction outcomes generalizing counters with
  | nil => simp [applyAll, extractedEntities, extractedFiles, failures]
  | cons outcome rest ih =>
    rw [List.flatMap_cons, applyAll_append, ih]
    obtain ⟨path, result⟩ := outcome
    cases result with
    | ok file =>
      simp only [Outcome.updates, applyAll, List.foldl_cons, List.foldl_nil, apply, List.length_cons,
        extractedEntities_cons_ok, failures_cons_ok, UInt64.ofNat_add, UInt64.add_assoc,
        UInt64.add_comm 1 (.ofNat _)]
      rfl
    | error fault =>
      simp only [Outcome.updates, applyAll, List.foldl_cons, List.foldl_nil, apply, List.length_cons,
        extractedEntities_cons_error, failures_cons_error, UInt64.ofNat_add, UInt64.add_assoc,
        UInt64.add_comm 1 (.ofNat _)]
      rfl

/-- What the counters show after a run with these outcomes. -/
structure Tally (counters : Counters) (outcomes : List Outcome) : Prop where
  isActive : counters.isActive = false
  filesTotal : counters.filesTotal = .ofNat outcomes.length
  filesProcessed : counters.filesProcessed = .ofNat outcomes.length
  errors : counters.errors = .ofNat (failures outcomes)
  entitiesExtracted : counters.entitiesExtracted = .ofNat (extractedEntities outcomes)

namespace Tally

variable {counters : Counters} {outcomes : List Outcome}

theorem errors_le (h : counters.Tally outcomes) (hlength : outcomes.length < UInt64.size) :
    counters.errors ≤ counters.filesProcessed := by
  have hfailures := failures_le_length outcomes
  rw [h.errors, h.filesProcessed]
  exact (UInt64.ofNat_le_iff_le (Nat.lt_of_le_of_lt hfailures hlength) hlength).mpr hfailures

theorem toNat_extracted (h : counters.Tally outcomes) (hlength : outcomes.length < UInt64.size) :
    (counters.filesProcessed - counters.errors).toNat = (extractedFiles outcomes).length := by
  rw [h.errors, h.filesProcessed, ← UInt64.ofNat_sub (failures_le_length outcomes),
    UInt64.toNat_ofNat_of_lt' (Nat.lt_of_le_of_lt (Nat.sub_le _ _) hlength),
    ← length_extractedFiles outcomes, Nat.add_sub_cancel]

end Tally

end Counters

theorem countersAfter_tally (outcomes : List Outcome) : (countersAfter outcomes).Tally outcomes := by
  have h : countersAfter outcomes = ⟨.finished, .ofNat outcomes.length, .ofNat outcomes.length,
      .ofNat (extractedEntities outcomes), .ofNat (failures outcomes)⟩ := by
    rw [countersAfter, Counters.applyAll_updates]
    simp [Counters.finish, Counters.start]
  rw [h]
  exact ⟨rfl, rfl, rfl, rfl, rfl⟩

end EntityGraph
