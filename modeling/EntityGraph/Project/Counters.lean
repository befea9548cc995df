/-!
# Progress counters

What a run over many files has done so far. Several workers add to the counters, each addition being a
step of its own; the counters have 64 bits and wrap.

* `Counters` are the counters of one run, and `Counters.start`, `Counters.apply` and `Counters.finish`
  its steps;
* `Progress` shares counters between handles, so that all handles of a run see the same.
-/

namespace EntityGraph

/-- Whether a run has begun, and whether it has ended. -/
inductive Phase where
  | idle
  | running
  | finished
  deriving DecidableEq

structure Counters where
  phase : Phase
  filesTotal : UInt64
  filesProcessed : UInt64
  entitiesExtracted : UInt64
  errors : UInt64
  deriving DecidableEq

/-- One step of a worker. -/
inductive Update where
  | processed
  | extracted (entities : Nat)
  | failed
  deriving DecidableEq

namespace Counters

def fresh : Counters :=
  ⟨.idle, 0, 0, 0, 0⟩

def isActive (counters : Counters) : Bool :=
  counters.phase == .running

/-- A new run over this many files; nothing of an earlier run is kept. -/
def start (total : Nat) : Counters :=
  ⟨.running, UInt64.ofNat total, 0, 0, 0⟩

def apply (counters : Counters) : Update → Counters
  | .processed => { counters with filesProcessed := counters.filesProcessed + 1 }
  | .extracted entities =>
    { counters with entitiesExtracted := counters.entitiesExtracted + UInt64.ofNat entities }
  | .failed => { counters with errors := counters.errors + 1 }

def applyAll (counters : Counters) (updates : List Update) : Counters :=
  updates.foldl apply counters

/-- A file with this many entities is done. -/
def increment (counters : Counters) (entities : Nat) : Counters :=
  counters.applyAll [.processed, .extracted entities]

/-- A file has failed. -/
def incrementErrors (counters : Counters) : Counters :=
  counters.applyAll [.processed, .failed]

/-- The end of a run; without one there is nothing to end. -/
def finish (counters : Counters) : Counters :=
  if counters.phase = .idle then counters else { counters with phase := .finished }

end Counters

/-! ## Handles -/

/-- The counters of several runs, and the run that each handle belongs to. -/
structure Progress where
  runs : List Counters
  handles : List Nat

namespace Progress

/-- One handle on a fresh run. -/
def single : Progress :=
  ⟨[.fresh], [0]⟩

/-- What the handles show, in order. -/
def snapshots (progress : Progress) : List Counters :=
  progress.handles.filterMap (progress.runs[·]?)

/-- The progress after a step by the handle. -/
def modify (progress : Progress) (handle : Nat) (step : Counters → Counters) : Progress :=
  match progress.handles[handle]? with
  | some run => { progress with runs := progress.runs.modify run step }
  | none => progress

/-- A further handle on the run of the handle. -/
def share (progress : Progress) (handle : Nat) : Progress :=
  { progress with handles := progress.handles ++ (progress.handles[handle]?).toList }

/-- A further handle on a fresh run. -/
def openRun (progress : Progress) : Progress :=
  ⟨progress.runs ++ [.fresh], progress.handles ++ [progress.runs.length]⟩

end Progress

end EntityGraph
