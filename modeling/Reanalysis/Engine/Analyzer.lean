/-
Incremental analysis. A first run visits all files of the selection; later runs
visit the files that changed and take the other results from memory. A run that
stops early puts the files it did not finish back, so the next run picks them up.

The engine is called inside surroundings that each call may alter: the files, and
whether the token of the run has been signalled, are read anew before each file.
-/

import Reanalysis.Failure
import Reanalysis.Issue
import Reanalysis.Partition
import Reanalysis.ResultCache
import Reanalysis.Selection

namespace Reanalysis

/-- An engine, the files it is responsible for, and what it finds around itself. -/
structure Analyzer (σ : Type) where
  name : String
  selection : Selection
  tree : σ → FileTree
  read : SourcePath → σ → Except FileFault (List UInt8)
  signalled : σ → Bool
  examine : SourcePath → String → σ → Except Failure (List Issue) × σ

/-- The results of earlier runs, the changes that no run has finished yet, and whether the
next run must visit all files. -/
structure Memory where
  results : ResultCache (List Issue)
  pending : PendingChanges
  fresh : Bool

namespace Memory

def new : Memory := ⟨ResultCache.empty, PendingChanges.empty, true⟩

def record (memory : Memory) (file : SourcePath) (issues : List Issue) : Memory :=
  { memory with results := memory.results.record file issues }

/-- Puts back files that a run did not finish. A first run starts over in any case. -/
def requeue (memory : Memory) (files : List SourcePath) : Memory :=
  if memory.fresh then memory
  else { memory with pending := memory.pending.accumulate (Change.empty.withChanged files) }

/-- All issues, sorted; those at one position in file order. -/
def issues (memory : Memory) : List Issue := Issue.sort memory.results.snapshot.flatten

/-- The issues of each file, in the order in which they came. -/
def byFile (issues : List Issue) : PathMap (List Issue) :=
  issues.foldl
    (fun files issue => files.upsert issue.file (fun held => held.getD [] ++ [issue]))
    PathMap.empty

/-- Takes over issues that were found elsewhere, as the results of their files. -/
def seed (memory : Memory) (issues : List Issue) : Memory :=
  (byFile issues).entries.foldl (fun memory (file, found) => memory.record file found) memory

end Memory

namespace Analyzer

variable {σ : Type} (analyzer : Analyzer σ)

def visit (file : SourcePath) (state : σ) : Except Failure (Option (List Issue)) × σ :=
  let path := analyzer.selection.root.join file
  match analyzer.read path state with
  | .error .notFound => (.ok none, state)
  | .error fault =>
      (.error (.error
        (.engine analyzer.name ("failed to read " ++ path.text ++ ": " ++ fault.message))), state)
  | .ok bytes =>
      let (found, after) := analyzer.examine file (Utf8.lenient bytes) state
      (found.map some, after)

/-- Goes on to the next file of a run, `file`, with `rest` behind it. Answers why the run
stops there, if it does. An engine that breaks off leaves no time to put files back. -/
def attempt (file : SourcePath) (rest : List SourcePath) (memory : Memory) (state : σ) :
    Option Failure × Memory × σ :=
  if analyzer.signalled state then
    (some (.error .cancelled), memory.requeue (file :: rest), state)
  else
    match analyzer.visit file state with
    | (.ok (some issues), after) => (none, memory.record file issues, after)
    | (.ok none, after) => (none, memory, after)
    | (.error (.error cause), after) => (some (.error cause), memory.requeue (file :: rest), after)
    | (.error (.broke thrown), after) => (some (.broke thrown), memory, after)

/-- Visits files in their order, up to the first that the run stops at. -/
def work : List SourcePath → Memory → σ → Option Failure × Memory × σ
  | [], memory, state => (none, memory, state)
  | file :: rest, memory, state =>
      match analyzer.attempt file rest memory state with
      | (none, memory, after) => work rest memory after
      | (some failure, memory, after) => (some failure, memory, after)

/-- Deletions, and the changed files that belong to the selection. -/
def selected (change : Change) : Change :=
  Change.ofFiles (change.changed.files.filter analyzer.selection.selects) change.deleted.files

/-- What a run has to visit. A first run forgets everything it knew, and has to find the
files. -/
def takeUp (change : Change) (memory : Memory) (state : σ) :
    Except AnalysisError (List SourcePath) × Memory :=
  let gathered := memory.pending.accumulate (analyzer.selected change)
  if analyzer.signalled state then (.error .cancelled, { memory with pending := gathered })
  else
    let (drained, emptied) := gathered.drain
    if memory.fresh then
      ((analyzer.selection.discover (analyzer.tree state)).mapError AnalysisError.ofConfig,
        { memory with results := ResultCache.empty, pending := emptied })
    else
      (.ok drained.changed.files,
        { memory with results := memory.results.invalidate drained, pending := emptied })

/-- What a run over one share of all files has to visit. It starts from nothing. -/
def takeUpShare (share : Partition) (memory : Memory) (state : σ) :
    Except AnalysisError (List SourcePath) × Memory :=
  if analyzer.signalled state then (.error .cancelled, memory)
  else
    (((analyzer.selection.discover (analyzer.tree state)).map share.select).mapError
      AnalysisError.ofConfig, Memory.new)

/-- The result of a run that stopped, or came to its end. -/
def conclude (stop : Option Failure) (memory : Memory) : Except Failure (List Issue) × Memory :=
  match stop with
  | some failure => (.error failure, memory)
  | none => (.ok memory.issues, { memory with fresh := false })

def finish (start : Except AnalysisError (List SourcePath) × Memory) (state : σ) :
    Except Failure (List Issue) × Memory × σ :=
  match start with
  | (.error cause, memory) => (.error (.error cause), memory, state)
  | (.ok files, memory) =>
      let (stop, memory, after) := analyzer.work files memory state
      let (result, memory) := conclude stop memory
      (result, memory, after)

/-- Takes up a change and reports all issues of the selection. -/
def report (change : Change) (memory : Memory) (state : σ) :
    Except Failure (List Issue) × Memory × σ :=
  analyzer.finish (analyzer.takeUp change memory state) state

def reportShare (share : Partition) (memory : Memory) (state : σ) :
    Except Failure (List Issue) × Memory × σ :=
  analyzer.finish (analyzer.takeUpShare share memory state) state

end Analyzer

end Reanalysis
