/-
Several workers for one engine. The first run deals the files out to all of them;
then the first worker takes over what the others found, the others are let go,
and later runs go to the first worker alone.

Workers are asked in the order of their numbers. What each of them finds out about
the token, and when, is a matter of the surroundings.
-/

import Reanalysis.Change
import Reanalysis.Failure
import Reanalysis.Issue
import Reanalysis.Partition

namespace Reanalysis

/-- A call that may alter its surroundings. -/
abbrev Call (σ α : Type) := σ → Except Failure α × σ

structure Worker (σ : Type) where
  connect : Call σ Unit
  report : Change → Call σ (List Issue)
  reportShare : Partition → Call σ (List Issue)
  seed : List Issue → Call σ Unit
  disconnect : Call σ Unit

structure Pool (σ : Type) where
  name : String
  workers : List (Worker σ)
  signalled : σ → Bool

/-- The surroundings of a pool: whether a full run has succeeded, and those of its workers. -/
structure Pooled (σ : Type) where
  done : Bool
  around : σ

namespace Pool

variable {σ : Type}

/-- Asks workers in their order, numbered from `index`, and collects all answers. -/
def askEach {α : Type} (ask : Nat → Worker σ → Call σ α) :
    Nat → List (Worker σ) → σ → List (Except Failure α) × σ
  | _, [], state => ([], state)
  | index, worker :: rest, state =>
      let (answer, after) := ask index worker state
      let (answers, last) := askEach ask (index + 1) rest after
      (answer :: answers, last)

def firstBreak {α : Type} (answers : List (Except Failure α)) : Option Thrown :=
  answers.findSome? fun answer =>
    match answer with
    | .error (.broke thrown) => some thrown
    | _ => none

def firstError {α : Type} (answers : List (Except Failure α)) : Option AnalysisError :=
  answers.findSome? fun answer =>
    match answer with
    | .error (.error cause) => some cause
    | _ => none

def values {α : Type} (answers : List (Except Failure α)) : List α :=
  answers.filterMap Except.toOption

/-- All answers together: a worker that broke off breaks the call, else the first failure
counts, and any failure under a signalled token is the cancellation of the run. -/
def combine {α : Type} (signalled : Bool) (answers : List (Except Failure α)) :
    Except Failure (List α) :=
  match firstBreak answers, firstError answers with
  | some thrown, _ => .error (.broke thrown)
  | none, some cause => .error (.error (if signalled then .cancelled else cause))
  | none, none => .ok (values answers)

variable (pool : Pool σ)

def noWorkers : Failure :=
  .error (.configuration ("engine '" ++ pool.name ++ "' has no workers"))

def release (workers : List (Worker σ)) (state : σ) : σ :=
  workers.foldl (fun state worker => (worker.disconnect state).2) state

def fullRun : Call σ (List Issue) := fun state =>
  let (links, state) := askEach (fun _ worker => worker.connect) 0 pool.workers state
  match combine false links with
  | .error failure => (.error failure, state)
  | .ok _ =>
      let count := pool.workers.length
      let (answers, state) := askEach
        (fun index worker => worker.reportShare (Partition.of index count)) 0 pool.workers state
      match combine (pool.signalled state) answers, pool.workers with
      | .error failure, _ => (.error failure, state)
      | .ok _, [] => (.error pool.noWorkers, state)
      | .ok shares, first :: others =>
          let elsewhere := (shares.drop 1).flatten
          match first.seed elsewhere state with
          | (.error failure, state) => (.error failure, state)
          | (.ok _, state) =>
              (.ok (Issue.sort (shares.headD [] ++ elsewhere)), release others state)

/-- Connects the first worker; a full run connects all of them. -/
def connect : Call (Pooled σ) Unit := fun ⟨done, state⟩ =>
  match pool.workers with
  | [] => (.error pool.noWorkers, ⟨done, state⟩)
  | first :: _ =>
      let (result, after) := first.connect state
      (result, ⟨done, after⟩)

def report (change : Change) : Call (Pooled σ) (List Issue) := fun ⟨done, state⟩ =>
  if done then
    match pool.workers with
    | [] => (.error pool.noWorkers, ⟨true, state⟩)
    | first :: _ =>
        let (result, after) := first.report change state
        (result, ⟨true, after⟩)
  else if pool.signalled state then (.error (.error .cancelled), ⟨false, state⟩)
  else
    match pool.fullRun state with
    | (.ok issues, after) => (.ok issues, ⟨true, after⟩)
    | (.error failure, after) => (.error failure, ⟨false, after⟩)

/-- Lets all workers go, and answers with the first that minded. The next run is a full one. -/
def disconnect : Call (Pooled σ) Unit := fun ⟨_, state⟩ =>
  let (answers, after) := askEach (fun _ worker => worker.disconnect) 0 pool.workers state
  ((combine false answers).map fun _ => (), ⟨false, after⟩)

end Pool

end Reanalysis
