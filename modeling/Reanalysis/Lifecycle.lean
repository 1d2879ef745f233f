/-
Cycles and their reports. Every trigger starts a cycle over all reporters and makes
its report the current one; the token of the cycle before is signalled. A cycle hands
its change out only after the cycle before has, so changes reach the reporters in the
order of the triggers. What reporters answer comes in as events, in any order.

A report is numbered by its trigger, from one. Announcements are made for the current
report only. Events that do not apply to the state they meet change nothing.
-/

import Reanalysis.Change
import Reanalysis.Failure
import Reanalysis.IssueFilter

namespace Reanalysis

inductive Outcome where
  | resolved (issues : List Issue)
  | cancelled
  | errored (error : CycleError)
deriving DecidableEq, Repr

namespace Outcome

/-- The first failure that is no cancellation, in the order of the engines. -/
def firstError (answers : List (String × Except AnalysisError (List Issue))) :
    Option CycleError :=
  answers.findSome? fun (engine, answer) =>
    match answer with
    | .error .cancelled => none
    | .error cause => some ⟨engine, cause⟩
    | .ok _ => none

def allIssues : List (String × Except AnalysisError (List Issue)) → Option (List Issue)
  | [] => some []
  | (_, .ok issues) :: rest => (allIssues rest).map (issues ++ ·)
  | (_, .error _) :: _ => none

/-- A signalled token outweighs all answers, and a failure outweighs a cancellation. -/
def of (filter : IssueFilter) (signalled : Bool)
    (answers : List (String × Except AnalysisError (List Issue))) : Outcome :=
  if signalled then .cancelled
  else
    match firstError answers, allIssues answers with
    | some error, _ => .errored error
    | none, none => .cancelled
    | none, some issues => .resolved (filter.apply issues)

end Outcome

inductive Status where
  | idle
  | running
  | resolved
  | cancelled
  | errored
deriving DecidableEq, Repr

def Status.name : Status → String
  | .idle => "idle"
  | .running => "running"
  | .resolved => "resolved"
  | .cancelled => "cancelled"
  | .errored => "errored"

/-- How far a cycle is. For each reporter there is what it has answered, if it has. -/
inductive Phase where
  | queued
  | connecting (links : List (Option (Except Failure Unit)))
  | reporting (answers : List (Option (Except Failure (List Issue))))
  | settled (outcome : Outcome)

structure Cycle where
  change : Change
  signalled : Bool
  phase : Phase

namespace Cycle

/-- Whether the change has been handed to all reporters. -/
def handedOut (cycle : Cycle) : Bool :=
  match cycle.phase with
  | .queued => false
  | .connecting _ => false
  | .reporting _ => true
  | .settled _ => true

def outcome? (cycle : Cycle) : Option Outcome :=
  match cycle.phase with
  | .settled outcome => some outcome
  | _ => none

end Cycle

inductive Announcement where
  | waiting
  | final (outcome : Outcome)
deriving DecidableEq, Repr

structure Delivery where
  report : Nat
  finished : Bool
deriving DecidableEq, Repr

structure Lifecycle where
  engines : List String
  filter : IssueFilter
  pending : PendingChanges
  cycles : List Cycle
  deliveries : List Delivery

/-- What happens to the life cycle. Reporters and deliveries are numbered from zero. -/
inductive Event where
  | trigger (change : Change)
  /-- A cycle gets to run for the first time. -/
  | start (report : Nat)
  | connected (report reporter : Nat) (result : Except Failure Unit)
  | answered (report reporter : Nat) (result : Except Failure (List Issue))
  | deliver (report : Nat)
  /-- A delivery that waits looks at its report again. -/
  | wake (delivery : Nat)
  /-- A delivery is given up, and announces nothing more. -/
  | abandon (delivery : Nat)
  | teardown

inductive Command where
  | connect (report reporter : Nat)
  | ask (report reporter : Nat) (change : Change) (signalled : Bool)
  | disconnect (reporter : Nat)
  /-- The token of the report has been signalled. -/
  | signal (report : Nat)
  | announce (report : Nat) (announcement : Announcement)

namespace Lifecycle

def new (engines : List String) (filter : IssueFilter) : Lifecycle :=
  ⟨engines, filter, PendingChanges.empty, [], []⟩

/-- The number of the current report; zero before the first trigger. -/
def current (life : Lifecycle) : Nat := life.cycles.length

def cycle? (life : Lifecycle) (report : Nat) : Option Cycle :=
  if report = 0 then none else life.cycles[report - 1]?

def update (life : Lifecycle) (report : Nat) (change : Cycle → Cycle) : Lifecycle :=
  { life with cycles := life.cycles.modify (report - 1) change }

def setPhase (life : Lifecycle) (report : Nat) (phase : Phase) : Lifecycle :=
  life.update report fun cycle => { cycle with phase := phase }

def outcome? (life : Lifecycle) (report : Nat) : Option Outcome :=
  (life.cycle? report).bind Cycle.outcome?

def status (life : Lifecycle) : Status :=
  if life.current = 0 then .idle
  else
    match life.outcome? life.current with
    | none => .running
    | some (.resolved _) => .resolved
    | some .cancelled => .cancelled
    | some (.errored _) => .errored

/-! ### The course of a cycle -/

/-- Signals the token of the current report, if there is one. -/
def signalCurrent (life : Lifecycle) : Lifecycle × List Command :=
  if life.current = 0 then (life, [])
  else
    (life.update life.current fun cycle => { cycle with signalled := true },
      [.signal life.current])

/-- Starts a cycle with all that has changed since the last one was started. -/
def trigger (life : Lifecycle) (change : Change) : Lifecycle × List Command :=
  let (drained, pending) := (life.pending.accumulate change).drain
  let (superseded, commands) := life.signalCurrent
  ({ superseded with
      pending := pending
      cycles := superseded.cycles ++ [⟨drained, false, .queued⟩] },
    commands)

def settle (life : Lifecycle) (report : Nat) (cycle : Cycle)
    (answers : List (Option (Except Failure (List Issue)))) : Lifecycle :=
  match answers.mapM id with
  | none => life.setPhase report (.reporting answers)
  | some complete =>
      let named := life.engines.zipWith
        (fun engine answer => (engine, answer.mapError (Failure.toError engine))) complete
      life.setPhase report (.settled (Outcome.of life.filter cycle.signalled named))

/-- Hands the change to every reporter that could be connected, once all have been tried.
A failed connection counts as the answer. -/
def handOut (life : Lifecycle) (report : Nat) (cycle : Cycle)
    (links : List (Option (Except Failure Unit))) : Lifecycle × List Command :=
  match links.mapM id with
  | none => (life.setPhase report (.connecting links), [])
  | some complete =>
      let answers := complete.map fun link =>
        match link with
        | .ok _ => none
        | .error failure => some (.error failure)
      let asked := answers.zipIdx.filterMap fun (answer, reporter) =>
        if answer.isNone then some (Command.ask report reporter cycle.change cycle.signalled)
        else none
      (life.settle report cycle answers, asked)

/-- Whether the cycle before has handed its change out. -/
def mayStart (life : Lifecycle) (report : Nat) : Bool :=
  match life.cycle? (report - 1) with
  | none => true
  | some before => before.handedOut

/-- Connects all reporters for a cycle that has not been started. -/
def launch (life : Lifecycle) (report : Nat) : Lifecycle × List Command :=
  match life.cycle? report with
  | some ⟨change, signalled, .queued⟩ =>
      let count := life.engines.length
      let cycle : Cycle := ⟨change, signalled, .queued⟩
      let (next, asked) := life.handOut report cycle (List.replicate count none)
      (next, (List.range count).map (.connect report) ++ asked)
  | _ => (life, [])

/-- Launches a cycle, unless the cycle before has not handed its change out. -/
def start (life : Lifecycle) (report : Nat) : Lifecycle × List Command :=
  if life.mayStart report then life.launch report else (life, [])

def connected (life : Lifecycle) (report reporter : Nat)
    (result : Except Failure Unit) : Lifecycle × List Command :=
  match life.cycle? report with
  | some ⟨change, signalled, .connecting links⟩ =>
      if links[reporter]? matches some none then
        life.handOut report ⟨change, signalled, .connecting links⟩
          (links.set reporter (some result))
      else (life, [])
  | _ => (life, [])

def answered (life : Lifecycle) (report reporter : Nat)
    (result : Except Failure (List Issue)) : Lifecycle :=
  match life.cycle? report with
  | some ⟨change, signalled, .reporting answers⟩ =>
      if answers[reporter]? matches some none then
        life.settle report ⟨change, signalled, .reporting answers⟩
          (answers.set reporter (some result))
      else life
  | _ => life

def addDelivery (life : Lifecycle) (delivery : Delivery) : Lifecycle :=
  { life with deliveries := life.deliveries ++ [delivery] }

/-- A report that is no longer current is not delivered. -/
def deliver (life : Lifecycle) (report : Nat) : Lifecycle × List Command :=
  if report = life.current then
    match life.outcome? report with
    | some outcome => (life.addDelivery ⟨report, true⟩, [.announce report (.final outcome)])
    | none => (life.addDelivery ⟨report, false⟩, [.announce report .waiting])
  else (life.addDelivery ⟨report, true⟩, [])

/-- Announces a report that has settled, unless it is no longer current. -/
def wake (life : Lifecycle) (delivery : Nat) : Lifecycle × List Command :=
  match life.deliveries[delivery]? with
  | some ⟨report, false⟩ =>
      match life.outcome? report with
      | none => (life, [])
      | some outcome =>
          ({ life with deliveries := life.deliveries.set delivery ⟨report, true⟩ },
            if report = life.current then [.announce report (.final outcome)] else [])
  | _ => (life, [])

def abandon (life : Lifecycle) (delivery : Nat) : Lifecycle :=
  { life with
    deliveries := life.deliveries.modify delivery fun ⟨report, _⟩ => ⟨report, true⟩ }

/-- Signals the token of the current report, and has the reporters disconnected in their order. -/
def teardown (life : Lifecycle) : Lifecycle × List Command :=
  let (signalled, commands) := life.signalCurrent
  (signalled, commands ++ (List.range life.engines.length).map .disconnect)

def step (life : Lifecycle) : Event → Lifecycle × List Command
  | .trigger change => life.trigger change
  | .start report => life.start report
  | .connected report reporter result => life.connected report reporter result
  | .answered report reporter result => (life.answered report reporter result, [])
  | .deliver report => life.deliver report
  | .wake delivery => life.wake delivery
  | .abandon delivery => (life.abandon delivery, [])
  | .teardown => life.teardown

/-- All events in order, with everything that was to be done. -/
def run (life : Lifecycle) : List Event → Lifecycle × List Command
  | [] => (life, [])
  | event :: rest =>
      let (next, commands) := life.step event
      let (last, later) := run next rest
      (last, commands ++ later)

end Lifecycle

end Reanalysis
