/-
A life cycle together with its reporters. Cycles and deliveries get to run in the
order in which they were begun, and so do reporters that a signal ends; deliveries
that wait look again after that.

A session may also listen to its host: each trigger is delivered, and when the host
hangs up or asks for the end, the session tears down and waits for its deliveries.
If tearing down breaks off, it gives them up.
-/

import Reanalysis.Lifecycle

namespace Reanalysis

/-- How commands are carried out in surroundings that they may alter. Reporters are known by
their numbers, and an answer may be left open. -/
structure Reporters (σ : Type) where
  connect : Nat → σ → Except Failure Unit × σ
  ask : Nat → Nat → Change → Bool → σ → Option (Except Failure (List Issue)) × σ
  disconnect : Nat → σ → Except Failure Unit × σ
  /-- Who ends its work, and with what answer, because the token of a report has been
  signalled. -/
  signal : Nat → σ → List (Nat × Except Failure (List Issue)) × σ
  announce : Announcement → σ → σ

/-- What was begun and has not run yet. A delivery is owned if the end of the session waits
for it. -/
inductive Task where
  | cycle (report : Nat)
  | delivery (report : Nat) (owned : Bool)
  /-- A reporter that a signal has reached ends with this answer. -/
  | answer (report reporter : Nat) (result : Except Failure (List Issue))

def Task.isOwned : Task → Bool
  | .delivery _ owned => owned
  | .cycle _ => false
  | .answer _ _ _ => false

inductive Stage where
  | listening
  | closing
  | finished
deriving DecidableEq, Repr

inductive HostEvent where
  | initial
  | incremental (change : Change)
  | teardown
  | hangUp

structure Session where
  life : Lifecycle
  tasks : List Task
  /-- The deliveries that the end of the session waits for. -/
  owned : List Nat
  stage : Stage
  /-- What the host has said and the session has not heard yet. -/
  inbox : List HostEvent

namespace Session

def new (engines : List String) (filter : IssueFilter) : Session :=
  ⟨Lifecycle.new engines filter, [], [], .listening, []⟩

variable {σ : Type} (reporters : Reporters σ)

def note (session : Session) (event : Event) : Session :=
  { session with life := (session.life.step event).1 }

def performLast (session : Session) (state : σ) : List Command → Session × σ
  | [] => (session, state)
  | command :: rest =>
      let (next, after) : Session × σ :=
        match command with
        | .connect _ _ => (session, state)
        | .ask report reporter change signalled =>
            match reporters.ask report reporter change signalled state with
            | (none, after) => (session, after)
            | (some answer, after) => (session.note (.answered report reporter answer), after)
        | .disconnect reporter => (session, (reporters.disconnect reporter state).2)
        | .signal report =>
            let (answers, after) := reporters.signal report state
            let tasks := answers.map fun (reporter, answer) => Task.answer report reporter answer
            ({ session with tasks := session.tasks ++ tasks }, after)
        | .announce _ announcement => (session, reporters.announce announcement state)
      performLast next after rest

/-- Carries out commands; once all connections are there, the change is handed out. -/
def perform (session : Session) (state : σ) : List Command → Session × σ
  | [] => (session, state)
  | .connect report reporter :: rest =>
      let (result, state) := reporters.connect reporter state
      let (life, commands) := session.life.step (.connected report reporter result)
      let (next, state) := { session with life := life }.performLast reporters state commands
      perform next state rest
  | command :: rest =>
      let (next, state) := session.performLast reporters state [command]
      perform next state rest

/-- Carries out the commands of a teardown. A reporter that cannot be disconnected is passed
over, one that breaks off is the last. Answers with whether all commands were carried out. -/
def performTeardown (session : Session) (state : σ) : List Command → Bool × Session × σ
  | [] => (true, session, state)
  | .disconnect reporter :: rest =>
      match reporters.disconnect reporter state with
      | (.error (.broke _), after) => (false, session, after)
      | (_, after) => performTeardown session after rest
  | command :: rest =>
      let (next, after) := session.performLast reporters state [command]
      performTeardown next after rest

def happen (session : Session) (event : Event) (state : σ) : Session × σ :=
  let (life, commands) := session.life.step event
  { session with life := life }.perform reporters state commands

/-! ### What the surroundings may do -/

def trigger (session : Session) (change : Change) (state : σ) : Session × σ :=
  let (next, after) := session.happen reporters (.trigger change) state
  ({ next with tasks := next.tasks ++ [.cycle next.life.current] }, after)

def deliver (session : Session) (report : Nat) : Session :=
  { session with tasks := session.tasks ++ [.delivery report false] }

/-- Tears down. Answers with whether all reporters were asked to disconnect. -/
def teardown (session : Session) (state : σ) : Bool × Session × σ :=
  let (life, commands) := session.life.step .teardown
  { session with life := life }.performTeardown reporters state commands

def answered (session : Session) (report reporter : Nat)
    (answer : Except Failure (List Issue)) : Session :=
  session.note (.answered report reporter answer)

def post (session : Session) (event : HostEvent) : Session :=
  { session with inbox := session.inbox ++ [event] }

/-- Starts a cycle whose delivery the end of the session waits for. -/
def serve (session : Session) (change : Change) (state : σ) : Session × σ :=
  let (next, after) := session.trigger reporters change state
  ({ next with tasks := next.tasks ++ [.delivery next.life.current true] }, after)

/-- Ends the session at once. Its deliveries announce nothing more, and those that have not
run yet do not run. -/
def giveUp (session : Session) : Session :=
  let left := session.owned.foldl (fun left delivery => left.note (.abandon delivery)) session
  { left with
    tasks := left.tasks.filter fun task => !task.isOwned
    owned := []
    stage := .finished }

/-- Tears down, and stops listening. If tearing down breaks off, nothing is waited for. -/
def windUp (session : Session) (state : σ) : Session × σ :=
  let (complete, next, after) := session.teardown reporters state
  (if complete then { next with stage := .closing } else next.giveUp, after)

/-- The host is not heard after the end. -/
def hear (session : Session) (event : HostEvent) (state : σ) : Session × σ :=
  match session.stage, event with
  | .listening, .initial => session.serve reporters Change.empty state
  | .listening, .incremental change => session.serve reporters change state
  | .listening, .teardown => session.windUp reporters state
  | .listening, .hangUp => session.windUp reporters state
  | .closing, _ => (session, state)
  | .finished, _ => (session, state)

def hearAll (session : Session) (state : σ) : List HostEvent → Session × σ
  | [] => (session, state)
  | event :: rest =>
      let (next, after) := session.hear reporters event state
      hearAll next after rest

def runTasks (session : Session) (state : σ) : List Task → Session × σ
  | [] => (session, state)
  | .cycle report :: rest =>
      let (next, state) := session.happen reporters (.start report) state
      runTasks next state rest
  | .delivery report owned :: rest =>
      let number := session.life.deliveries.length
      let (next, state) := session.happen reporters (.deliver report) state
      let kept := if owned then next.owned ++ [number] else next.owned
      runTasks { next with owned := kept } state rest
  | .answer report reporter result :: rest =>
      runTasks (session.note (.answered report reporter result)) state rest

def wakeAll (session : Session) (state : σ) : List Nat → Session × σ
  | [] => (session, state)
  | delivery :: rest =>
      let (next, state) := session.happen reporters (.wake delivery) state
      wakeAll next state rest

def delivered (session : Session) : Bool :=
  session.owned.all fun number => (session.life.deliveries[number]?).all Delivery.finished

def finish (session : Session) : Session :=
  if session.stage = .closing ∧ session.delivered then { session with stage := .finished }
  else session

/-- Hears the host and runs everything that was begun, until nothing can go on by itself. -/
def idle (session : Session) (state : σ) : Session × σ :=
  let (heard, state) := { session with inbox := [] }.hearAll reporters state session.inbox
  let (ran, state) := { heard with tasks := [] }.runTasks reporters state heard.tasks
  let (awake, state) := ran.wakeAll reporters state (List.range ran.life.deliveries.length)
  (awake.finish, state)

end Session

end Reanalysis
