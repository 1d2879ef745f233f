/-
A worker that serves one engine over a channel. Runs and seeds need the memory and
have it one after the other, in the order in which their requests came.

The token of a run is registered as soon as its request is looked at, before the next
message is, so a cancellation right behind the request finds it, also while the run
waits for the memory. It stays registered until the run ends.
-/

import Reanalysis.Cancellation
import Reanalysis.Engine.Analyzer
import Reanalysis.Wire.Channel

namespace Reanalysis

inductive Job where
  | run (change : Change) (share : Option Partition) (token : Token)
  | seed (issues : List Issue)

/-- A handler that has looked at its payload and not had its turn yet. -/
inductive Begun where
  | ended (ending : Ending)
  | wants (job : Job)

/-- A run in progress, with the files that it has not visited yet. -/
structure ActiveRun where
  request : Request
  token : Token
  files : List SourcePath

structure Service where
  engine : String
  channel : Channel
  memory : Memory
  groups : TokenGroups
  /-- Tokens by the numbers that the other side knows them by. -/
  registry : List (Nat × Token)
  begun : List Begun
  waiting : List (Request × Job)
  active : Option ActiveRun
  output : List Message

namespace Service

def connectTopic : String := "connect"

def runTopic : String := "run"

def seedTopic : String := "seed"

def disconnectTopic : String := "disconnect"

def cancelTopic : String := "cancel"

def endpoint : Endpoint :=
  ((((Endpoint.new.handle connectTopic).handle runTopic).handle seedTopic).handle
    disconnectTopic).listen cancelTopic

def new (engine : String) : Service :=
  { engine := engine
    channel := Channel.ofEndpoint endpoint
    memory := Memory.new
    groups := TokenGroups.empty
    registry := []
    begun := []
    waiting := []
    active := none
    output := [] }

/-- Makes a token for a signal and files it under the number of the signal. -/
def register (service : Service) (signal : Signal) : Token × Service :=
  let (token, groups) := service.groups.ofSignal signal
  (token,
    { service with
      groups := groups
      registry := (signal.id, token) ::
        service.registry.filter (fun entry => entry.1 ≠ signal.id) })

def withBegun (service : Service) (begun : Begun) : Service :=
  { service with begun := service.begun ++ [begun] }

/-- The part of a handler that runs at once. -/
def accept (service : Service) (request : Request) : Service :=
  let document := request.payload.document
  if request.topic = runTopic then
    match RunOrder.ofDocument? document with
    | none => service.withBegun (.ended .unreadable)
    | some order =>
        let (token, registered) := service.register order.signal
        registered.withBegun (.wants (.run (order.change.getD Change.empty) order.share token))
  else if request.topic = seedTopic then
    match SeedOrder.ofDocument? document with
    | none => service.withBegun (.ended .unreadable)
    | some order => service.withBegun (.wants (.seed order.issues))
  else if request.topic = connectTopic then
    service.withBegun (.ended (.value (Greeting.mk service.engine).toJson))
  else service.withBegun (.ended (.value .null))

/-- A cancellation signals the token that is registered under its number. -/
def hear (service : Service) (notice : Notification) : Service :=
  match CancelOrder.ofDocument? notice.payload.document with
  | none => service
  | some order =>
      match service.registry.find? (fun entry => entry.1 = order.token) with
      | none => service
      | some (_, token) => { service with groups := service.groups.request token }

def carryOut (service : Service) : List ChannelEffect → Service
  | [] => service
  | effect :: rest =>
      carryOut
        (match effect with
        | .accept request => service.accept request
        | .hear notice => service.hear notice
        | .write message => { service with output := service.output ++ [message] }
        | .settle _ _ => service
        | .endStream => service)
        rest

def act (service : Service) (step : Channel × List ChannelEffect) : Service :=
  { service with channel := step.1 }.carryOut step.2

def dispatch (service : Service) (message : Message) : Service :=
  service.act (service.channel.dispatch message)

def feed (service : Service) (bytes : List UInt8) : Service :=
  service.act (service.channel.feed bytes)

def endInput (service : Service) : Service := service.act service.channel.endInput

def isClosed (service : Service) : Bool := service.channel.endpoint.isClosed

/-! ### Work on the memory -/

variable {σ : Type} (analyzer : Analyzer σ)

def answer (service : Service) (request : Request) (ending : Ending) : Service :=
  service.act (service.channel.answer request ending)

/-- The engine of a run stops for the token of the run. -/
def analyzerFor (service : Service) (token : Token) : Analyzer σ :=
  { analyzer with
    signalled := fun state => analyzer.signalled state || service.groups.isRequested token }

/-- Ends a run. A run that breaks off leaves its token registered. -/
def endRun (service : Service) (request : Request) (token : Token)
    (stop : Option Failure) : Service :=
  let (result, memory) := Analyzer.conclude stop service.memory
  let id := (service.groups.signal token).id
  let ended := { service with memory := memory, active := none }
  let settled := { ended with registry := ended.registry.filter (fun entry => entry.1 ≠ id) }
  match result with
  | .ok issues => settled.answer request (.value (Issue.listToJson issues))
  | .error (.error cause) => settled.answer request (.refused cause.toFault)
  | .error (.broke thrown) => ended.answer request (.broke thrown)

/-- Starts a job, which is done at once unless there are files to visit. -/
def start (service : Service) (request : Request) (state : σ) : Job → Service
  | .seed issues =>
      { service with memory := service.memory.seed issues }.answer request (.value .null)
  | .run change share token =>
      let runner := service.analyzerFor analyzer token
      let (files, memory) :=
        match share with
        | none => runner.takeUp change service.memory state
        | some share => runner.takeUpShare share service.memory state
      let begun := { service with memory := memory }
      match files with
      | .error cause => begun.endRun request token (some (.error cause))
      | .ok [] => begun.endRun request token none
      | .ok files => { begun with active := some ⟨request, token, files⟩ }

def handlerTurn (service : Service) (request : Request) (state : σ) : Service :=
  match service.begun with
  | [] => service
  | .ended ending :: rest => { service with begun := rest }.answer request ending
  | .wants job :: rest =>
      let next := { service with begun := rest }
      if next.active.isNone && next.waiting.isEmpty then next.start analyzer request state job
      else { next with waiting := next.waiting ++ [(request, job)] }

def takeTurns (service : Service) (state : σ) : List Turn → Service
  | [] => service
  | .writer :: rest => takeTurns (service.act service.channel.write) state rest
  | .handler request :: rest => takeTurns (service.handlerTurn analyzer request state) state rest

def round (service : Service) (state : σ) : Service :=
  { service with channel := { service.channel with turns := [] } }.takeTurns analyzer state
    service.channel.turns

/-- One unit of work on the memory: the active run visits a file, or the next job starts. -/
def advance (service : Service) (state : σ) : Service × σ :=
  match service.active with
  | some ⟨request, token, file :: rest⟩ =>
      match (service.analyzerFor analyzer token).attempt file rest service.memory state with
      | (none, memory, after) =>
          ({ service with memory := memory, active := some ⟨request, token, rest⟩ }, after)
      | (some failure, memory, after) =>
          ({ service with memory := memory }.endRun request token (some failure), after)
  | some ⟨request, token, []⟩ => (service.endRun request token none, state)
  | none =>
      match service.waiting with
      | [] => (service, state)
      | (request, job) :: rest =>
          ({ service with waiting := rest }.start analyzer request state job, state)

/-- Advances until the active run has ended, at most so many times. -/
def advanceActive : Nat → Service → σ → Service × σ
  | 0, service, state => (service, state)
  | count + 1, service, state =>
      if service.active.isNone then (service, state)
      else
        let (next, after) := service.advance analyzer state
        advanceActive count next after

/-- The active run visits the rest of its files, or those up to the one that it stops at, and
ends. No other job starts. -/
def finishActive (service : Service) (state : σ) : Service × σ :=
  match service.active with
  | none => (service, state)
  | some run => service.advanceActive analyzer (run.files.length + 1) state

/-- Does the jobs that wait, one for each entry of the list. -/
def finishWaiting (service : Service) (state : σ) :
    List (Request × Job) → Service × σ
  | [] => (service, state)
  | _ :: rest =>
      let (started, state) := service.advance analyzer state
      let (ended, state) := started.finishActive analyzer state
      finishWaiting ended state rest

/-- Everything that can happen without further input happens. -/
def idle (service : Service) (state : σ) : Service × σ :=
  let waiting := (service.round analyzer state)
  let (free, state) := waiting.finishActive analyzer state
  let (done, state) := free.finishWaiting analyzer state free.waiting
  (done.round analyzer state, state)

theorem accept_jobs (service : Service) (request : Request) :
    (service.accept request).active = service.active ∧
      (service.accept request).waiting = service.waiting := by
  unfold accept
  dsimp only
  repeat' split
  all_goals exact ⟨rfl, rfl⟩

theorem hear_jobs (service : Service) (notice : Notification) :
    (service.hear notice).active = service.active ∧
      (service.hear notice).waiting = service.waiting := by
  unfold hear
  repeat' split
  all_goals exact ⟨rfl, rfl⟩

theorem carryOut_jobs (service : Service) (effects : List ChannelEffect) :
    (service.carryOut effects).active = service.active ∧
      (service.carryOut effects).waiting = service.waiting := by
  induction effects generalizing service with
  | nil => exact ⟨rfl, rfl⟩
  | cons effect rest ih =>
      unfold carryOut
      obtain ⟨sameActive, sameWaiting⟩ := ih _
      rw [sameActive, sameWaiting]
      cases effect with
      | accept request => exact accept_jobs service request
      | hear notice => exact hear_jobs service notice
      | write message => exact ⟨rfl, rfl⟩
      | settle id outcome => exact ⟨rfl, rfl⟩
      | endStream => exact ⟨rfl, rfl⟩

theorem answer_jobs (service : Service) (request : Request) (ending : Ending) :
    (service.answer request ending).active = service.active ∧
      (service.answer request ending).waiting = service.waiting :=
  carryOut_jobs _ _

theorem endRun_jobs (service : Service) (request : Request) (token : Token)
    (stop : Option Failure) :
    (service.endRun request token stop).active = none ∧
      (service.endRun request token stop).waiting = service.waiting := by
  unfold endRun
  dsimp only
  split <;> exact answer_jobs _ _ _

end Service

end Reanalysis
