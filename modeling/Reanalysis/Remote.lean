/-
Workers in processes of their own. A handle starts the process when it is first
needed, talks to it over a channel, and starts a new one when the old one is gone.

A process is whatever answers bytes with bytes; what it finds around itself does not
change while it answers.
-/

import Reanalysis.Cancellation
import Reanalysis.Pool
import Reanalysis.Service

namespace Reanalysis

/-- How processes are started and what they do. One that has ended answers nothing. -/
structure Program (π ε : Type) where
  name : String
  launch : ε → Except String π
  deliver : List UInt8 → π → ε → Option (List UInt8 × π)

structure Live (π : Type) where
  channel : Channel
  process : π
  number : Nat
  ready : Bool

/-- Processes are numbered in the order in which they were started. -/
structure Handle (π : Type) where
  name : String
  live : Option (Live π)
  launched : Nat

namespace Live

variable {π ε : Type} (program : Program π ε) (surroundings : ε)

def settled (effects : List ChannelEffect) : List (Nat × Except CallError Json) :=
  effects.filterMap fun effect =>
    match effect with
    | .settle call outcome => some (call, outcome)
    | _ => none

def written (effects : List ChannelEffect) : List UInt8 :=
  effects.flatMap fun effect =>
    match effect with
    | .write message => Utf8.encode message.line
    | _ => []

/-- Passes bytes back and forth until this side has nothing left to say, for so many rounds
at most. Answers with the calls that were settled. -/
def exchange : Nat → Live π → Live π × List (Nat × Except CallError Json)
  | 0, live => (live, [])
  | rounds + 1, live =>
      let (channel, effects) := { live.channel with turns := [] }.write
      let bytes := written effects
      if bytes.isEmpty then ({ live with channel := channel }, settled effects)
      else
        match program.deliver bytes live.process surroundings with
        | none =>
            let (closed, later) := channel.close "worker exited"
            ({ live with channel := closed }, settled (effects ++ later))
        | some (output, process) =>
            let (fed, later) := channel.feed output
            let (last, more) := exchange rounds { live with channel := fed, process := process }
            (last, settled (effects ++ later) ++ more)

/-- A call takes one round; one that comes back as it was sent takes two more. -/
def rounds : Nat := 4

end Live

namespace Handle

variable {π ε : Type} (program : Program π ε) (surroundings : ε)

def new (name : String) : Handle π := ⟨name, none, 0⟩

def isAlive (handle : Handle π) : Bool :=
  handle.live.any fun live => !live.channel.endpoint.isClosed

/-- The number of the process, if one was started and not stopped. -/
def process? (handle : Handle π) : Option Nat := handle.live.map Live.number

def notRunning (handle : Handle π) : AnalysisError :=
  .transportClosed ("worker '" ++ handle.name ++ "' is not running")

/-! ### Calls -/

/-- Leaves a notification to be sent, if there is one and the channel still takes it. -/
def tell (channel : Channel) : Option Notification → Channel
  | none => channel
  | some notice =>
      match channel.notify notice.topic notice.payload with
      | .ok (told, _) => told
      | .error _ => channel

/-- Sends a request, with one notification right ahead of it and one right behind it, if there
are any. -/
def call {α : Type} (handle : Handle π) (topic : String) (payload : Json)
    (ahead behind : Option Notification) (decode : Document → Option α) :
    Except AnalysisError α × Handle π :=
  match handle.live with
  | none => (.error handle.notRunning, handle)
  | some live =>
      let told := tell live.channel ahead
      let id := told.endpoint.nextId
      let (asked, effects) := told.request topic payload
      let sent := tell asked behind
      let (last, answers) := { live with channel := sent }.exchange program surroundings Live.rounds
      let outcome := ((Live.settled effects ++ answers).find? (fun answer => answer.1 = id)).map
        Prod.snd
      let result := Answer.read decode (outcome.getD (.error (.closed "no answer")))
      (result.mapError AnalysisError.ofCall, { handle with live := some last })

def notify (handle : Handle π) (topic : String) (payload : Json) :
    Except AnalysisError Unit × Handle π :=
  match handle.live with
  | none => (.error handle.notRunning, handle)
  | some live =>
      match live.channel.notify topic payload with
      | .error error => (.error (.ofCall error), handle)
      | .ok (channel, _) =>
          let (last, _) :=
            { live with channel := channel }.exchange program surroundings Live.rounds
          (.ok (), { handle with live := some last })

def ensureLaunched (handle : Handle π) : Except AnalysisError (Handle π) :=
  if handle.isAlive then .ok handle
  else
    match program.launch surroundings with
    | .error text =>
        .error (.engine handle.name ("failed to spawn " ++ program.name ++ ": " ++ text))
    | .ok process =>
        let number := handle.launched + 1
        .ok ⟨handle.name, some ⟨Channel.ofEndpoint Endpoint.new, process, number, false⟩, number⟩

/-- Makes sure that a process is there and has answered once. -/
def connect (handle : Handle π) : Except AnalysisError Unit × Handle π :=
  match handle.ensureLaunched program surroundings with
  | .error cause => (.error cause, handle)
  | .ok launched =>
      if launched.live.any Live.ready then (.ok (), launched)
      else
        match launched.call program surroundings Service.connectTopic .null none none
          Greeting.ofDocument? with
        | (.error cause, next) => (.error cause, next)
        | (.ok _, next) =>
            (.ok (), { next with live := next.live.map fun live => { live with ready := true } })

def kill (handle : Handle π) : Handle π := { handle with live := none }

/-- Asks the process to end, then ends it whatever it answers. -/
def disconnect (handle : Handle π) : Handle π :=
  if handle.isAlive then
    (handle.call program surroundings Service.disconnectTopic .null none none
      Document.unit?).2.kill
  else handle.kill

/-- Sends an order. If its signal has been given, a cancellation is sent as well: behind the order,
or ahead of it if the signal is noticed early. -/
def run (handle : Handle π) (early : Bool) (order : RunOrder) :
    Except AnalysisError (List Issue) × Handle π :=
  let cancellation : Option Notification :=
    if order.signal.cancelled then
      some ⟨Service.cancelTopic, (CancelOrder.mk order.signal.id).toJson⟩
    else none
  handle.call program surroundings Service.runTopic order.toJson
    (if early then cancellation else none) (if early then none else cancellation)
    Issue.listOfDocument?

def report (handle : Handle π) (early : Bool) (change : Change) (signal : Signal) :
    Except AnalysisError (List Issue) × Handle π :=
  handle.run program surroundings early ⟨some change, none, signal⟩

def reportShare (handle : Handle π) (early : Bool) (share : Partition) (signal : Signal) :
    Except AnalysisError (List Issue) × Handle π :=
  handle.run program surroundings early ⟨none, some share, signal⟩

def seed (handle : Handle π) (issues : List Issue) : Except AnalysisError Unit × Handle π :=
  handle.call program surroundings Service.seedTopic (SeedOrder.mk issues).toJson none none
    Document.unit?

variable {σ : Type} (held : σ → Handle π) (hold : Handle π → σ → σ)

def asCall {α : Type} (call : Handle π → σ → Except AnalysisError α × Handle π) :
    Call σ α := fun state =>
  let (result, handle) := call (held state) state
  (result.mapError .error, hold handle state)

/-- A worker in surroundings that hold the handle, what the process finds around itself, the token
of the run, and whether its signal is noticed early. Letting it go always succeeds. -/
def worker (around : σ → ε) (token : σ → Signal) (early : σ → Bool) : Worker σ :=
  { connect := asCall held hold fun handle state => handle.connect program (around state)
    report := fun change => asCall held hold fun handle state =>
      handle.report program (around state) (early state) change (token state)
    reportShare := fun share => asCall held hold fun handle state =>
      handle.reportShare program (around state) (early state) share (token state)
    seed := fun issues => asCall held hold fun handle state =>
      handle.seed program (around state) issues
    disconnect := asCall held hold fun handle state =>
      (.ok (), handle.disconnect program (around state)) }

end Handle

end Reanalysis
