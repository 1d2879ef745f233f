/-
An endpoint over two streams of bytes. Lines that come in are dispatched as soon as
they are complete; what the endpoint sends is queued and written in order.

Handlers and the writer take turns in the order in which they became due. All lines
that are there at once are dispatched before anyone takes a turn. Once the endpoint
is closed, the writer writes what is queued at its next turn and ends the stream; what
handlers answer later is lost.
-/

import Reanalysis.Wire.Endpoint
import Reanalysis.Wire.Lines

namespace Reanalysis

inductive Turn where
  | handler (request : Request)
  | writer

inductive Outlet where
  /-- No stream: messages are handed on as they are sent, also after closing. -/
  | direct
  | open
  /-- The other side has stopped reading. -/
  | unread
  | ended
deriving DecidableEq, Repr

/-- What a channel has done by its surroundings. -/
inductive ChannelEffect where
  | settle (call : Nat) (outcome : Except CallError Json)
  /-- The part of a handler that runs before the next message is looked at. -/
  | accept (request : Request)
  | hear (notice : Notification)
  | write (message : Message)
  | endStream

structure Channel where
  endpoint : Endpoint
  /-- The beginning of a line whose end has not come in yet. -/
  partialLine : List UInt8
  reading : Bool
  queue : List Message
  turns : List Turn
  outlet : Outlet

namespace Channel

def ofEndpoint (endpoint : Endpoint) : Channel := ⟨endpoint, [], true, [], [], .open⟩

/-- A channel without streams. Nothing comes in. -/
def detached (endpoint : Endpoint) : Channel := ⟨endpoint, [], false, [], [], .direct⟩

/-- Takes away what a channel without streams hands its messages on to. A stream stays. -/
def dropOutbound (channel : Channel) : Channel :=
  if channel.outlet = .direct then
    { channel with endpoint := channel.endpoint.dropOutbound }
  else channel

/-- Gives the writer a turn, unless it has one coming or has left. -/
def wakeWriter (channel : Channel) : Channel :=
  let due := channel.turns.any fun turn => match turn with | .writer => true | _ => false
  if due || channel.outlet = .ended then channel
  else { channel with turns := channel.turns ++ [.writer] }

/-- Carries out what the endpoint wants done, as far as it concerns the streams. -/
def perform (channel : Channel) : List Effect → Channel × List ChannelEffect
  | [] => (channel, [])
  | effect :: rest =>
      let (next, done) : Channel × List ChannelEffect :=
        match effect with
        | .send message =>
            if channel.outlet = .ended then (channel, [])
            else ({ channel with queue := channel.queue ++ [message] }.wakeWriter, [])
        | .settle call outcome => (channel, [.settle call outcome])
        | .serve request =>
            ({ channel with turns := channel.turns ++ [.handler request] }, [.accept request])
        | .hear notice => (channel, [.hear notice])
      let (last, later) := perform next rest
      (last, done ++ later)

def request (channel : Channel) (topic : String) (payload : Json) :
    Channel × List ChannelEffect :=
  let (endpoint, effects) := channel.endpoint.request topic payload
  { channel with endpoint := endpoint }.perform effects

def notify (channel : Channel) (topic : String) (payload : Json) :
    Except CallError (Channel × List ChannelEffect) :=
  (channel.endpoint.notify topic payload).map channel.perform

def dispatch (channel : Channel) (message : Message) : Channel × List ChannelEffect :=
  let (endpoint, effects) := channel.endpoint.dispatch message
  { channel with endpoint := endpoint }.perform effects

def answer (channel : Channel) (call : Request) (ending : Ending) :
    Channel × List ChannelEffect :=
  channel.perform (channel.endpoint.answer call ending)

/-- Closing makes the reader leave at once and the writer at its next turn. -/
def close (channel : Channel) (reason : String) : Channel × List ChannelEffect :=
  if channel.endpoint.isClosed then (channel, [])
  else
    let (endpoint, effects) := channel.endpoint.close reason
    { channel with endpoint := endpoint, reading := false }.wakeWriter.perform effects

/-- Takes in one line. A line that cannot be decoded closes the channel. -/
def takeLine (channel : Channel) (bytes : List UInt8) : Channel × List ChannelEffect :=
  if !channel.reading then (channel, [])
  else
    match Wire.readLine bytes with
    | none => (channel, [])
    | some .malformed => (channel, [])
    | some (.message message) => channel.dispatch message
    | some (.undecodable fault) =>
        channel.close ("read failed: " ++ (CallError.broken fault.message).describe)

def takeLines (channel : Channel) : List (List UInt8) → Channel × List ChannelEffect
  | [] => (channel, [])
  | line :: rest =>
      let (next, done) := channel.takeLine line
      let (last, later) := takeLines next rest
      (last, done ++ later)

/-- Takes in bytes, and with them every line that they complete. -/
def feed (channel : Channel) (bytes : List UInt8) : Channel × List ChannelEffect :=
  let lines := Wire.cutLines (channel.partialLine ++ bytes)
  let remainder := lines.getLast?.filter (fun line => line.getLast? ≠ some 0x0A)
  let complete := if remainder.isSome then lines.dropLast else lines
  { channel with partialLine := remainder.getD [] }.takeLines complete

def endInput (channel : Channel) : Channel × List ChannelEffect :=
  if !channel.reading then (channel, [])
  else
    let (last, done) := { channel with partialLine := [] }.takeLines
      (if channel.partialLine.isEmpty then [] else [channel.partialLine])
    let (closed, later) := last.close "peer closed the channel"
    (closed, done ++ later)

def write (channel : Channel) : Channel × List ChannelEffect :=
  match channel.outlet, channel.queue with
  | .direct, messages => ({ channel with queue := [] }, messages.map .write)
  | .ended, _ => (channel, [])
  | .unread, [] =>
      (if channel.endpoint.isClosed then { channel with outlet := .ended } else channel, [])
  | .unread, _ :: _ =>
      { channel with outlet := .ended, queue := [] }.close
        ("write failed: " ++ (CallError.broken "broken pipe").describe)
  | .open, messages =>
      let written : List ChannelEffect := messages.map .write
      if channel.endpoint.isClosed then
        ({ channel with outlet := .ended, queue := [] }, written ++ [.endStream])
      else ({ channel with queue := [] }, written)

def stopReading (channel : Channel) : Channel :=
  if channel.outlet = .open then { channel with outlet := .unread } else channel

def nextTurn (channel : Channel) : Option (Turn × Channel) :=
  match channel.turns with
  | [] => none
  | turn :: rest => some (turn, { channel with turns := rest })

end Channel

end Reanalysis
