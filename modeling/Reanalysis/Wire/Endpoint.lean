/-
One side of a channel: it sends requests and notifications, gives each call the
answer that carries its number, and has its own handlers answer the requests of
the other side. Messages go out and come in as values here; no bytes are involved.

Every event maps the endpoint to its next state and to what is to be done about it,
in order. Handlers run outside and report back how they ended.
-/

import Reanalysis.Wire.Message

namespace Reanalysis

/-- How the run of a handler ended. -/
inductive Ending where
  | value (json : Json)
  | refused (fault : Fault)
  | broke (thrown : Thrown)
  /-- The payload was not of the form that the handler takes, so it did not run. -/
  | unreadable

def Ending.outcome (topic : String) : Ending → Except Fault Json
  | .value json => .ok json
  | .refused fault => .error fault
  | .broke thrown =>
      .error ⟨.engine, "worker: '" ++ topic ++ "' handler panicked: " ++ thrown.message⟩
  | .unreadable => .error ⟨.protocol, "invalid payload for '" ++ topic ++ "': unexpected form"⟩

inductive Effect where
  | send (message : Message)
  | settle (call : Nat) (outcome : Except CallError Json)
  | serve (request : Request)
  | hear (notice : Notification)

/-- Calls that wait are known by the numbers of their requests. -/
structure Endpoint where
  nextId : Nat
  closed : Option String
  waiting : List Nat
  served : List String
  heard : List String
  /-- Whether anyone takes the messages that are sent. -/
  taken : Bool

namespace Endpoint

def new : Endpoint := ⟨1, none, [], [], [], true⟩

def isClosed (endpoint : Endpoint) : Bool := endpoint.closed.isSome

def handle (endpoint : Endpoint) (topic : String) : Endpoint :=
  { endpoint with served := topic :: endpoint.served }

def listen (endpoint : Endpoint) (topic : String) : Endpoint :=
  { endpoint with heard := topic :: endpoint.heard }

def dropOutbound (endpoint : Endpoint) : Endpoint := { endpoint with taken := false }

def emit (endpoint : Endpoint) (message : Message) : List Effect :=
  if endpoint.taken then [.send message] else []

def obstacle (endpoint : Endpoint) : Option CallError :=
  match endpoint.closed with
  | some reason => some (.closed reason)
  | none => if endpoint.taken then none else some (.closed "outbound queue dropped")

/-- Starts a call. It has the number that was next, whether it can be sent or not. -/
def request (endpoint : Endpoint) (topic : String) (payload : Json) : Endpoint × List Effect :=
  let id := endpoint.nextId
  let next := { endpoint with nextId := id + 1 }
  match endpoint.obstacle with
  | some error => (next, [.settle id (.error error)])
  | none =>
      ({ next with waiting := next.waiting ++ [id] }, [.send (.request ⟨id, topic, payload⟩)])

def notify (endpoint : Endpoint) (topic : String) (payload : Json) :
    Except CallError (List Effect) :=
  match endpoint.obstacle with
  | some error => .error error
  | none => .ok [.send (.notification ⟨topic, payload⟩)]

/-- Takes in a message of the other side. Answers that nobody waits for are ignored, and so
are notifications that nobody listens to. -/
def dispatch (endpoint : Endpoint) : Message → Endpoint × List Effect
  | .response answer =>
      if endpoint.waiting.contains answer.id then
        ({ endpoint with waiting := endpoint.waiting.erase answer.id },
          [.settle answer.id (answer.outcome.mapError .refused)])
      else (endpoint, [])
  | .request call =>
      if endpoint.served.contains call.topic then (endpoint, [.serve call])
      else
        let fault : Fault := ⟨.protocol, "unknown topic '" ++ call.topic ++ "'"⟩
        (endpoint, endpoint.emit (.response (Response.ofOutcome call.id (.error fault))))
  | .notification notice =>
      (endpoint, if endpoint.heard.contains notice.topic then [.hear notice] else [])

def answer (endpoint : Endpoint) (call : Request) (ending : Ending) : List Effect :=
  endpoint.emit (.response (Response.ofOutcome call.id (ending.outcome call.topic)))

/-- Closes for good: every waiting call fails with the first reason given. -/
def close (endpoint : Endpoint) (reason : String) : Endpoint × List Effect :=
  match endpoint.closed with
  | some _ => (endpoint, [])
  | none =>
      ({ endpoint with closed := some reason, waiting := [] },
        endpoint.waiting.map fun id => .settle id (.error (.closed reason)))

end Endpoint

def Answer.read {α : Type} (decode : Document → Option α) :
    Except CallError Json → Except CallError α
  | .error error => .error error
  | .ok value =>
      match decode value.document with
      | none => .error (.malformed "unexpected form of a result")
      | some found => .ok found

end Reanalysis
