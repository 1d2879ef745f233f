/-
Messages on a channel. A request carries a number and a topic, a response a
number only, a notification a topic only.
-/

import Reanalysis.Json.Printer
import Reanalysis.Json.Reader
import Reanalysis.Wire.Payload

namespace Reanalysis

structure Request where
  id : Nat
  topic : String
  payload : Json
deriving Repr

structure Response where
  id : Nat
  result : Option Json
  fault : Option Fault
deriving Repr

structure Notification where
  topic : String
  payload : Json
deriving Repr

inductive Message where
  | request (call : Request)
  | response (answer : Response)
  | notification (notice : Notification)
deriving Repr

namespace Response

def ofOutcome (id : Nat) : Except Fault Json → Response
  | .ok value => ⟨id, some value, none⟩
  | .error fault => ⟨id, none, some fault⟩

/-- A fault outweighs a result, and a missing result is a null. -/
def outcome (response : Response) : Except Fault Json :=
  match response.fault with
  | some fault => .error fault
  | none => .ok (response.result.getD .null)

end Response

namespace Message

def whenSome {α : Type} (name : String) (encode : α → Json) :
    Option α → List (String × Json)
  | none => []
  | some value => [(name, encode value)]

def toJson : Message → Json
  | .request call =>
      .object [("id", .nat call.id), ("topic", .string call.topic), ("payload", call.payload)]
  | .response answer =>
      .object
        (("id", .nat answer.id) ::
          (whenSome "result" id answer.result ++ whenSome "error" Fault.toJson answer.fault))
  | .notification notice =>
      .object [("topic", .string notice.topic), ("payload", notice.payload)]

def line (message : Message) : String := message.toJson.render ++ "\n"

def anyValue? (document : Document) : Option Json := document.value? Document.nestingLimit

def request? (document : Document) : Option Request := do
  let fields ← Fields.of? ["id", "topic", "payload"] false document
  let id ← fields.required "id" (Document.natural? 64)
  let topic ← fields.required "topic" Document.text?
  let payload ← fields.orElse "payload" .null anyValue?
  pure ⟨id, topic, payload⟩

def response? (document : Document) : Option Response := do
  let fields ← Fields.of? ["id", "result", "error"] false document
  let id ← fields.required "id" (Document.natural? 64)
  let result ← fields.orElse "result" none (Document.nullable? anyValue?)
  let fault ← fields.orElse "error" none (Document.nullable? Fault.ofDocument?)
  pure ⟨id, result, fault⟩

def notification? (document : Document) : Option Notification := do
  let fields ← Fields.of? ["topic", "payload"] false document
  let topic ← fields.required "topic" Document.text?
  let payload ← fields.orElse "payload" .null anyValue?
  pure ⟨topic, payload⟩

/-- A document that is a value throughout, taken as the first kind of message that fits. -/
def ofDocument? (document : Document) : Option Message :=
  if (anyValue? document).isNone then none
  else
    match request? document with
    | some found => some (.request found)
    | none =>
        match response? document with
        | some found => some (.response found)
        | none => (notification? document).map .notification

def read (text : String) : Option Message := (Document.read text).bind ofDocument?

end Message

end Reanalysis
