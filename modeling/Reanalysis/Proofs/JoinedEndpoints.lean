/-
Two endpoints that send their messages to each other. Messages arrive in the order in which
they were sent; when they arrive, how long handlers run and in which order they end is left
open. Both sides number their calls alike, and still every answer finds its call.
-/

import Mathlib.Data.List.Induction
import Mathlib.Data.List.Nodup
import Mathlib.Data.List.Perm.Basic
import Reanalysis.Proofs.CallSettlement

namespace Reanalysis

namespace Message

def call? : Message → Option Request
  | .request call => some call
  | _ => none

def answer? : Message → Option Response
  | .response answer => some answer
  | _ => none

end Message

def requests (messages : List Message) : List Request := messages.filterMap Message.call?

def responses (messages : List Message) : List Response := messages.filterMap Message.answer?

theorem requests_append (front rest : List Message) :
    requests (front ++ rest) = requests front ++ requests rest := List.filterMap_append

theorem responses_append (front rest : List Message) :
    responses (front ++ rest) = responses front ++ responses rest := List.filterMap_append

theorem requests_concat (front : List Message) {message : Message} (other : message.call? = none) :
    requests (front ++ [message]) = requests front := by
  simp [requests, other]

theorem responses_concat (front : List Message) {message : Message}
    (other : message.answer? = none) : responses (front ++ [message]) = responses front := by
  simp [responses, other]

structure Duty where
  request : Request
  /-- Which payloads the handler of its topic reads, if there was one at that time. -/
  handler : Option (Json → Bool)
  /-- Whether it was given to the handler. -/
  served : Bool
  /-- How the run of the handler ended, once it has. -/
  ending : Option Ending

def Ending.isUnreadable : Ending → Bool
  | .unreadable => true
  | _ => false

namespace Duty

/-- A request is served just if there was a handler, and its run ends as unreadable just if the
handler does not read the payload. -/
structure Honest (duty : Duty) : Prop where
  served : duty.served = duty.handler.isSome
  ending : ∀ ending ∈ duty.ending,
    ∃ reads, duty.handler = some reads ∧ reads duty.request.payload = !ending.isUnreadable

def outcome? (duty : Duty) : Option (Except Fault Json) :=
  match duty.handler with
  | none => some (.error ⟨.protocol, "unknown topic '" ++ duty.request.topic ++ "'"⟩)
  | some _ => duty.ending.map (·.outcome duty.request.topic)

def answer? (duty : Duty) : Option Response :=
  duty.outcome?.map (Response.ofOutcome duty.request.id)

end Duty

def Effect.isServe : Effect → Bool
  | .serve _ => true
  | _ => false

/-- An endpoint with all that has happened to it. -/
structure Side where
  endpoint : Endpoint
  handlers : List (String × (Json → Bool))
  sent : List Message
  received : List Message
  duties : List Duty
  settled : List (Nat × Except CallError Json)

namespace Side

def new : Side := ⟨Endpoint.new, [], [], [], [], []⟩

def heed (side : Side) : Effect → Side
  | .send message => { side with sent := side.sent ++ [message] }
  | .settle call outcome => { side with settled := side.settled ++ [(call, outcome)] }
  | .serve _ => side
  | .hear _ => side

def act (side : Side) (step : Endpoint × List Effect) : Side :=
  step.2.foldl heed { side with endpoint := step.1 }

def call (side : Side) (topic : String) (payload : Json) : Side :=
  side.act (side.endpoint.request topic payload)

def notify (side : Side) (topic : String) (payload : Json) : Side :=
  match side.endpoint.notify topic payload with
  | .error _ => side
  | .ok effects => side.act (side.endpoint, effects)

/-- Takes in a message. A request is a duty from then on. -/
def take (side : Side) (message : Message) : Side :=
  let step := side.endpoint.dispatch message
  let duties := message.call?.toList.map fun call =>
    ⟨call, side.handlers.lookup call.topic, step.2.any Effect.isServe, none⟩
  { side with
    received := side.received ++ [message], duties := side.duties ++ duties }.act step

/-- The run of a handler ends. It ends as unreadable just if it could not read its payload. -/
def finish (side : Side) (index : Nat) (ending : Ending) : Side :=
  match side.duties[index]? with
  | some ⟨request, some reads, true, none⟩ =>
      if reads request.payload = !ending.isUnreadable then
        { side with
          duties := side.duties.set index ⟨request, some reads, true, some ending⟩ }.act
          (side.endpoint, side.endpoint.answer request ending)
      else side
  | _ => side

def register (side : Side) (topic : String) (reads : Json → Bool) : Side :=
  { side with
    endpoint := side.endpoint.handle topic, handlers := (topic, reads) :: side.handlers }

def listen (side : Side) (topic : String) : Side :=
  { side with endpoint := side.endpoint.listen topic }

def close (side : Side) (reason : String) : Side := side.act (side.endpoint.close reason)

end Side

inductive Party where
  | first
  | second
deriving DecidableEq, Repr

def Party.other : Party → Party
  | .first => .second
  | .second => .first

inductive Happening where
  | call (topic : String) (payload : Json)
  | notify (topic : String) (payload : Json)
  /-- The next message of the other side arrives. -/
  | arrive
  | finish (index : Nat) (ending : Ending)
  | register (topic : String) (reads : Json → Bool)
  | listen (topic : String)
  | close (reason : String)

/-- What a side becomes. Nothing happens where nothing can. -/
def Side.after (side peer : Side) : Happening → Side
  | .call topic payload => side.call topic payload
  | .notify topic payload => side.notify topic payload
  | .arrive =>
      match peer.sent[side.received.length]? with
      | none => side
      | some message => side.take message
  | .finish index ending => side.finish index ending
  | .register topic reads => side.register topic reads
  | .listen topic => side.listen topic
  | .close reason => side.close reason

/-- Two endpoints that send to each other. -/
abbrev Joined := Party → Side

namespace Joined

def new : Joined := fun _ => Side.new

def step (system : Joined) (party : Party) (happening : Happening) : Joined := fun other =>
  if other = party then (system party).after (system party.other) happening else system other

def run (history : List (Party × Happening)) : Joined :=
  history.foldl (fun system entry => system.step entry.1 entry.2) new

end Joined

/-! ### What one happening changes -/

namespace Side

def settlement (answer : Response) : Nat × Except CallError Json :=
  (answer.id, answer.outcome.mapError .refused)

inductive Moved (side peer : Side) : Side → Prop
  | called (topic : String) (payload : Json) (opened : side.endpoint.closed = none) :
      Moved side peer
        { side with
          endpoint :=
            { side.endpoint with
              nextId := side.endpoint.nextId + 1
              waiting := side.endpoint.waiting ++ [side.endpoint.nextId] }
          sent := side.sent ++ [.request ⟨side.endpoint.nextId, topic, payload⟩] }
  | refused (reason : String) (closed : side.endpoint.closed = some reason) :
      Moved side peer
        { side with
          endpoint := { side.endpoint with nextId := side.endpoint.nextId + 1 }
          settled := side.settled ++ [(side.endpoint.nextId, .error (.closed reason))] }
  | notified (notice : Notification) :
      Moved side peer { side with sent := side.sent ++ [.notification notice] }
  | asked (call : Request) (reads : Json → Bool)
      (arrives : side.received ++ [.request call] <+: peer.sent)
      (known : side.handlers.lookup call.topic = some reads) :
      Moved side peer
        { side with
          received := side.received ++ [.request call]
          duties := side.duties ++ [⟨call, some reads, true, none⟩] }
  | askedUnknown (call : Request)
      (arrives : side.received ++ [.request call] <+: peer.sent)
      (unknown : side.handlers.lookup call.topic = none) :
      Moved side peer
        { side with
          received := side.received ++ [.request call]
          duties := side.duties ++ [⟨call, none, false, none⟩]
          sent := side.sent ++ [.response (Response.ofOutcome call.id
            (.error ⟨.protocol, "unknown topic '" ++ call.topic ++ "'"⟩))] }
  | answered (answer : Response) (arrives : side.received ++ [.response answer] <+: peer.sent)
      (waits : answer.id ∈ side.endpoint.waiting) :
      Moved side peer
        { side with
          endpoint :=
            { side.endpoint with waiting := side.endpoint.waiting.erase answer.id }
          received := side.received ++ [.response answer]
          settled := side.settled ++ [settlement answer] }
  | ignored (answer : Response) (arrives : side.received ++ [.response answer] <+: peer.sent)
      (absent : answer.id ∉ side.endpoint.waiting) :
      Moved side peer { side with received := side.received ++ [.response answer] }
  | told (notice : Notification)
      (arrives : side.received ++ [.notification notice] <+: peer.sent) :
      Moved side peer { side with received := side.received ++ [.notification notice] }
  | finished (index : Nat) (request : Request) (reads : Json → Bool) (ending : Ending)
      (running : side.duties[index]? = some ⟨request, some reads, true, none⟩)
      (honest : reads request.payload = !ending.isUnreadable) :
      Moved side peer
        { side with
          duties := side.duties.set index ⟨request, some reads, true, some ending⟩
          sent := side.sent ++ [.response (Response.ofOutcome request.id
            (ending.outcome request.topic))] }
  | registered (topic : String) (reads : Json → Bool) : Moved side peer (side.register topic reads)
  | listened (topic : String) : Moved side peer (side.listen topic)
  | ended (reason : String) (opened : side.endpoint.closed = none) :
      Moved side peer
        { side with
          endpoint := { side.endpoint with closed := some reason, waiting := [] }
          settled := side.settled ++
            side.endpoint.waiting.map fun id => (id, .error (.closed reason)) }
  | idle : Moved side peer side

variable {side peer : Side}

/-- The endpoint sends to the other side, and serves what handlers are registered for. -/
structure Connected (side peer : Side) : Prop where
  taken : side.endpoint.taken = true
  served : side.endpoint.served = side.handlers.map Prod.fst
  arrived : side.received <+: peer.sent

theorem lookup_eq_none {topic : String} {handlers : List (String × (Json → Bool))} :
    handlers.lookup topic = none ↔ topic ∉ handlers.map Prod.fst := by
  induction handlers with
  | nil => simp
  | cons handler rest ih =>
      obtain ⟨name, reads⟩ := handler
      rw [List.lookup_cons, List.map_cons, List.mem_cons, not_or, ← ih]
      by_cases same : topic = name
      · simp [same]
      · rw [beq_false_of_ne same]
        simp [same]

theorem moved_call (connected : side.Connected peer) (topic : String) (payload : Json) :
    Moved side peer (side.call topic payload) := by
  cases closed : side.endpoint.closed with
  | none =>
      have asked := Endpoint.request_of_open connected.taken closed topic payload
      have moved : Moved side peer _ := Moved.called topic payload closed
      unfold call
      rw [asked]
      exact moved
  | some reason =>
      have refused := Endpoint.request_of_closed closed topic payload
      have moved : Moved side peer _ := Moved.refused reason closed
      unfold call
      rw [refused]
      exact moved

theorem moved_notify (topic : String) (payload : Json) :
    Moved side peer (side.notify topic payload) := by
  unfold notify Endpoint.notify
  cases side.endpoint.obstacle with
  | some error => exact Moved.idle
  | none => exact Moved.notified ⟨topic, payload⟩

theorem moved_take (connected : side.Connected peer) {message : Message}
    (arrives : side.received ++ [message] <+: peer.sent) : Moved side peer (side.take message) := by
  cases message with
  | request call =>
      cases found : side.handlers.lookup call.topic with
      | none =>
          have unknown : call.topic ∉ side.endpoint.served := by
            rw [connected.served]
            exact lookup_eq_none.mp found
          have refuse : side.endpoint.dispatch (.request call) =
              (side.endpoint, [.send (.response (Response.ofOutcome call.id
                (.error ⟨.protocol, "unknown topic '" ++ call.topic ++ "'"⟩)))]) := by
            simp [Endpoint.dispatch, unknown, Endpoint.emit, connected.taken]
          have moved := Moved.askedUnknown call arrives found
          unfold take
          rw [refuse]
          simpa [act, heed, Message.call?, found, Effect.isServe] using moved
      | some reads =>
          have known : call.topic ∈ side.endpoint.served := by
            rw [connected.served]
            refine Decidable.byContradiction fun absent => ?_
            rw [lookup_eq_none.mpr absent] at found
            cases found
          have serve : side.endpoint.dispatch (.request call) = (side.endpoint, [.serve call]) := by
            simp [Endpoint.dispatch, known]
          have moved := Moved.asked call reads arrives found
          unfold take
          rw [serve]
          simpa [act, heed, Message.call?, found, Effect.isServe] using moved
  | response answer =>
      by_cases waits : answer.id ∈ side.endpoint.waiting
      · have moved := Moved.answered answer arrives waits
        simpa [take, Endpoint.dispatch, waits, act, heed, Message.call?, settlement] using moved
      · have moved := Moved.ignored answer arrives waits
        simpa [take, Endpoint.dispatch, waits, act, heed, Message.call?] using moved
  | notification notice =>
      have moved := Moved.told notice arrives
      unfold take Endpoint.dispatch
      dsimp only
      split <;> simpa [act, heed, Message.call?] using moved

theorem moved_finish (connected : side.Connected peer) (index : Nat) (ending : Ending) :
    Moved side peer (side.finish index ending) := by
  unfold finish
  split
  · rename_i request reads running
    split
    · rename_i honest
      have moved : Moved side peer _ :=
        Moved.finished index request reads ending running honest
      simpa [act, heed, Endpoint.answer, Endpoint.emit, connected.taken] using moved
    · exact Moved.idle
  · exact Moved.idle

theorem moved_close (reason : String) : Moved side peer (side.close reason) := by
  cases closed : side.endpoint.closed with
  | some first =>
      have nothing : side.endpoint.close reason = (side.endpoint, []) := by
        simp [Endpoint.close, closed]
      unfold close
      rw [nothing]
      exact Moved.idle
  | none =>
      have settles (ids : List Nat) (side : Side) :
          (ids.map fun id => Effect.settle id (.error (.closed reason))).foldl heed side =
            { side with
              settled := side.settled ++ ids.map fun id => (id, .error (.closed reason)) } := by
        induction ids generalizing side with
        | nil => simp
        | cons id rest ih => simp [heed, ih]
      have moved : Moved side peer _ := Moved.ended reason closed
      unfold close act Endpoint.close
      rw [closed]
      dsimp only
      rw [settles]
      exact moved

theorem arrives_of_getElem? {received sent : List Message} (arrived : received <+: sent)
    {message : Message} (next : sent[received.length]? = some message) :
    received ++ [message] <+: sent := by
  obtain ⟨rest, rfl⟩ := arrived
  rw [List.getElem?_append_right (Nat.le_refl _), Nat.sub_self] at next
  cases rest with
  | nil => cases next
  | cons first later =>
      cases next
      exact ⟨later, List.append_cons received message later ▸ rfl⟩

/-- Whatever happens, a side changes in one of these ways. -/
theorem moved_after (connected : side.Connected peer) (happening : Happening) :
    Moved side peer (side.after peer happening) := by
  cases happening with
  | call topic payload => exact moved_call connected topic payload
  | notify topic payload => exact moved_notify topic payload
  | arrive =>
      unfold after
      dsimp only
      split
      · exact Moved.idle
      · rename_i message next
        exact moved_take connected (arrives_of_getElem? connected.arrived next)
  | finish index ending => exact moved_finish connected index ending
  | register topic reads => exact Moved.registered topic reads
  | listen topic => exact Moved.listened topic
  | close reason => exact moved_close reason

/-! ### What holds at all times -/

theorem sent_moved {next : Side} (moved : Moved side peer next) : side.sent <+: next.sent := by
  cases moved <;> first | exact List.prefix_append _ _ | exact List.prefix_refl _

theorem nextId_moved {next : Side} (moved : Moved side peer next) :
    next.endpoint.nextId ≤ side.endpoint.nextId + 1 := by
  cases moved <;> first | exact Nat.le_refl _ | exact Nat.le_succ _

theorem Connected.moved (connected : side.Connected peer) {next : Side}
    (moved : Moved side peer next) : next.Connected peer := by
  cases moved with
  | asked call reads arrives known => exact ⟨connected.taken, connected.served, arrives⟩
  | askedUnknown call arrives unknown => exact ⟨connected.taken, connected.served, arrives⟩
  | answered answer arrives waits => exact ⟨connected.taken, connected.served, arrives⟩
  | ignored answer arrives absent => exact ⟨connected.taken, connected.served, arrives⟩
  | told notice arrives => exact ⟨connected.taken, connected.served, arrives⟩
  | registered topic reads =>
      exact ⟨connected.taken, congrArg (topic :: ·) connected.served, connected.arrived⟩
  | _ => exact ⟨connected.taken, connected.served, connected.arrived⟩

/-- The requests that have come in are the duties, and what has been answered is what the duties
with a known outcome ask for. -/
structure Accountable (side : Side) : Prop where
  numbered : ((requests side.sent).map Request.id).Nodup
  begun : ∀ call ∈ requests side.sent, call.id < side.endpoint.nextId
  taken : requests side.received = side.duties.map Duty.request
  answered : (responses side.sent).Perm (side.duties.filterMap Duty.answer?)
  honest : ∀ duty ∈ side.duties, duty.Honest

theorem split_at {α : Type} {items : List α} {index : Nat} {old : α}
    (held : items[index]? = some old) :
    ∃ front back, items = front ++ old :: back ∧
      ∀ new, items.set index new = front ++ new :: back := by
  induction items generalizing index with
  | nil => cases held
  | cons first rest ih =>
      cases index with
      | zero =>
          cases held
          exact ⟨[], rest, rfl, fun _ => rfl⟩
      | succ index =>
          obtain ⟨front, back, rfl, set⟩ := ih held
          exact ⟨first :: front, back, rfl, fun new => by rw [List.set_cons_succ, set]; rfl⟩

theorem nodup_concat {α : Type} {items : List α} {item : α} (fresh : item ∉ items)
    (once : items.Nodup) : (items ++ [item]).Nodup :=
  List.nodup_append_comm.mp (List.nodup_cons.mpr ⟨fresh, once⟩)

theorem forall_mem_concat {α : Type} {holds : α → Prop} {items : List α} {item : α}
    (before : ∀ other ∈ items, holds other) (last : holds item) :
    ∀ other ∈ items ++ [item], holds other :=
  List.forall_mem_append.mpr ⟨before, List.forall_mem_singleton.mpr last⟩

theorem Accountable.moved (accountable : side.Accountable) {next : Side}
    (moved : Moved side peer next) : next.Accountable := by
  obtain ⟨numbered, begun, taken, answered, honest⟩ := accountable
  cases moved with
  | called topic payload opened =>
      have fresh : side.endpoint.nextId ∉ (requests side.sent).map Request.id := fun member => by
        obtain ⟨call, held, same⟩ := List.mem_map.mp member
        exact Nat.lt_irrefl _ (same ▸ begun call held)
      refine ⟨?_, ?_, taken, ?_, honest⟩
      · rw [requests_append, List.map_append]
        exact nodup_concat fresh numbered
      · rw [requests_append]
        exact forall_mem_concat (fun call before => Nat.lt_succ_of_lt (begun call before))
          (Nat.lt_succ_self _)
      · rw [responses_concat _ rfl]
        exact answered
  | refused reason closed =>
      exact ⟨numbered, fun call member => Nat.lt_succ_of_lt (begun call member), taken, answered,
        honest⟩
  | notified notice =>
      refine ⟨?_, ?_, taken, ?_, honest⟩
      · rw [requests_concat _ rfl]
        exact numbered
      · rw [requests_concat _ rfl]
        exact begun
      · rw [responses_concat _ rfl]
        exact answered
  | asked call reads arrives known =>
      refine ⟨numbered, begun, ?_, ?_, ?_⟩
      · rw [requests_append, taken, List.map_append]
        rfl
      · rw [List.filterMap_append]
        exact (List.append_nil _).symm ▸ answered
      · exact forall_mem_concat honest ⟨rfl, fun ending none => by cases none⟩
  | askedUnknown call arrives unknown =>
      refine ⟨?_, ?_, ?_, ?_, ?_⟩
      · rw [requests_concat _ rfl]
        exact numbered
      · rw [requests_concat _ rfl]
        exact begun
      · rw [requests_append, taken, List.map_append]
        rfl
      · rw [responses_append, List.filterMap_append]
        exact answered.append_right _
      · exact forall_mem_concat honest ⟨rfl, fun ending none => by cases none⟩
  | answered answer arrives waits =>
      refine ⟨numbered, begun, ?_, answered, honest⟩
      rw [requests_concat _ rfl]
      exact taken
  | ignored answer arrives absent =>
      refine ⟨numbered, begun, ?_, answered, honest⟩
      rw [requests_concat _ rfl]
      exact taken
  | told notice arrives =>
      refine ⟨numbered, begun, ?_, answered, honest⟩
      rw [requests_concat _ rfl]
      exact taken
  | finished index request reads ending running reading =>
      obtain ⟨front, back, same, set⟩ := split_at running
      rw [same] at taken answered honest
      refine ⟨?_, ?_, ?_, ?_, ?_⟩
      · rw [requests_concat _ rfl]
        exact numbered
      · rw [requests_concat _ rfl]
        exact begun
      · rw [taken, set]
        simp
      · rw [responses_append, set]
        rw [List.filterMap_append] at answered ⊢
        exact (List.perm_append_comm.trans (answered.cons _)).trans List.perm_middle.symm
      · obtain ⟨before, later⟩ := List.forall_mem_append.mp honest
        rw [set]
        refine List.forall_mem_append.mpr ⟨before, List.forall_mem_cons.mpr
          ⟨⟨rfl, fun other same => ?_⟩, (List.forall_mem_cons.mp later).2⟩⟩
        cases same
        exact ⟨reads, rfl, reading⟩
  | registered topic reads => exact ⟨numbered, begun, taken, answered, honest⟩
  | listened topic => exact ⟨numbered, begun, taken, answered, honest⟩
  | ended reason opened => exact ⟨numbered, begun, taken, answered, honest⟩
  | idle => exact ⟨numbered, begun, taken, answered, honest⟩

theorem requests_isPrefix {front whole : List Message} (before : front <+: whole) :
    requests front <+: requests whole := before.filterMap _

theorem responses_isPrefix {front whole : List Message} (before : front <+: whole) :
    responses front <+: responses whole := before.filterMap _

theorem answers_sublist (duties : List Duty) :
    ((duties.filterMap Duty.answer?).map Response.id).Sublist (duties.map (·.request.id)) := by
  induction duties with
  | nil => exact List.Sublist.refl _
  | cons duty rest ih =>
      rw [List.filterMap_cons, List.map_cons]
      cases known : duty.answer? with
      | none => exact ih.cons _
      | some answer =>
          obtain ⟨outcome, _, rfl⟩ := Option.map_eq_some_iff.mp known
          cases outcome <;> exact ih.cons_cons _

theorem duties_numbered (connected : side.Connected peer) (accountable : side.Accountable)
    (calls : peer.Accountable) :
    (side.duties.map (·.request.id)).Nodup ∧
      ∀ id ∈ side.duties.map (·.request.id), id ∈ (requests peer.sent).map Request.id := by
  have numbers : side.duties.map (·.request.id) = (requests side.received).map Request.id := by
    rw [accountable.taken, List.map_map]
    rfl
  have before : (requests side.received).map Request.id <+: (requests peer.sent).map Request.id :=
    (requests_isPrefix connected.arrived).map _
  rw [numbers]
  exact ⟨before.sublist.nodup calls.numbered, fun id member => before.subset member⟩

theorem answers_numbered (connected : side.Connected peer) (accountable : side.Accountable)
    (calls : peer.Accountable) :
    ((responses side.sent).map Response.id).Nodup ∧
      ∀ id ∈ (responses side.sent).map Response.id, id ∈ (requests peer.sent).map Request.id := by
  obtain ⟨distinct, called⟩ := duties_numbered connected accountable calls
  have perm := accountable.answered.map Response.id
  have sublist := answers_sublist side.duties
  exact ⟨perm.nodup_iff.mpr (sublist.nodup distinct),
    fun id member => called id (sublist.subset (perm.mem_iff.mp member))⟩

/-- Each call is settled at most once: while the side is open by the answer to it, and when it
closes if it waits then. -/
structure Settles (side : Side) : Prop where
  once : (side.settled.map Prod.fst).Nodup
  begun : ∀ id ∈ side.settled.map Prod.fst, id < side.endpoint.nextId
  running : side.endpoint.closed = none →
    side.settled = (responses side.received).map settlement ∧
      ((requests side.sent).map Request.id).Perm
        (side.endpoint.waiting ++ side.settled.map Prod.fst)
  ended : ∀ reason, side.endpoint.closed = some reason →
    side.endpoint.waiting = [] ∧
      ∀ entry ∈ side.settled, entry.2 = .error (.closed reason) ∨
        ∃ answer ∈ responses side.received, entry = settlement answer

namespace Settles

theorem open_of_waits (settles : side.Settles) {id : Nat} (waits : id ∈ side.endpoint.waiting) :
    side.endpoint.closed = none := by
  cases closed : side.endpoint.closed with
  | none => rfl
  | some reason =>
      rw [(settles.ended reason closed).1] at waits
      cases waits

theorem unsettled_of_waits (settles : side.Settles) (calls : side.Accountable) {id : Nat}
    (waits : id ∈ side.endpoint.waiting) : id ∉ side.settled.map Prod.fst := by
  have perm := (settles.running (settles.open_of_waits waits)).2
  exact fun before =>
    (List.nodup_append.mp (perm.nodup_iff.mp calls.numbered)).2.2 _ waits _ before rfl

theorem begun_of_waits (settles : side.Settles) (calls : side.Accountable) {id : Nat}
    (waits : id ∈ side.endpoint.waiting) : id < side.endpoint.nextId := by
  have perm := (settles.running (settles.open_of_waits waits)).2
  obtain ⟨call, sent, rfl⟩ := List.mem_map.mp (perm.mem_iff.mpr (List.mem_append_left _ waits))
  exact calls.begun call sent

/-- While a side is open, an answer that comes in is one to a call that waits. -/
theorem waits_of_arrives (settles : side.Settles) (connected : peer.Connected side)
    (calls : side.Accountable) (accountable : peer.Accountable)
    (opened : side.endpoint.closed = none) {answer : Response}
    (arrives : side.received ++ [.response answer] <+: peer.sent) :
    answer.id ∈ side.endpoint.waiting := by
  obtain ⟨same, perm⟩ := settles.running opened
  obtain ⟨distinct, called⟩ := answers_numbered connected accountable calls
  have arrived := (responses_isPrefix arrives).map Response.id
  rw [responses_append, List.map_append] at arrived
  have member := called answer.id (arrived.subset (List.mem_append_right _ List.mem_cons_self))
  have apart : answer.id ∉ (responses side.received).map Response.id := fun before =>
    (List.nodup_append.mp (arrived.sublist.nodup distinct)).2.2 _ before _ List.mem_cons_self rfl
  rcases List.mem_append.mp (perm.mem_iff.mp member) with waits | before
  · exact waits
  · rw [same, List.map_map] at before
    exact absurd before apart

theorem answered (settles : side.Settles) (calls : side.Accountable) {answer : Response}
    (waits : answer.id ∈ side.endpoint.waiting) :
    Settles
      { side with
        endpoint := { side.endpoint with waiting := side.endpoint.waiting.erase answer.id }
        received := side.received ++ [.response answer]
        settled := side.settled ++ [settlement answer] } := by
  have opened := settles.open_of_waits waits
  obtain ⟨same, perm⟩ := settles.running opened
  refine ⟨?_, ?_, fun _ => ⟨?_, ?_⟩, fun reason closed => ?_⟩
  · rw [List.map_append]
    exact nodup_concat (settles.unsettled_of_waits calls waits) settles.once
  · rw [List.map_append]
    exact forall_mem_concat settles.begun (settles.begun_of_waits calls waits)
  · rw [responses_append, List.map_append, ← same]
    rfl
  · rw [List.map_append]
    refine perm.trans (((List.perm_cons_erase waits).append_right _).trans ?_)
    rw [← List.append_assoc]
    exact @List.perm_append_comm _ [answer.id] _
  · rw [opened] at closed
    cases closed

theorem ended_now (settles : side.Settles) (calls : side.Accountable) (reason : String)
    (opened : side.endpoint.closed = none) :
    Settles
      { side with
        endpoint := { side.endpoint with closed := some reason, waiting := [] }
        settled := side.settled ++
          side.endpoint.waiting.map fun id => (id, .error (.closed reason)) } := by
  obtain ⟨same, perm⟩ := settles.running opened
  have numbers : (side.endpoint.waiting.map fun id =>
      (id, (Except.error (CallError.closed reason) : Except CallError Json))).map Prod.fst =
        side.endpoint.waiting := by
    rw [List.map_map]
    exact List.map_id _
  refine ⟨?_, ?_, (fun closed => nomatch closed), fun other closed => ⟨rfl, ?_⟩⟩
  · rw [List.map_append, numbers]
    exact List.nodup_append_comm.mp (perm.nodup_iff.mp calls.numbered)
  · rw [List.map_append, numbers]
    exact List.forall_mem_append.mpr
      ⟨settles.begun, fun id waits => settles.begun_of_waits calls waits⟩
  · cases closed
    rw [same]
    refine List.forall_mem_append.mpr ⟨fun entry before => ?_, fun entry waits => ?_⟩
    · obtain ⟨answer, held, rfl⟩ := List.mem_map.mp before
      exact Or.inr ⟨answer, held, rfl⟩
    · obtain ⟨id, _, rfl⟩ := List.mem_map.mp waits
      exact Or.inl rfl

theorem moved (settles : side.Settles) (connected : peer.Connected side)
    (calls : side.Accountable) (accountable : peer.Accountable) {next : Side}
    (moved : Moved side peer next) : next.Settles := by
  obtain ⟨once, begun, running, ended⟩ := settles
  cases moved with
  | called topic payload opened =>
      obtain ⟨same, perm⟩ := running opened
      refine ⟨once, fun id member => Nat.lt_succ_of_lt (begun id member), fun _ => ⟨same, ?_⟩,
        fun reason closed => ?_⟩
      · rw [requests_append, List.map_append, List.append_assoc]
        exact (perm.append_right _).trans
          (by rw [List.append_assoc]; exact List.perm_append_comm.append_left _)
      · rw [opened] at closed
        cases closed
  | refused reason closed =>
      have fresh : side.endpoint.nextId ∉ side.settled.map Prod.fst := fun member =>
        Nat.lt_irrefl _ (begun _ member)
      refine ⟨?_, ?_, fun opened => ?_, fun other same => ?_⟩
      · rw [List.map_append]
        exact nodup_concat fresh once
      · rw [List.map_append]
        exact forall_mem_concat (fun id before => Nat.lt_succ_of_lt (begun id before))
          (Nat.lt_succ_self _)
      · rw [closed] at opened
        cases opened
      · obtain ⟨none, all⟩ := ended other same
        rw [closed] at same
        cases same
        exact ⟨none, forall_mem_concat all (Or.inl rfl)⟩
  | notified notice =>
      refine ⟨once, begun, fun opened => ?_, ended⟩
      rw [requests_concat _ rfl]
      exact running opened
  | asked call reads arrives known =>
      refine ⟨once, begun, ?_, ?_⟩
      · rw [responses_concat _ rfl]
        exact running
      · rw [responses_concat _ rfl]
        exact ended
  | askedUnknown call arrives unknown =>
      refine ⟨once, begun, ?_, ?_⟩
      · rw [responses_concat _ rfl, requests_concat _ rfl]
        exact running
      · rw [responses_concat _ rfl]
        exact ended
  | answered answer arrives waits => exact answered ⟨once, begun, running, ended⟩ calls waits
  | ignored answer arrives absent =>
      have settles : side.Settles := ⟨once, begun, running, ended⟩
      refine ⟨once, begun, fun opened => ?_, fun reason closed => ?_⟩
      · exact absurd (settles.waits_of_arrives connected calls accountable opened arrives) absent
      · obtain ⟨none, all⟩ := ended reason closed
        refine ⟨none, fun entry member => (all entry member).imp_right ?_⟩
        rintro ⟨earlier, held, rfl⟩
        refine ⟨earlier, ?_, rfl⟩
        rw [responses_append]
        exact List.mem_append_left _ held
  | told notice arrives =>
      refine ⟨once, begun, ?_, ?_⟩
      · rw [responses_concat _ rfl]
        exact running
      · rw [responses_concat _ rfl]
        exact ended
  | finished index request reads ending held reading =>
      refine ⟨once, begun, fun opened => ?_, ended⟩
      rw [requests_concat _ rfl]
      exact running opened
  | registered topic reads => exact ⟨once, begun, running, ended⟩
  | listened topic => exact ⟨once, begun, running, ended⟩
  | ended reason opened => exact ended_now ⟨once, begun, running, ended⟩ calls reason opened
  | idle => exact ⟨once, begun, running, ended⟩

end Settles

structure Paired (side peer : Side) : Prop where
  connected : side.Connected peer
  accountable : side.Accountable
  settles : side.Settles

theorem paired_new : new.Paired new where
  connected := ⟨rfl, rfl, List.prefix_refl _⟩
  accountable :=
    ⟨List.nodup_nil, fun _ none => (List.not_mem_nil none).elim, rfl, List.Perm.refl _,
      fun _ none => (List.not_mem_nil none).elim⟩
  settles :=
    ⟨List.nodup_nil, fun _ none => (List.not_mem_nil none).elim, fun _ => ⟨rfl, List.Perm.refl _⟩,
      (fun _ closed => nomatch closed)⟩

end Side

namespace Joined

open Side

theorem paired_step {system : Joined}
    (paired : ∀ party, (system party).Paired (system party.other)) (party : Party)
    (happening : Happening) (side : Party) :
    (system.step party happening side).Paired (system.step party happening side.other) := by
  obtain ⟨connected, accountable, settles⟩ := paired party
  obtain ⟨back, theirs, theirSettles⟩ := paired party.other
  have twice : party.other.other = party := by cases party <;> rfl
  have apart : party.other ≠ party := by cases party <;> exact Party.noConfusion
  rw [twice] at back
  have moved := moved_after connected happening
  have changed : system.step party happening party =
      (system party).after (system party.other) happening := if_pos rfl
  have kept : system.step party happening party.other = system party.other := if_neg apart
  by_cases same : side = party
  · rw [same, changed, kept]
    exact ⟨connected.moved moved, accountable.moved moved,
      settles.moved back accountable theirs moved⟩
  · have opposite : side = party.other := by
      cases side <;> cases party <;> first | rfl | exact absurd rfl same
    rw [opposite, twice, changed, kept]
    exact ⟨⟨back.taken, back.served, back.arrived.trans (sent_moved moved)⟩, theirs, theirSettles⟩

theorem paired_run (history : List (Party × Happening)) (party : Party) :
    (run history party).Paired (run history party.other) := by
  have all (system : Joined) (paired : ∀ party, (system party).Paired (system party.other)) :
      ∀ party,
        (history.foldl (fun system entry => system.step entry.1 entry.2) system party).Paired
          (history.foldl (fun system entry => system.step entry.1 entry.2) system party.other) := by
    induction history generalizing system with
    | nil => exact paired
    | cons entry rest ih => exact ih _ (paired_step paired entry.1 entry.2)
  exact all new (fun _ => paired_new) party

theorem nextId_run (history : List (Party × Happening)) (party : Party) :
    (run history party).endpoint.nextId ≤ history.length + 1 := by
  induction history using List.reverseRecOn with
  | nil => exact Nat.le_refl 1
  | append_singleton front entry ih =>
      obtain ⟨mover, happening⟩ := entry
      have last : run (front ++ [(mover, happening)]) = (run front).step mover happening :=
        List.foldl_append
      rw [last, List.length_append, List.length_singleton]
      by_cases own : party = mover
      · subst own
        have moved := moved_after (paired_run front party).connected happening
        have changed : (run front).step party happening party =
            (run front party).after (run front party.other) happening := if_pos rfl
        rw [changed]
        exact Nat.le_trans (nextId_moved moved) (Nat.succ_le_succ ih)
      · have kept : (run front).step mover happening party = run front party := if_neg own
        rw [kept]
        exact Nat.le_succ_of_le ih

/-- The numbers of calls fit in 64 bits for as long as fewer things happen than there are such
numbers. -/
theorem numbers_fit {history : List (Party × Happening)} (few : history.length < UInt64.size)
    (party : Party) :
    (∀ call ∈ requests (run history party).sent, call.id < UInt64.size) ∧
      ∀ entry ∈ (run history party).settled, entry.1 < UInt64.size := by
  have paired := paired_run history party
  have bound := nextId_run history party
  constructor
  · intro call sent
    have begun := paired.accountable.begun call sent
    omega
  · intro entry settled
    have begun := paired.settles.begun entry.1 (List.mem_map_of_mem settled)
    omega

end Joined

/-! ### Answers and their calls -/

inductive Duty.EndsIn (duty : Duty) : Except Fault Json → Prop
  | unknownTopic (unknown : duty.handler = none) :
      EndsIn duty (.error ⟨.protocol, "unknown topic '" ++ duty.request.topic ++ "'"⟩)
  | unreadable (reads : Json → Bool) (known : duty.handler = some reads)
      (unread : reads duty.request.payload = false) :
      EndsIn duty (.error ⟨.protocol,
        "invalid payload for '" ++ duty.request.topic ++ "': unexpected form"⟩)
  | value (reads : Json → Bool) (known : duty.handler = some reads)
      (read : reads duty.request.payload = true) (json : Json)
      (ended : duty.ending = some (.value json)) : EndsIn duty (.ok json)
  | refused (reads : Json → Bool) (known : duty.handler = some reads)
      (read : reads duty.request.payload = true) (fault : Fault)
      (ended : duty.ending = some (.refused fault)) : EndsIn duty (.error fault)
  | broke (reads : Json → Bool) (known : duty.handler = some reads)
      (read : reads duty.request.payload = true) (thrown : Thrown)
      (ended : duty.ending = some (.broke thrown)) :
      EndsIn duty (.error ⟨.engine,
        "worker: '" ++ duty.request.topic ++ "' handler panicked: " ++ thrown.message⟩)

theorem Duty.Honest.endsIn {duty : Duty} (honest : duty.Honest) {outcome : Except Fault Json}
    (known : duty.outcome? = some outcome) : duty.EndsIn outcome := by
  unfold outcome? at known
  cases handler : duty.handler with
  | none =>
      rw [handler] at known
      cases known
      exact EndsIn.unknownTopic handler
  | some reads =>
      rw [handler] at known
      obtain ⟨ending, ended, rfl⟩ := Option.map_eq_some_iff.mp known
      obtain ⟨others, same, reading⟩ := honest.ending ending ended
      rw [handler] at same
      cases same
      cases ending with
      | value json => exact EndsIn.value reads handler reading json ended
      | refused fault => exact EndsIn.refused reads handler reading fault ended
      | broke thrown => exact EndsIn.broke reads handler reading thrown ended
      | unreadable => exact EndsIn.unreadable reads handler reading

theorem outcome_ofOutcome (id : Nat) (outcome : Except Fault Json) :
    (Response.ofOutcome id outcome).outcome = outcome := by
  cases outcome <;> rfl

theorem id_ofOutcome (id : Nat) (outcome : Except Fault Json) :
    (Response.ofOutcome id outcome).id = id := by
  cases outcome <;> rfl

theorem filter_answers {duties : List Duty} (distinct : (duties.map (·.request.id)).Nodup)
    {duty : Duty} (member : duty ∈ duties) :
    (duties.filterMap Duty.answer?).filter (fun answer => answer.id = duty.request.id) =
      duty.answer?.toList := by
  have number {other : Duty} {answer : Response} (known : other.answer? = some answer) :
      answer.id = other.request.id := by
    obtain ⟨outcome, _, rfl⟩ := Option.map_eq_some_iff.mp known
    exact id_ofOutcome _ _
  induction duties with
  | nil => cases member
  | cons first rest ih =>
      obtain ⟨apart, later⟩ := List.nodup_cons.mp distinct
      rcases List.mem_cons.mp member with rfl | inRest
      · have none : (rest.filterMap Duty.answer?).filter
            (fun answer => answer.id = duty.request.id) = [] := by
          refine List.filter_eq_nil_iff.mpr fun answer held same => ?_
          obtain ⟨other, inRest, known⟩ := List.mem_filterMap.mp held
          have sameNumber := (number known).symm.trans (of_decide_eq_true same)
          exact apart (List.mem_map.mpr ⟨other, inRest, sameNumber⟩)
        cases known : duty.answer? with
        | none => rw [List.filterMap_cons, known, none]; rfl
        | some answer =>
            rw [List.filterMap_cons, known]
            dsimp only
            rw [List.filter_cons, if_pos (decide_eq_true (number known)), none]
            rfl
      · have other : first.request.id ≠ duty.request.id := fun same =>
          apart (List.mem_map.mpr ⟨duty, inRest, same.symm⟩)
        cases known : first.answer? with
        | none =>
            rw [List.filterMap_cons, known]
            exact ih later inRest
        | some answer =>
            rw [List.filterMap_cons, known]
            dsimp only
            rw [List.filter_cons, if_neg]
            · exact ih later inRest
            · exact fun same => other ((number known).symm.trans (of_decide_eq_true same))

/-- Every request that comes in is answered once, when its handler has ended, and every call
that is settled by an answer gets the one to itself. -/
structure AnsweredOnce (side peer : Side) : Prop where
  /-- Messages arrive in the order in which they were sent, and requests become duties. -/
  inOrder : side.received <+: peer.sent ∧
    requests side.received = side.duties.map Duty.request ∧
    ((requests peer.sent).map Request.id).Nodup
  /-- What becomes known of a duty is how its own run has ended. -/
  own : ∀ duty ∈ side.duties, duty.served = duty.handler.isSome ∧
    (duty.outcome?.isSome ↔ duty.handler = none ∨ duty.ending.isSome) ∧
      ∀ outcome ∈ duty.outcome?, duty.EndsIn outcome
  /-- One answer with its number and outcome once this is known, none before. -/
  once : ∀ duty ∈ side.duties,
    (responses side.sent).filter (fun answer => answer.id = duty.request.id) =
      (duty.outcome?.map (Response.ofOutcome duty.request.id)).toList
  noOther : ∀ answer ∈ responses side.sent, ∃ duty ∈ side.duties, duty.request.id = answer.id
  /-- A call that is settled before its side closes gets what its own run on the other side
  ended in. -/
  settled : ∀ entry ∈ side.settled,
    (∃ reason, side.endpoint.closed = some reason ∧ entry.2 = .error (.closed reason)) ∨
      ∃ duty ∈ peer.duties, duty.request ∈ requests side.sent ∧ duty.request.id = entry.1 ∧
        ∃ outcome, duty.outcome? = some outcome ∧ entry.2 = outcome.mapError .refused
  settledOnce : (side.settled.map Prod.fst).Nodup
  /-- When all messages have arrived and all handlers have ended, an open side has got an answer
  to each of its calls. -/
  complete : side.endpoint.closed = none → side.received = peer.sent →
    peer.received = side.sent → (∀ duty ∈ peer.duties, duty.outcome?.isSome) →
    ∀ call ∈ requests side.sent, ∃ duty ∈ peer.duties, duty.request = call ∧
      ∃ outcome, duty.outcome? = some outcome ∧
        side.settled.filter (fun entry => entry.1 = call.id) =
          [(call.id, outcome.mapError .refused)]

namespace Side.Paired

variable {side peer : Side}

theorem numbered (paired : side.Paired peer) (back : peer.Paired side) :
    (side.duties.map (·.request.id)).Nodup :=
  (duties_numbered paired.connected paired.accountable back.accountable).1

theorem own_answer (paired : side.Paired peer) (back : peer.Paired side) {answer : Response}
    (received : answer ∈ responses side.received) :
    ∃ duty ∈ peer.duties, duty.request ∈ requests side.sent ∧ duty.request.id = answer.id ∧
      ∃ outcome, duty.outcome? = some outcome ∧
        settlement answer = (duty.request.id, outcome.mapError .refused) := by
  have sent := (responses_isPrefix paired.connected.arrived).subset received
  obtain ⟨duty, held, known⟩ :=
    List.mem_filterMap.mp (back.accountable.answered.mem_iff.mp sent)
  obtain ⟨outcome, ended, rfl⟩ := Option.map_eq_some_iff.mp known
  refine ⟨duty, held, ?_, (id_ofOutcome _ _).symm, outcome, ended, ?_⟩
  · refine (requests_isPrefix back.connected.arrived).subset ?_
    rw [back.accountable.taken]
    exact List.mem_map_of_mem held
  · unfold settlement
    rw [id_ofOutcome, outcome_ofOutcome]

theorem once (paired : side.Paired peer) (back : peer.Paired side) {duty : Duty}
    (held : duty ∈ side.duties) :
    (responses side.sent).filter (fun answer => answer.id = duty.request.id) =
      duty.answer?.toList := by
  -- Answers go out in the order in which handlers end, so they are the duties' only up to order.
  have perm := paired.accountable.answered.filter fun answer => answer.id = duty.request.id
  rw [filter_answers (paired.numbered back) held] at perm
  cases known : duty.answer? with
  | none =>
      rw [known] at perm
      exact List.perm_nil.mp perm
  | some answer =>
      rw [known] at perm
      exact List.perm_singleton.mp perm

theorem complete (paired : side.Paired peer) (back : peer.Paired side)
    (opened : side.endpoint.closed = none) (allHere : side.received = peer.sent)
    (allThere : peer.received = side.sent)
    (ended : ∀ duty ∈ peer.duties, duty.outcome?.isSome) {call : Request}
    (called : call ∈ requests side.sent) :
    ∃ duty ∈ peer.duties, duty.request = call ∧
      ∃ outcome, duty.outcome? = some outcome ∧
        side.settled.filter (fun entry => entry.1 = call.id) =
          [(call.id, outcome.mapError .refused)] := by
  rw [← allThere, back.accountable.taken] at called
  obtain ⟨duty, held, rfl⟩ := List.mem_map.mp called
  obtain ⟨outcome, known⟩ := Option.isSome_iff_exists.mp (ended duty held)
  refine ⟨duty, held, rfl, outcome, known, ?_⟩
  have answers := back.once paired held
  rw [← allHere, Duty.answer?, known] at answers
  rw [(paired.settles.running opened).1, List.filter_map]
  have same : ((fun entry : Nat × Except CallError Json => decide (entry.1 = duty.request.id)) ∘
      settlement) = fun answer => decide (answer.id = duty.request.id) := rfl
  rw [same, answers]
  simp [settlement, id_ofOutcome, outcome_ofOutcome]

end Side.Paired

theorem requests_answered_once (history : List (Party × Happening)) (party : Party) :
    AnsweredOnce (Joined.run history party) (Joined.run history party.other) := by
  have paired := Joined.paired_run history party
  have back := Joined.paired_run history party.other
  have twice : party.other.other = party := by cases party <;> rfl
  rw [twice] at back
  generalize Joined.run history party = side, Joined.run history party.other = peer at paired back
  refine ⟨⟨paired.connected.arrived, paired.accountable.taken, back.accountable.numbered⟩,
    fun duty held => ⟨(paired.accountable.honest duty held).served, ?_, fun outcome known => ?_⟩,
    fun duty held => paired.once back held,
    fun answer sent => ?_, fun entry settled => ?_, paired.settles.once,
    fun opened allHere allThere ended call => paired.complete back opened allHere allThere ended⟩
  · unfold Duty.outcome?
    cases duty.handler <;> simp
  · exact (paired.accountable.honest duty held).endsIn known
  · obtain ⟨duty, held, known⟩ :=
      List.mem_filterMap.mp (paired.accountable.answered.mem_iff.mp sent)
    obtain ⟨outcome, _, rfl⟩ := Option.map_eq_some_iff.mp known
    exact ⟨duty, held, (id_ofOutcome _ _).symm⟩
  · have answered {answer : Response} (received : answer ∈ responses side.received)
        (same : entry = Side.settlement answer) :
        ∃ duty ∈ peer.duties, duty.request ∈ requests side.sent ∧ duty.request.id = entry.1 ∧
          ∃ outcome, duty.outcome? = some outcome ∧ entry.2 = outcome.mapError .refused := by
      obtain ⟨duty, held, called, number, outcome, known, settlement⟩ :=
        paired.own_answer back received
      rw [same]
      exact ⟨duty, held, called, number, outcome, known, congrArg Prod.snd settlement⟩
    cases closed : side.endpoint.closed with
    | none =>
        rw [(paired.settles.running closed).1] at settled
        obtain ⟨answer, received, same⟩ := List.mem_map.mp settled
        exact Or.inr (answered received same.symm)
    | some reason =>
        rcases (paired.settles.ended reason closed).2 entry settled with
          lost | ⟨answer, received, same⟩
        · exact Or.inl ⟨reason, rfl, lost⟩
        · exact Or.inr (answered received same)

/-- Both sides call under the number 1, and the handler that began last ends first. -/
theorem crossing_calls_answered :
    let history : List (Party × Happening) :=
      [(.second, .register "add" fun payload =>
          match payload with | .number _ => true | _ => false),
        (.first, .call "add" (.nat 1)), (.first, .call "add" .null), (.second, .call "sum" .null),
        (.second, .arrive), (.second, .arrive), (.first, .arrive),
        (.second, .finish 1 .unreadable), (.second, .finish 0 (.value (.nat 2))),
        (.second, .arrive), (.first, .arrive), (.first, .arrive)]
    ∃ duty ∈ (Joined.run history .second).duties, duty.request = ⟨1, "add", .nat 1⟩ ∧
      ∃ outcome, duty.outcome? = some outcome ∧
        (Joined.run history .first).settled.filter (fun entry => entry.1 = 1) =
          [(1, outcome.mapError .refused)] := by
  intro history
  refine (requests_answered_once history .first).complete rfl rfl rfl ?_ ⟨1, "add", .nat 1⟩ ?_
  · intro duty held
    change duty ∈ [_, _] at held
    rcases List.mem_cons.mp held with rfl | last
    · rfl
    · rw [List.mem_singleton.mp last]
      rfl
  · exact List.mem_cons_self

end Reanalysis
