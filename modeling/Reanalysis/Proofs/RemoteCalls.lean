/-
A call over a channel from end to end. What a worker answers is what the call comes to, errors
included, as long as no name of an engine reads as a part of a message.
-/

import Reanalysis.Proofs.SentErrors
import Reanalysis.Proofs.ServiceCalls
import Reanalysis.Remote

namespace Reanalysis

namespace AnalysisError

/-- The name of an engine that failed is told apart from its message. -/
def Plain : AnalysisError → Prop
  | .engine name _ => ':' ∉ name.toList
  | .cancelled => True
  | .transportClosed _ => True
  | .configuration _ => True
  | .protocol _ => True

theorem Plain.named {cause : AnalysisError} (plain : cause.Plain) : cause.Named := by
  cases cause with
  | engine name message =>
      intro marked
      exact plain (marked.subset List.mem_cons_self)
  | _ => trivial

end AnalysisError

def arrivedOutcome (answer : Response) : Except Fault Json :=
  Response.outcome
    { answer with result := answer.result.bind fun value => value.canonical.unlessNull }

theorem arrivedOutcome_value (id : Nat) (value : Json) :
    arrivedOutcome (Response.ofOutcome id (.ok value)) = .ok value.canonical := by
  cases value <;> rfl

theorem arrivedOutcome_fault (id : Nat) (fault : Fault) :
    arrivedOutcome (Response.ofOutcome id (.error fault)) = .error fault := rfl

namespace Handle

variable {π ε : Type} {program : Program π ε} {surroundings : ε}

def quiet (asked : Nat) : Channel := Channel.ofEndpoint { Endpoint.new with nextId := asked }

/-- A channel that has one call to send and waits for its answer. -/
def asking (asked : Nat) (messages : List Message) : Channel :=
  { quiet asked with
    endpoint := { Endpoint.new with nextId := asked + 1, waiting := [asked] }
    queue := messages
    turns := [.writer] }

def settled (name : String) (asked : Nat) (process : π) (ready : Bool) : Handle π :=
  ⟨name, some ⟨quiet asked, process, 1, ready⟩, 1⟩

theorem encoded_isEmpty {messages : List Message} (nonempty : messages ≠ []) :
    (Service.encoded messages).isEmpty = false := by
  obtain ⟨message, rest, rfl⟩ := List.exists_cons_of_ne_nil nonempty
  rw [Service.encoded, List.flatMap_cons, ← Wire.Entry.bytes_ofMessage, Wire.Entry.bytes,
    List.append_assoc, List.isEmpty_eq_false_iff]
  exact List.append_ne_nil_of_right_ne_nil _ (List.cons_ne_nil _ _)

theorem write_asking (asked : Nat) (messages : List Message) :
    Channel.write { asking asked messages with turns := [] } =
      ({ asking asked [] with turns := [] }, messages.map .write) := rfl

theorem written_map (messages : List Message) :
    Live.written (messages.map .write) = Service.encoded messages := by
  rw [Live.written, List.flatMap_map]
  rfl

theorem settled_map (messages : List Message) (effects : List ChannelEffect) :
    Live.settled (messages.map .write ++ effects) = Live.settled effects := by
  rw [Live.settled, List.filterMap_append, List.filterMap_map]
  have nothing : messages.filterMap (fun _ => (none : Option (Nat × Except CallError Json))) =
      [] := List.filterMap_none messages
  exact congrArg (· ++ _) nothing

theorem feed_answer {asked : Nat} {answer : Response} (own : answer.id = asked)
    (sendable : (Message.response answer).Sendable) :
    Channel.feed { asking asked [] with turns := [] } (Service.encoded [.response answer]) =
      (quiet (asked + 1),
        [.settle asked ((arrivedOutcome answer).mapError .refused)]) := by
  subst own
  have all : ∀ message ∈ [Message.response answer], message.Sendable :=
    List.forall_mem_singleton.mpr sendable
  have dispatched :
      Channel.dispatch { asking answer.id [] with turns := [] } (Message.response answer).arrived =
        (quiet (answer.id + 1),
          [.settle answer.id ((arrivedOutcome answer).mapError .refused)]) := by
    simp [Channel.dispatch, Endpoint.dispatch, asking, quiet, Message.arrived,
      Channel.ofEndpoint, Endpoint.new, Channel.perform, arrivedOutcome]
  rw [Service.feed_messages rfl rfl all, List.map_singleton, Channel.dispatchAll_cons, dispatched]
  rfl

theorem exchange_silent (rounds : Nat) (asked : Nat) (process : π) (number : Nat)
    (ready : Bool) :
    Live.exchange program surroundings (rounds + 1)
      ⟨quiet asked, process, number, ready⟩ = (⟨quiet asked, process, number, ready⟩, []) := rfl

theorem exchange_asking {asked : Nat} {messages : List Message} {answer : Response}
    {process next : π} {ready : Bool} (nonempty : messages ≠ [])
    (delivered : program.deliver (Service.encoded messages) process surroundings =
      some (Service.encoded [.response answer], next))
    (own : answer.id = asked) (sendable : (Message.response answer).Sendable) :
    Live.exchange program surroundings Live.rounds ⟨asking asked messages, process, 1, ready⟩ =
      (⟨quiet (asked + 1), next, 1, ready⟩,
        [(asked, (arrivedOutcome answer).mapError .refused)]) := by
  have fed := feed_answer own sendable
  rw [Live.rounds, Live.exchange, write_asking]
  dsimp only
  rw [written_map, encoded_isEmpty nonempty, if_neg Bool.false_ne_true, delivered]
  dsimp only
  rw [fed, settled_map, exchange_silent]
  rfl

theorem sent_call (asked : Nat) (topic : String) (payload : Json)
    (ahead behind : Option Notification) :
    (tell (quiet asked) ahead).endpoint.nextId = asked ∧
      ((tell (quiet asked) ahead).request topic payload).2 = [] ∧
      tell ((tell (quiet asked) ahead).request topic payload).1 behind =
        asking asked (Service.callMessages ahead ⟨asked, topic, payload⟩ behind) := by
  cases ahead <;> cases behind <;> exact ⟨rfl, rfl, rfl⟩

theorem call_settled {α : Type} {name : String} {asked : Nat} {topic : String} {payload : Json}
    {ahead behind : Option Notification} {answer : Response} {process next : π} {ready : Bool}
    (delivered : program.deliver
      (Service.encoded (Service.callMessages ahead ⟨asked, topic, payload⟩ behind)) process
      surroundings = some (Service.encoded [.response answer], next))
    (own : answer.id = asked) (sendable : (Message.response answer).Sendable)
    (decode : Document → Option α) :
    (settled name asked process ready).call program surroundings topic payload ahead behind
        decode =
      ((Answer.read decode ((arrivedOutcome answer).mapError .refused)).mapError
        AnalysisError.ofCall, settled name (asked + 1) next ready) := by
  have nonempty : Service.callMessages ahead ⟨asked, topic, payload⟩ behind ≠ [] :=
    List.append_ne_nil_of_right_ne_nil _ (List.cons_ne_nil _ _)
  have exchanged := @exchange_asking π ε program surroundings asked _ answer process next ready
    nonempty delivered own sendable
  obtain ⟨number, silent, sent⟩ := sent_call asked topic payload ahead behind
  have found :
      (Live.settled [] ++ [(asked, (arrivedOutcome answer).mapError CallError.refused)]).find?
        (fun answer => decide (answer.1 = asked)) = some _ :=
    List.find?_cons_of_pos (decide_eq_true rfl)
  unfold call settled
  dsimp only
  rw [silent, sent, number, exchanged]
  dsimp only
  rw [found]
  rfl

end Handle

/-! ### What an answer comes to -/

theorem read_value {α : Type} {decode : Document → Option α} {json : Json} {value : α}
    (travels : Travels decode json value) (asked : Nat) :
    (Answer.read decode
      ((arrivedOutcome (Response.ofOutcome asked (.ok json))).mapError .refused)).mapError
        AnalysisError.ofCall = .ok value := by
  have read : Answer.read decode (.ok json.canonical) = .ok value := by
    simp only [Answer.read, travels.read Json.keeps_canonical]
  rw [arrivedOutcome_value]
  exact congrArg (Except.mapError AnalysisError.ofCall) read

theorem read_fault {α : Type} {cause : AnalysisError} (plain : cause.Plain)
    (decode : Document → Option α) (asked : Nat) :
    (Answer.read decode
      ((arrivedOutcome (Response.ofOutcome asked (.error cause.toFault))).mapError
        .refused)).mapError AnalysisError.ofCall = .error cause := by
  rw [arrivedOutcome_fault]
  exact congrArg Except.error (AnalysisError.ofFault_toFault_of_named plain.named)

namespace Json

theorem depthOfItems_le {items : List Json} {bound : Nat}
    (each : ∀ item ∈ items, item.depth ≤ bound) : depthOfItems items ≤ bound := by
  induction items with
  | nil => exact Nat.zero_le bound
  | cons item rest ih =>
      exact Nat.max_le.mpr ⟨each item List.mem_cons_self,
        ih fun other member => each other (List.mem_cons_of_mem _ member)⟩

end Json

theorem Issue.depth_all (issues : List Issue) : (Issue.listToJson issues).depth ≤ 2 := by
  refine Nat.succ_le_succ (Json.depthOfItems_le fun item member => ?_)
  obtain ⟨issue, _, rfl⟩ := List.mem_map.mp member
  exact Nat.le_refl 1

theorem Change.depth_le (change : Change) : change.toJson.depth ≤ 2 := by
  have flat (files : PathSet) :
      (Json.array (files.files.map SourcePath.toJson)).depth ≤ 1 := by
    refine Nat.succ_le_succ (Json.depthOfItems_le fun item member => ?_)
    obtain ⟨path, _, rfl⟩ := List.mem_map.mp member
    exact Nat.le_refl 0
  exact Nat.succ_le_succ (Nat.max_le.mpr
    ⟨flat change.changed, Nat.max_le.mpr ⟨flat change.deleted, Nat.zero_le 1⟩⟩)

theorem RunOrder.depth_le (order : RunOrder) : order.toJson.depth ≤ 3 := by
  have change : (orNothing Change.toJson order.change).depth ≤ 2 := by
    cases order.change with
    | none => exact Nat.zero_le 2
    | some change => exact change.depth_le
  have share : (orNothing Partition.toJson order.share).depth ≤ 2 := by
    cases order.share with
    | none => exact Nat.zero_le 2
    | some share => exact Nat.le_succ 1
  exact Nat.succ_le_succ (Nat.max_le.mpr ⟨change, Nat.max_le.mpr ⟨share, Nat.le_succ 1⟩⟩)

theorem SeedOrder.depth_le (order : SeedOrder) : order.toJson.depth ≤ 3 :=
  Nat.succ_le_succ (Nat.max_le.mpr ⟨Issue.depth_all order.issues, Nat.zero_le 2⟩)

namespace Message

theorem sendable_request {request : Request} (id : request.id < UInt64.size)
    (whole : request.payload.IsWhole) (shallow : request.payload.depth ≤ 3) :
    (Message.request request).Sendable where
  whole := ⟨(travels_nat (Nat.le_refl 64) id).whole, trivial, whole, trivial⟩
  shallow := by
    simp only [toJson, Json.depth, Json.depthOfFields, Json.nat, Document.nestingLimit]
    omega

theorem sendable_value {number : Nat} {value : Json} (small : number < UInt64.size)
    (whole : value.IsWhole) (shallow : value.depth ≤ 3) :
    (Message.response (Response.ofOutcome number (.ok value))).Sendable where
  whole := ⟨(travels_nat (Nat.le_refl 64) small).whole, whole, trivial⟩
  shallow := by
    simp only [toJson, Response.ofOutcome, whenSome, Json.depth, Json.depthOfFields, Json.nat,
      Document.nestingLimit, List.append_nil, id]
    omega

theorem sendable_fault {number : Nat} (small : number < UInt64.size) (fault : Fault) :
    (Message.response (Response.ofOutcome number (.error fault))).Sendable where
  whole := ⟨(travels_nat (Nat.le_refl 64) small).whole, fault.travels.whole, trivial⟩
  shallow := Nat.le_of_ble_eq_true rfl

end Message

end Reanalysis
