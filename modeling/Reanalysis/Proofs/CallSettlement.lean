/-
The life of calls. Each call of an endpoint has a number of its own, and is settled by the
first answer that carries this number or by the closing of the endpoint, whichever comes
first. A closed endpoint keeps no call waiting and sends neither requests nor notifications.
-/

import Mathlib.Data.List.Nodup
import Reanalysis.Wire.Endpoint

namespace Reanalysis

namespace Endpoint

/-- What happens to an endpoint. Handlers report back with `answer`. -/
inductive Event where
  | request (topic : String) (payload : Json)
  | notify (topic : String) (payload : Json)
  | dispatch (message : Message)
  | answer (call : Request) (ending : Ending)
  | handle (topic : String)
  | listen (topic : String)
  | close (reason : String)

def react (endpoint : Endpoint) : Event → Endpoint × List Effect
  | .request topic payload => endpoint.request topic payload
  | .notify topic payload => (endpoint, (endpoint.notify topic payload).toOption.getD [])
  | .dispatch message => endpoint.dispatch message
  | .answer call ending => (endpoint, endpoint.answer call ending)
  | .handle topic => (endpoint.handle topic, [])
  | .listen topic => (endpoint.listen topic, [])
  | .close reason => endpoint.close reason

/-- All events in order, with everything that was to be done. -/
def run (endpoint : Endpoint) : List Event → Endpoint × List Effect
  | [] => (endpoint, [])
  | event :: rest =>
      let (next, effects) := endpoint.react event
      let (last, later) := run next rest
      (last, effects ++ later)

/-- The numbers of the calls that are started, in their order. -/
def numbers (endpoint : Endpoint) : List Event → List Nat
  | [] => []
  | .request topic payload :: rest =>
      endpoint.nextId :: numbers (endpoint.react (.request topic payload)).1 rest
  | event :: rest => numbers (endpoint.react event).1 rest

def settlements (id : Nat) (effects : List Effect) : List (Except CallError Json) :=
  effects.filterMap fun effect =>
    match effect with
    | .settle call outcome => if call = id then some outcome else none
    | _ => none

def closing : List Event → Option String
  | [] => none
  | .close reason :: _ => some reason
  | _ :: rest => closing rest

/-- What a waiting call is to be settled with: what comes first of an answer with its number
and the end. -/
def fate (id : Nat) : List Event → Option (Except CallError Json)
  | [] => none
  | .dispatch (.response answer) :: rest =>
      if answer.id = id then some (answer.outcome.mapError .refused) else fate id rest
  | .close reason :: _ => some (.error (.closed reason))
  | _ :: rest => fate id rest

theorem fate_append (id : Nat) (front rest : List Event) :
    fate id (front ++ rest) = (fate id front).or (fate id rest) := by
  fun_induction fate id front <;> simp_all [fate]

theorem closing_append (front rest : List Event) :
    closing (front ++ rest) = (closing front).or (closing rest) := by
  fun_induction closing front <;> simp_all [closing]

theorem settlements_append (id : Nat) (effects later : List Effect) :
    settlements id (effects ++ later) = settlements id effects ++ settlements id later :=
  List.filterMap_append

theorem settlements_map (id : Nat) (outcome : Except CallError Json) {waiting : List Nat}
    (distinct : waiting.Nodup) :
    settlements id (waiting.map fun call => .settle call outcome) =
      if id ∈ waiting then [outcome] else [] := by
  induction waiting with
  | nil => rfl
  | cons call rest ih =>
      obtain ⟨fresh, later⟩ := List.nodup_cons.mp distinct
      change settlements id ([.settle call outcome] ++ _) = _
      rw [settlements_append, ih later]
      by_cases here : call = id
      · subst here
        simp [settlements, fresh]
      · simp [settlements, here, Ne.symm here]

variable {endpoint : Endpoint}

theorem run_cons (event : Event) (rest : List Event) :
    endpoint.run (event :: rest) =
      (((endpoint.react event).1.run rest).1,
        (endpoint.react event).2 ++ ((endpoint.react event).1.run rest).2) := rfl

theorem run_append (front rest : List Event) :
    endpoint.run (front ++ rest) =
      (((endpoint.run front).1.run rest).1,
        (endpoint.run front).2 ++ ((endpoint.run front).1.run rest).2) := by
  induction front generalizing endpoint with
  | nil => rfl
  | cons event front ih => simp [run_cons, ih]

/-- What one event does while messages are taken. Only these four kinds of events touch the
calls. -/
inductive Reacted (endpoint : Endpoint) : Event → Endpoint → List Effect → Prop
  | refused (topic : String) (payload : Json) (reason : String)
      (closed : endpoint.closed = some reason) :
      Reacted endpoint (.request topic payload)
        { endpoint with nextId := endpoint.nextId + 1 }
        [.settle endpoint.nextId (.error (.closed reason))]
  | sent (topic : String) (payload : Json) (opened : endpoint.closed = none) :
      Reacted endpoint (.request topic payload)
        { endpoint with
          nextId := endpoint.nextId + 1
          waiting := endpoint.waiting ++ [endpoint.nextId] }
        [.send (.request ⟨endpoint.nextId, topic, payload⟩)]
  | answered (answer : Response) (waits : answer.id ∈ endpoint.waiting) :
      Reacted endpoint (.dispatch (.response answer))
        { endpoint with waiting := endpoint.waiting.erase answer.id }
        [.settle answer.id (answer.outcome.mapError .refused)]
  | ended (reason : String) (opened : endpoint.closed = none) :
      Reacted endpoint (.close reason)
        { endpoint with closed := some reason, waiting := [] }
        (endpoint.waiting.map fun id => .settle id (.error (.closed reason)))
  | passed (event : Event) (next : Endpoint) (effects : List Effect)
      (nextId : next.nextId = endpoint.nextId) (closed : next.closed = endpoint.closed)
      (waiting : next.waiting = endpoint.waiting) (taken : next.taken = endpoint.taken)
      (silent : ∀ id, settlements id effects = [])
      (noRequest : ∀ topic payload, event ≠ .request topic payload)
      (unknown : ∀ answer, event = .dispatch (.response answer) → answer.id ∉ endpoint.waiting)
      (already : ∀ reason, event = .close reason → endpoint.closed ≠ none) :
      Reacted endpoint event next effects

private theorem Reacted.idle {event : Event} {effects : List Effect}
    (silent : ∀ id, settlements id effects = [])
    (noRequest : ∀ topic payload, event ≠ .request topic payload)
    (unknown : ∀ answer, event = .dispatch (.response answer) → answer.id ∉ endpoint.waiting)
    (already : ∀ reason, event = .close reason → endpoint.closed ≠ none) :
    Reacted endpoint event endpoint effects :=
  .passed event endpoint effects rfl rfl rfl rfl silent noRequest unknown already

theorem request_of_closed {reason : String} (closed : endpoint.closed = some reason)
    (topic : String) (payload : Json) :
    endpoint.request topic payload =
      ({ endpoint with nextId := endpoint.nextId + 1 },
        [.settle endpoint.nextId (.error (.closed reason))]) := by
  simp [request, obstacle, closed]

theorem request_of_open (taken : endpoint.taken = true) (opened : endpoint.closed = none)
    (topic : String) (payload : Json) :
    endpoint.request topic payload =
      ({ endpoint with
          nextId := endpoint.nextId + 1
          waiting := endpoint.waiting ++ [endpoint.nextId] },
        [.send (.request ⟨endpoint.nextId, topic, payload⟩)]) := by
  simp [request, obstacle, opened, taken]

theorem react_reacted (taken : endpoint.taken = true) (event : Event) :
    Reacted endpoint event (endpoint.react event).1 (endpoint.react event).2 := by
  cases event with
  | request topic payload =>
      cases closed : endpoint.closed with
      | some reason =>
          have refused : endpoint.react (.request topic payload) = _ :=
            request_of_closed closed topic payload
          rw [refused]
          exact Reacted.refused topic payload reason closed
      | none =>
          have sent : endpoint.react (.request topic payload) = _ :=
            request_of_open taken closed topic payload
          rw [sent]
          exact Reacted.sent topic payload closed
  | notify topic payload =>
      apply Reacted.idle <;> try simp
      intro id
      unfold react notify
      cases endpoint.obstacle <;> rfl
  | dispatch message =>
      cases message with
      | response answer =>
          by_cases waits : answer.id ∈ endpoint.waiting
          · have reacted := Reacted.answered answer waits
            simpa [react, dispatch, waits] using reacted
          · have nothing : endpoint.react (.dispatch (.response answer)) = (endpoint, []) := by
              simp [react, dispatch, waits]
            rw [nothing]
            apply Reacted.idle <;> simp [waits, settlements]
      | request call =>
          by_cases served : call.topic ∈ endpoint.served
          · have serve : endpoint.react (.dispatch (.request call)) =
                (endpoint, [.serve call]) := by
              simp [react, dispatch, served]
            rw [serve]
            apply Reacted.idle <;> simp [settlements]
          · have refuse : endpoint.react (.dispatch (.request call)) =
                (endpoint, [.send (.response (Response.ofOutcome call.id
                  (.error ⟨.protocol, "unknown topic '" ++ call.topic ++ "'"⟩)))]) := by
              simp [react, dispatch, served, emit, taken]
            rw [refuse]
            apply Reacted.idle <;> simp [settlements]
      | notification notice =>
          apply Reacted.idle <;> try simp
          intro id
          unfold react dispatch
          dsimp only
          split <;> rfl
  | answer call ending =>
      apply Reacted.idle <;> simp [react, answer, emit, taken, settlements]
  | handle topic => apply Reacted.passed <;> simp [react, handle, settlements]
  | listen topic => apply Reacted.passed <;> simp [react, listen, settlements]
  | close reason =>
      cases closed : endpoint.closed with
      | none =>
          have reacted := Reacted.ended reason closed
          simpa [react, close, closed] using reacted
      | some first =>
          have nothing : endpoint.react (.close reason) = (endpoint, []) := by
            simp [react, close, closed]
          rw [nothing]
          apply Reacted.idle <;> simp [closed, settlements]

/-! ### What holds at all times -/

/-- The calls that wait are different ones that were started, and none waits after the end. -/
structure Orderly (endpoint : Endpoint) : Prop where
  distinct : endpoint.waiting.Nodup
  started : ∀ id ∈ endpoint.waiting, id < endpoint.nextId
  ended : endpoint.closed ≠ none → endpoint.waiting = []
  taken : endpoint.taken = true

theorem orderly_new : new.Orderly :=
  ⟨List.nodup_nil, fun _ waits => (List.not_mem_nil waits).elim, fun _ => rfl, rfl⟩

theorem Orderly.react (orderly : endpoint.Orderly) (event : Event) :
    (endpoint.react event).1.Orderly := by
  have reacted := react_reacted orderly.taken event
  generalize (endpoint.react event).1 = next, (endpoint.react event).2 = effects at reacted ⊢
  cases reacted with
  | refused topic payload reason closed =>
      refine ⟨orderly.distinct, ?_, orderly.ended, orderly.taken⟩
      exact fun id waits => Nat.lt_succ_of_lt (orderly.started id waits)
  | sent topic payload opened =>
      refine ⟨?_, ?_, fun ended => absurd opened ended, orderly.taken⟩
      · have fresh : endpoint.nextId ∉ endpoint.waiting :=
          fun waits => Nat.lt_irrefl _ (orderly.started _ waits)
        exact List.nodup_append_comm.mp (List.nodup_cons.mpr ⟨fresh, orderly.distinct⟩)
      · intro id waits
        rcases List.mem_append.mp waits with before | fresh
        · exact Nat.lt_succ_of_lt (orderly.started id before)
        · rw [List.mem_singleton.mp fresh]
          exact Nat.lt_succ_self _
  | answered answer waits =>
      refine ⟨orderly.distinct.erase _, ?_, ?_, orderly.taken⟩
      · exact fun id left => orderly.started id (List.mem_of_mem_erase left)
      · intro ended
        simp [orderly.ended ended]
  | ended reason opened =>
      exact ⟨List.nodup_nil, fun _ waits => (List.not_mem_nil waits).elim, fun _ => rfl,
        orderly.taken⟩
  | passed event next effects nextId closed waiting taken silent noRequest unknown already =>
      refine ⟨?_, ?_, ?_, ?_⟩
      · rw [waiting]
        exact orderly.distinct
      · rw [waiting, nextId]
        exact orderly.started
      · rw [waiting, closed]
        exact orderly.ended
      · rw [taken]
        exact orderly.taken

theorem Orderly.run (orderly : endpoint.Orderly) (events : List Event) :
    (endpoint.run events).1.Orderly := by
  induction events generalizing endpoint with
  | nil => exact orderly
  | cons event rest ih => exact ih (orderly.react event)

theorem closed_react (taken : endpoint.taken = true) (event : Event) :
    (endpoint.react event).1.closed = endpoint.closed.or (closing [event]) := by
  have reacted := react_reacted taken event
  generalize (endpoint.react event).1 = next, (endpoint.react event).2 = effects at reacted ⊢
  cases reacted with
  | refused topic payload reason closed => simp [closed]
  | sent topic payload opened => simp [opened, closing]
  | answered answer waits => simp [closing]
  | ended reason opened => simp [opened, closing]
  | passed event next effects nextId closed waiting taken silent noRequest unknown already =>
      rw [closed]
      cases event with
      | close reason =>
          obtain ⟨first, given⟩ := Option.ne_none_iff_exists'.mp (already reason rfl)
          simp [given]
      | _ => simp [closing]

theorem closed_run (orderly : endpoint.Orderly) (events : List Event) :
    (endpoint.run events).1.closed = endpoint.closed.or (closing events) := by
  induction events generalizing endpoint with
  | nil => simp [run, closing]
  | cons event rest ih =>
      have first : closing (event :: rest) = (closing [event]).or (closing rest) :=
        closing_append [event] rest
      rw [first, ← Option.or_assoc, ← closed_react orderly.taken]
      exact ih (orderly.react event)

theorem nextId_react (taken : endpoint.taken = true) (event : Event) :
    (endpoint.react event).1.nextId = endpoint.nextId + (endpoint.numbers [event]).length := by
  have reacted := react_reacted taken event
  generalize (endpoint.react event).1 = next, (endpoint.react event).2 = effects at reacted ⊢
  cases reacted with
  | refused topic payload reason closed => rfl
  | sent topic payload opened => rfl
  | answered answer waits => rfl
  | ended reason opened => rfl
  | passed event next effects nextId closed waiting taken silent noRequest unknown already =>
      cases event with
      | request topic payload => exact absurd rfl (noRequest topic payload)
      | _ => exact nextId

theorem nextId_run (orderly : endpoint.Orderly) (events : List Event) :
    (endpoint.run events).1.nextId = endpoint.nextId + (endpoint.numbers events).length := by
  induction events generalizing endpoint with
  | nil => rfl
  | cons event rest ih =>
      have now := nextId_react orderly.taken event
      have later := ih (orderly.react event)
      rw [run_cons]
      dsimp only
      rw [later, now, Nat.add_assoc]
      cases event <;> simp [numbers, Nat.add_comm]

theorem numbers_eq (orderly : endpoint.Orderly) (events : List Event) :
    endpoint.numbers events =
      List.range' endpoint.nextId (endpoint.numbers events).length := by
  induction events generalizing endpoint with
  | nil => rfl
  | cons event rest ih =>
      have later := ih (orderly.react event)
      have next := nextId_react orderly.taken event
      cases event with
      | request topic payload =>
          have numbered : endpoint.numbers [.request topic payload] = [endpoint.nextId] := rfl
          rw [numbered, List.length_singleton] at next
          rw [next] at later
          change endpoint.nextId :: numbers _ rest = List.range' _ (numbers _ rest).length.succ
          rw [List.range'_succ, ← later]
      | notify topic payload => exact later
      | dispatch message => rw [next] at later; exact later
      | answer call ending => exact later
      | handle topic => exact later
      | listen topic => exact later
      | close reason => rw [next] at later; exact later

theorem mem_numbers (orderly : endpoint.Orderly) {id : Nat} {events : List Event} :
    id ∈ endpoint.numbers events ↔
      endpoint.nextId ≤ id ∧ id < endpoint.nextId + (endpoint.numbers events).length := by
  constructor
  · intro member
    rw [numbers_eq orderly] at member
    exact List.mem_range'_1.mp member
  · intro within
    rw [numbers_eq orderly]
    exact List.mem_range'_1.mpr within

/-! ### Settling -/

theorem settlements_react_of_waiting (orderly : endpoint.Orderly) {id : Nat}
    (waits : id ∈ endpoint.waiting) (event : Event) :
    settlements id (endpoint.react event).2 = (fate id [event]).toList ∧
      (id ∈ (endpoint.react event).1.waiting ↔ fate id [event] = none) := by
  have opened : endpoint.closed = none := by
    by_contra ended
    rw [orderly.ended ended] at waits
    cases waits
  have reacted := react_reacted orderly.taken event
  generalize (endpoint.react event).1 = next, (endpoint.react event).2 = effects at reacted ⊢
  cases reacted with
  | refused topic payload reason closed =>
      rw [opened] at closed
      cases closed
  | sent topic payload opened => simp [settlements, fate, waits]
  | answered answer waiting =>
      by_cases own : answer.id = id
      · subst own
        simp [settlements, fate, orderly.distinct.not_mem_erase]
      · simp [settlements, fate, own, List.mem_erase_of_ne (Ne.symm own), waits]
  | ended reason opened =>
      rw [settlements_map id _ orderly.distinct, if_pos waits]
      simp [fate]
  | passed event next effects nextId closed waiting taken silent noRequest unknown already =>
      rw [silent, waiting]
      have undecided : fate id [event] = none := by
        cases event with
        | dispatch message =>
            cases message with
            | response answer =>
                have other : answer.id ≠ id := by
                  intro own
                  exact unknown answer rfl (own ▸ waits)
                simp [fate, other]
            | _ => rfl
        | close reason => exact absurd opened (already reason rfl)
        | _ => rfl
      simp [undecided, waits]

theorem settlements_react_of_idle (orderly : endpoint.Orderly) {id : Nat}
    (idle : id ∉ endpoint.waiting) {event : Event} (other : id ∉ endpoint.numbers [event]) :
    settlements id (endpoint.react event).2 = [] ∧ id ∉ (endpoint.react event).1.waiting := by
  have reacted := react_reacted orderly.taken event
  generalize (endpoint.react event).1 = next, (endpoint.react event).2 = effects at reacted ⊢
  cases reacted with
  | refused topic payload reason closed =>
      have another : endpoint.nextId ≠ id := fun own => other (own ▸ List.mem_singleton_self _)
      exact ⟨by simp [settlements, another], idle⟩
  | sent topic payload opened =>
      have another : id ≠ endpoint.nextId := fun own => other (own ▸ List.mem_singleton_self _)
      simp [settlements, idle, another]
  | answered answer waiting =>
      have another : answer.id ≠ id := fun own => idle (own ▸ waiting)
      exact ⟨by simp [settlements, another], fun left => idle (List.mem_of_mem_erase left)⟩
  | ended reason opened =>
      rw [settlements_map id _ orderly.distinct, if_neg idle]
      exact ⟨rfl, List.not_mem_nil⟩
  | passed event next effects nextId closed waiting taken silent noRequest unknown already =>
      rw [waiting]
      exact ⟨silent id, idle⟩

theorem settlements_run_of_idle (orderly : endpoint.Orderly) {id : Nat}
    (idle : id ∉ endpoint.waiting) (started : id < endpoint.nextId) (events : List Event) :
    settlements id (endpoint.run events).2 = [] := by
  induction events generalizing endpoint with
  | nil => rfl
  | cons event rest ih =>
      have other : id ∉ endpoint.numbers [event] := by
        rw [mem_numbers orderly]
        omega
      obtain ⟨silent, still⟩ := settlements_react_of_idle orderly idle other
      have grown := nextId_react orderly.taken event
      rw [run_cons, settlements_append, silent, List.nil_append]
      exact ih (orderly.react event) still (by omega)

/-- A call that waits is settled as its fate says, and only so. -/
theorem settlements_run_of_waiting (orderly : endpoint.Orderly) {id : Nat}
    (waits : id ∈ endpoint.waiting) (events : List Event) :
    settlements id (endpoint.run events).2 = (fate id events).toList := by
  induction events generalizing endpoint with
  | nil => rfl
  | cons event rest ih =>
      obtain ⟨now, still⟩ := settlements_react_of_waiting orderly waits event
      have grown := nextId_react orderly.taken event
      have started := orderly.started id waits
      have split : fate id (event :: rest) = (fate id [event]).or (fate id rest) :=
        fate_append id [event] rest
      rw [run_cons, settlements_append, now, split]
      cases decided : fate id [event] with
      | none => exact ih (orderly.react event) (still.mpr decided)
      | some outcome =>
          have settled : id ∉ (endpoint.react event).1.waiting := by
            rw [still, decided]
            exact Option.some_ne_none outcome
          rw [settlements_run_of_idle (orderly.react event) settled (by omega)]
          rfl

theorem settlements_run_of_unused (orderly : endpoint.Orderly) {id : Nat} (events : List Event)
    (unused : (endpoint.run events).1.nextId ≤ id) :
    settlements id (endpoint.run events).2 = [] := by
  induction events generalizing endpoint with
  | nil => rfl
  | cons event rest ih =>
      have grown := nextId_react orderly.taken event
      have later := nextId_run (orderly.react event) rest
      rw [run_cons] at unused
      dsimp only at unused
      rw [run_cons, settlements_append, ih (orderly.react event) unused, List.append_nil]
      have idle : id ∉ endpoint.waiting := by
        intro waits
        have started := orderly.started id waits
        omega
      have other : id ∉ endpoint.numbers [event] := by
        rw [mem_numbers orderly]
        omega
      exact (settlements_react_of_idle orderly idle other).1

/-- A call that comes after the end is settled with its reason, another one as its fate says. -/
theorem settlements_of_request (front : List Event) (topic : String) (payload : Json)
    (later : List Event) :
    settlements (new.run front).1.nextId
        (new.run (front ++ .request topic payload :: later)).2 =
      match closing front with
      | some reason => [.error (.closed reason)]
      | none => (fate (new.run front).1.nextId later).toList := by
  have orderly := orderly_new.run front
  have before := settlements_run_of_unused orderly_new front (Nat.le_refl _)
  have closed : (new.run front).1.closed = closing front := closed_run orderly_new front
  rw [run_append, settlements_append, before, List.nil_append, run_cons, settlements_append]
  generalize (new.run front).1 = endpoint at orderly closed ⊢
  have next := orderly.react (.request topic payload)
  cases ended : closing front with
  | some reason =>
      rw [ended] at closed
      have refused : endpoint.react (.request topic payload) = _ :=
        request_of_closed closed topic payload
      rw [refused] at next ⊢
      have idle : endpoint.nextId ∉ endpoint.waiting :=
        fun waits => Nat.lt_irrefl _ (orderly.started _ waits)
      rw [settlements_run_of_idle next idle (Nat.lt_succ_self _)]
      simp [settlements]
  | none =>
      rw [ended] at closed
      have sent : endpoint.react (.request topic payload) = _ :=
        request_of_open orderly.taken closed topic payload
      rw [sent] at next ⊢
      rw [settlements_run_of_waiting next List.mem_concat_self]
      rfl

/-- The calls of a history have different numbers, which fit in 64 bits as long as there are
fewer calls than such numbers. A call is settled once at most: with the reason of an end that
came before it, or as its fate says, whatever answers with other numbers come in. After the end
no call waits, the reason stays, and what is called or notified fails with it and is not sent. -/
theorem calls_settle_once (events : List Event) :
    (new.numbers events).Nodup ∧
    ((new.numbers events).length < UInt64.size → ∀ id ∈ new.numbers events, id < UInt64.size) ∧
    (∀ front topic payload later, events = front ++ .request topic payload :: later →
      (new.run front).1.nextId ∈ new.numbers events ∧
      (closing front = none → ((new.run front).1.request topic payload).2 =
        [.send (.request ⟨(new.run front).1.nextId, topic, payload⟩)]) ∧
      settlements (new.run front).1.nextId (new.run events).2 =
        (match closing front with
          | some reason => [.error (.closed reason)]
          | none => (fate (new.run front).1.nextId later).toList) ∧
      ∀ early late answer, later = early ++ late → answer.id ≠ (new.run front).1.nextId →
        settlements (new.run front).1.nextId (new.run (front ++ .request topic payload ::
            (early ++ .dispatch (.response answer) :: late))).2 =
          settlements (new.run front).1.nextId (new.run events).2) ∧
    (∀ reason, closing events = some reason → ∀ later,
      (new.run (events ++ later)).1.waiting = [] ∧
      (new.run (events ++ later)).1.closed = some reason ∧
      ∀ topic payload,
        ((new.run (events ++ later)).1.request topic payload).2 =
          [.settle (new.run (events ++ later)).1.nextId (.error (.closed reason))] ∧
        (new.run (events ++ later)).1.notify topic payload = .error (.closed reason)) := by
  refine ⟨?_, ?_, ?_, ?_⟩
  · rw [numbers_eq orderly_new]
    exact List.nodup_range'
  · intro few id member
    rw [mem_numbers orderly_new] at member
    change 1 ≤ id ∧ id < 1 + (new.numbers events).length at member
    omega
  · rintro front topic payload later rfl
    refine ⟨?_, ?_, settlements_of_request front topic payload later, ?_⟩
    · have count := nextId_run orderly_new (front ++ .request topic payload :: later)
      rw [run_append] at count
      have before := nextId_run orderly_new front
      have after := nextId_run (orderly_new.run front) (.request topic payload :: later)
      change _ = _ + (numbers _ later).length.succ at after
      rw [mem_numbers orderly_new]
      dsimp only at count
      omega
    · intro opened
      have closed : (new.run front).1.closed = none := by
        rw [closed_run orderly_new, opened]
        rfl
      rw [request_of_open (orderly_new.run front).taken closed]
    · rintro early late answer rfl other
      rw [settlements_of_request, settlements_of_request, fate_append, fate_append]
      simp [fate, other]
  · intro reason ended later
    have orderly := orderly_new.run (events ++ later)
    have closed : (new.run (events ++ later)).1.closed = some reason := by
      rw [closed_run orderly_new, closing_append, ended]
      rfl
    refine ⟨orderly.ended (by simp [closed]), closed, ?_⟩
    intro topic payload
    simp [request, notify, obstacle, closed]

namespace Trial

/-- Two calls are answered in turned order, the first of them only after the end. -/
def answers : List Event :=
  [.request "run" .null, .dispatch (.response ⟨2, some (.bool true), none⟩),
    .dispatch (.response ⟨7, some .null, none⟩), .dispatch (.response ⟨2, none, none⟩),
    .close "gone", .dispatch (.response ⟨1, some .null, none⟩), .close "twice"]

def history : List Event := .request "run" .null :: answers ++ [.request "run" .null]

end Trial

/-- The second call is answered, the first fails with the end, and so does one that comes after
it. -/
theorem calls_settle_once_of_end :
    (∀ id ∈ new.numbers Trial.history, id < UInt64.size) ∧
      settlements 1 (new.run Trial.history).2 = [.error (.closed "gone")] ∧
      settlements 2 (new.run Trial.history).2 = [.ok (.bool true)] ∧
      settlements 3 (new.run Trial.history).2 = [.error (.closed "gone")] ∧
      settlements 2 (new.run ([.request "run" .null] ++ .request "run" .null ::
          ([] ++ .dispatch (.response ⟨9, some .null, none⟩) ::
            (Trial.answers.tail ++ [.request "run" .null])))).2 =
        settlements 2 (new.run Trial.history).2 ∧
      (new.run (Trial.history ++ [.close "late"])).1.closed = some "gone" := by
  obtain ⟨_distinct, few, calls, ended⟩ := calls_settle_once Trial.history
  refine ⟨few (by decide), ?_, ?_, ?_, ?_, ?_⟩
  · exact (calls [] "run" .null (Trial.answers ++ [.request "run" .null]) rfl).2.2.1
  · exact (calls [.request "run" .null] "run" .null
      (Trial.answers.tail ++ [.request "run" .null]) rfl).2.2.1
  · exact (calls (.request "run" .null :: Trial.answers) "run" .null [] rfl).2.2.1
  · exact (calls [.request "run" .null] "run" .null (Trial.answers.tail ++ [.request "run" .null])
      rfl).2.2.2 [] _ ⟨9, some .null, none⟩ rfl (by decide)
  · exact (ended "gone" rfl [.close "late"]).2.1

end Endpoint

end Reanalysis
