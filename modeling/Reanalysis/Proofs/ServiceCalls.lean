/-
What a worker makes of one request that comes while it has nothing else to do: it answers with
what the engine says over the memory of the worker, and has nothing to do again.
-/

import Reanalysis.Proofs.AnalysisRun
import Reanalysis.Proofs.MalformedLines
import Reanalysis.Proofs.TokenHistory
import Reanalysis.Service

namespace Reanalysis

namespace Service

def resting (engine : String) (memory : Memory) (groups : TokenGroups)
    (registry : List (Nat × Token)) : Service :=
  { new engine with memory := memory, groups := groups, registry := registry }

def answering (engine : String) (memory : Memory) (groups : TokenGroups)
    (registry : List (Nat × Token)) (answer : Response) : Service :=
  { resting engine memory groups registry with
    channel :=
      { Channel.ofEndpoint endpoint with queue := [.response answer], turns := [.writer] } }

variable {σ : Type} {analyzer : Analyzer σ} {engine : String} {memory : Memory}
  {groups : TokenGroups} {registry : List (Nat × Token)} {request : Request}

theorem answer_resting (request : Request) (ending : Ending) :
    (resting engine memory groups registry).answer request ending =
      answering engine memory groups registry
        (Response.ofOutcome request.id (ending.outcome request.topic)) := rfl

theorem idle_answering {service : Service} {answer : Response} {state after : σ}
    (answered : (service.round analyzer state).finishActive analyzer state =
      (answering engine memory groups registry answer, after)) :
    service.idle analyzer state =
      ({ resting engine memory groups registry with output := [.response answer] }, after) := by
  unfold idle
  dsimp only
  rw [answered]
  rfl

def runOutcome (result : Except Failure (List Issue)) : Except Fault Json :=
  match result with
  | .ok issues => .ok (Issue.listToJson issues)
  | .error (.error cause) => .error cause.toFault
  | .error (.broke thrown) => .error ⟨.engine, thrown.message⟩

theorem endRun_resting (request : Request) (token : Token) {stop : Option Failure}
    (unbroken : ∀ thrown, stop ≠ some (.broke thrown)) :
    ∃ left,
      (resting engine memory groups registry).endRun request token stop =
        answering engine (Analyzer.conclude stop memory).2 groups left
          (Response.ofOutcome request.id (runOutcome (Analyzer.conclude stop memory).1)) := by
  unfold endRun
  cases stop with
  | none => exact ⟨_, rfl⟩
  | some failure =>
      cases failure with
      | error cause => exact ⟨_, rfl⟩
      | broke thrown => exact absurd rfl (unbroken thrown)

theorem advanceActive_none (analyzer : Analyzer σ) (count : Nat) {service : Service}
    (free : service.active = none) (state : σ) :
    service.advanceActive analyzer count state = (service, state) := by
  cases count with
  | zero => rfl
  | succ count => rw [advanceActive, free]; rfl

theorem endRun_free (service : Service) (request : Request) (token : Token)
    (stop : Option Failure) : (service.endRun request token stop).active = none :=
  (endRun_jobs service request token stop).1

def working (engine : String) (groups : TokenGroups) (registry : List (Nat × Token))
    (request : Request) (token : Token) (files : List SourcePath) (memory : Memory) : Service :=
  { resting engine memory groups registry with active := some ⟨request, token, files⟩ }

/-- The engine under the token of a run. -/
def runnerFor (analyzer : Analyzer σ) (groups : TokenGroups) (token : Token) : Analyzer σ :=
  { analyzer with
    signalled := fun state => analyzer.signalled state || groups.isRequested token }

theorem advance_working (token : Token) (file : SourcePath) (rest : List SourcePath)
    (memory : Memory) (state : σ) :
    (working engine groups registry request token (file :: rest) memory).advance analyzer state =
      match (runnerFor analyzer groups token).attempt file rest memory state with
      | (none, memory, after) => (working engine groups registry request token rest memory, after)
      | (some failure, memory, after) =>
          ((resting engine memory groups registry).endRun request token (some failure), after) :=
  rfl

/-- The active run does to the memory what the engine does, and stops where it stops. -/
theorem advanceActive_working (token : Token) (files : List SourcePath) (memory : Memory)
    (state : σ) :
    (working engine groups registry request token files memory).advanceActive analyzer
        (files.length + 1) state =
      ((resting engine ((runnerFor analyzer groups token).work files memory state).2.1 groups
          registry).endRun request token
            ((runnerFor analyzer groups token).work files memory state).1,
        ((runnerFor analyzer groups token).work files memory state).2.2) := by
  induction files generalizing memory state with
  | nil => rfl
  | cons file rest ih =>
      have step : (working engine groups registry request token (file :: rest)
          memory).advanceActive analyzer ((file :: rest).length + 1) state =
            advanceActive analyzer (rest.length + 1)
              ((working engine groups registry request token (file :: rest) memory).advance
                analyzer state).1
              ((working engine groups registry request token (file :: rest) memory).advance
                analyzer state).2 := rfl
      rw [step, advance_working, Analyzer.work]
      cases (runnerFor analyzer groups token).attempt file rest memory state with
      | mk stop attempt =>
          obtain ⟨learned, after⟩ := attempt
          cases stop with
          | none => exact ih learned after
          | some failure =>
              dsimp only
              exact advanceActive_none analyzer _ (endRun_free _ _ _ _) after

def takeUpOrder (runner : Analyzer σ) (change : Change) (share : Option Partition)
    (memory : Memory) (state : σ) : Except AnalysisError (List SourcePath) × Memory :=
  match share with
  | none => runner.takeUp change memory state
  | some share => runner.takeUpShare share memory state

theorem takeUpOrder_error {runner : Analyzer σ} {change : Change} {share : Option Partition}
    {state : σ} {cause : AnalysisError}
    (refused : (takeUpOrder runner change share memory state).1 = .error cause) :
    (runner.signalled state = true ∧ cause = .cancelled) ∨
      ∃ error, runner.selection.discover (runner.tree state) = .error error ∧
        cause = .ofConfig error := by
  unfold takeUpOrder at refused
  cases signalled : runner.signalled state with
  | true =>
      left
      cases share with
      | none =>
          dsimp only at refused
          rw [Analyzer.takeUp_of_signalled signalled] at refused
          cases refused
          exact ⟨rfl, rfl⟩
      | some share =>
          dsimp only [Analyzer.takeUpShare] at refused
          rw [signalled, if_pos rfl] at refused
          cases refused
          exact ⟨rfl, rfl⟩
  | false =>
      right
      cases share with
      | none =>
          dsimp only at refused
          rcases Analyzer.begins_or_lost runner memory state with begins | ⟨first, error, failed⟩
          · rw [Analyzer.takeUp_of_begins signalled begins] at refused
            cases refused
          · rw [Analyzer.takeUp_of_lost signalled first failed] at refused
            cases refused
            exact ⟨error, failed, rfl⟩
      | some share =>
          dsimp only [Analyzer.takeUpShare] at refused
          rw [signalled, if_neg Bool.false_ne_true] at refused
          cases found : runner.selection.discover (runner.tree state) with
          | ok files =>
              rw [found] at refused
              cases refused
          | error error =>
              rw [found] at refused
              cases refused
              exact ⟨error, rfl, rfl⟩

theorem start_run (token : Token) (change : Change) (share : Option Partition)
    {files : Except AnalysisError (List SourcePath)} {taken : Memory} {state : σ}
    (took : takeUpOrder (runnerFor analyzer groups token) change share memory state =
      (files, taken)) :
    (resting engine memory groups registry).start analyzer request state
        (.run change share token) =
      match files with
      | .error cause =>
          (resting engine taken groups registry).endRun request token (some (.error cause))
      | .ok [] => (resting engine taken groups registry).endRun request token none
      | .ok (file :: rest) =>
          working engine groups registry request token (file :: rest) taken := by
  cases share with
  | none =>
      have took : ((resting engine memory groups registry).analyzerFor analyzer token).takeUp
        change (resting engine memory groups registry).memory state = (files, taken) := took
      simp only [start, took]
      cases files with
      | error cause => rfl
      | ok files => cases files <;> rfl
  | some share =>
      have took : ((resting engine memory groups registry).analyzerFor analyzer token).takeUpShare
        share (resting engine memory groups registry).memory state = (files, taken) := took
      simp only [start, took]
      cases files with
      | error cause => rfl
      | ok files => cases files <;> rfl

theorem finishActive_none (analyzer : Analyzer σ) {service : Service}
    (free : service.active = none) (state : σ) :
    service.finishActive analyzer state = (service, state) := by
  unfold finishActive
  rw [free]

/-- A run that is started and goes on to its end is what the engine makes of it. -/
theorem finishActive_start (unbroken : analyzer.Unbroken) (request : Request) (token : Token)
    (change : Change) (share : Option Partition) (memory : Memory) (state : σ) :
    let runner := runnerFor analyzer groups token
    let ran := runner.finish (takeUpOrder runner change share memory state) state
    ∃ left,
      ((resting engine memory groups registry).start analyzer request state
        (.run change share token)).finishActive analyzer state =
        (answering engine ran.2.1 groups left
          (Response.ofOutcome request.id (runOutcome ran.1)), ran.2.2) := by
  intro runner ran
  have unbrokenRunner : runner.Unbroken := unbroken
  cases took : takeUpOrder runner change share memory state with
  | mk files taken =>
      have outcome : ran = runner.finish (files, taken) state := by rw [← took]
      rw [start_run token change share took, outcome]
      cases files with
      | error cause =>
          obtain ⟨left, ended⟩ := @endRun_resting engine taken groups registry request token
            (some (.error cause)) (fun thrown same => by cases same)
          exact ⟨left, (finishActive_none analyzer (endRun_free _ _ _ _) state).trans
            (congrArg (·, state) ended)⟩
      | ok files =>
          have unbroken : ∀ thrown, (runner.work files taken state).1 ≠ some (.broke thrown) :=
            Analyzer.work_ne_broke unbrokenRunner files taken state
          cases files with
          | nil =>
              obtain ⟨left, ended⟩ := @endRun_resting engine taken groups registry request token
                none (fun thrown same => by cases same)
              exact ⟨left, (finishActive_none analyzer (endRun_free _ _ _ _) state).trans
                (congrArg (·, state) ended)⟩
          | cons file rest =>
              obtain ⟨left, ended⟩ := @endRun_resting engine
                (runner.work (file :: rest) taken state).2.1 groups registry request token
                (runner.work (file :: rest) taken state).1 unbroken
              refine ⟨left, (advanceActive_working token (file :: rest) taken state).trans ?_⟩
              rw [ended]
              rfl

/-! ### What comes in -/

/-- A worker that has looked at a request and has not done anything about it. -/
def due (engine : String) (memory : Memory) (groups : TokenGroups) (registry : List (Nat × Token))
    (request : Request) (begun : Begun) : Service :=
  { resting engine memory groups registry with
    channel := { Channel.ofEndpoint endpoint with turns := [.handler request] }
    begun := [begun] }

theorem round_wants (job : Job) (state : σ) :
    (due engine memory groups registry request (.wants job)).round analyzer state =
      (resting engine memory groups registry).start analyzer request state job := rfl

theorem round_ended (ending : Ending) (state : σ) :
    (due engine memory groups registry request (.ended ending)).round analyzer state =
      (resting engine memory groups registry).answer request ending := rfl

def encoded (messages : List Message) : List UInt8 :=
  messages.flatMap fun message => Utf8.encode message.line

def callMessages (ahead : Option Notification) (request : Request)
    (behind : Option Notification) : List Message :=
  ahead.toList.map .notification ++ .request request :: behind.toList.map .notification

theorem feed_messages {channel : Channel}
    (reading : channel.reading = true) (fresh : channel.partialLine = [])
    {messages : List Message} (sendable : ∀ message ∈ messages, message.Sendable) :
    channel.feed (encoded messages) = channel.dispatchAll (messages.map Message.arrived) := by
  have sound : ∀ entry ∈ messages.map Wire.Entry.ofMessage, entry.IsSound := by
    intro entry member
    obtain ⟨message, held, rfl⟩ := List.mem_map.mp member
    exact Wire.Entry.isSound_ofMessage (sendable message held)
  have readable : Wire.AllText (messages.map Wire.Entry.ofMessage) := by
    intro bytes member
    obtain ⟨message, _, same⟩ := List.mem_map.mp member
    cases same
  have whole : [encoded messages].flatten =
      (messages.map Wire.Entry.ofMessage).flatMap Wire.Entry.bytes := by
    rw [List.flatten_singleton, List.flatMap_map]
    simp only [Wire.Entry.bytes_ofMessage]
    rfl
  rw [← Channel.feedAll_singleton, Channel.feedAll_entries fresh sound whole,
    Channel.takeLines_text reading sound readable]
  congr 1
  clear sendable sound readable whole
  induction messages with
  | nil => rfl
  | cons message rest ih => exact congrArg (message.arrived :: ·) ih

theorem dispatch_request (served : endpoint.served.contains request.topic = true) :
    (Channel.ofEndpoint endpoint).dispatch (.request request) =
      ({ Channel.ofEndpoint endpoint with turns := [.handler request] }, [.accept request]) := by
  have serve : (Channel.ofEndpoint endpoint).endpoint.dispatch (.request request) =
      (endpoint, [.serve request]) := if_pos served
  unfold Channel.dispatch
  rw [serve]
  rfl

theorem dispatch_notice {channel : Channel} {notice : Notification}
    (heard : channel.endpoint.heard.contains notice.topic = true) :
    channel.dispatch (.notification notice) = (channel, [.hear notice]) := by
  have hear : channel.endpoint.dispatch (.notification notice) =
      (channel.endpoint, [.hear notice]) := congrArg (channel.endpoint, ·) (if_pos heard)
  unfold Channel.dispatch
  rw [hear]
  rfl

def asked (engine : String) (memory : Memory) (groups : TokenGroups)
    (registry : List (Nat × Token)) (request : Request) : Service :=
  { resting engine memory groups registry with
    channel := { Channel.ofEndpoint endpoint with turns := [.handler request] } }

def arrivedRequest (request : Request) : Request :=
  { request with payload := request.payload.canonical }

def arrivedNotice (notice : Notification) : Notification :=
  { notice with payload := notice.payload.canonical }

theorem dispatch_notices {channel : Channel} (heed : Option Notification)
    (heard : ∀ notice ∈ heed, channel.endpoint.heard.contains notice.topic = true)
    (rest : List Message) :
    channel.dispatchAll ((heed.toList.map .notification).map Message.arrived ++ rest) =
      ((channel.dispatchAll rest).1,
        heed.toList.map (fun notice => .hear (arrivedNotice notice)) ++
          (channel.dispatchAll rest).2) := by
  cases heed with
  | none => rfl
  | some notice =>
      have listened : channel.dispatch (Message.notification notice).arrived =
          (channel, [.hear (arrivedNotice notice)]) := dispatch_notice (heard notice rfl)
      rw [Option.toList_some, List.map_singleton, List.map_singleton, List.singleton_append,
        Channel.dispatchAll_cons, listened]
      rfl

theorem dispatch_call (served : endpoint.served.contains request.topic = true)
    {ahead behind : Option Notification}
    (first : ∀ notice ∈ ahead, endpoint.heard.contains notice.topic = true)
    (last : ∀ notice ∈ behind, endpoint.heard.contains notice.topic = true) :
    (Channel.ofEndpoint endpoint).dispatchAll
        ((callMessages ahead request behind).map Message.arrived) =
      ({ Channel.ofEndpoint endpoint with turns := [.handler (arrivedRequest request)] },
        ahead.toList.map (fun notice => .hear (arrivedNotice notice)) ++
          .accept (arrivedRequest request) ::
            behind.toList.map fun notice => .hear (arrivedNotice notice)) := by
  have looked : (Channel.ofEndpoint endpoint).dispatch (Message.request request).arrived =
      ({ Channel.ofEndpoint endpoint with turns := [.handler (arrivedRequest request)] },
        [.accept (arrivedRequest request)]) := dispatch_request served
  have closing := @dispatch_notices { Channel.ofEndpoint endpoint with
    turns := [.handler (arrivedRequest request)] } behind last []
  rw [List.append_nil, Channel.dispatchAll, List.append_nil] at closing
  rw [callMessages, List.map_append, List.map_cons, dispatch_notices ahead first,
    Channel.dispatchAll_cons, looked, closing]
  rfl

theorem feed_request (served : endpoint.served.contains request.topic = true)
    (sendable : (Message.request request).Sendable) {ahead behind : Option Notification}
    (first : ∀ notice ∈ ahead, endpoint.heard.contains notice.topic = true ∧
      (Message.notification notice).Sendable)
    (last : ∀ notice ∈ behind, endpoint.heard.contains notice.topic = true ∧
      (Message.notification notice).Sendable) :
    (resting engine memory groups registry).feed (encoded (callMessages ahead request behind)) =
      (behind.toList.map arrivedNotice).foldl hear
        (((ahead.toList.map arrivedNotice).foldl hear
          (asked engine memory groups registry (arrivedRequest request))).accept
            (arrivedRequest request)) := by
  have each {heed : Option Notification} (known : ∀ notice ∈ heed,
      endpoint.heard.contains notice.topic = true ∧ (Message.notification notice).Sendable) :
      ∀ message ∈ heed.toList.map Message.notification, message.Sendable := by
    intro message member
    obtain ⟨notice, held, rfl⟩ := List.mem_map.mp member
    exact (known notice (Option.mem_toList.mp held)).2
  have all : ∀ message ∈ callMessages ahead request behind, message.Sendable :=
    List.forall_mem_append.mpr ⟨each first, List.forall_mem_cons.mpr ⟨sendable, each last⟩⟩
  have fed : (resting engine memory groups registry).channel.feed
      (encoded (callMessages ahead request behind)) = _ :=
    (feed_messages rfl rfl all).trans
      (dispatch_call served (fun notice held => (first notice held).1)
        fun notice held => (last notice held).1)
  unfold feed
  rw [fed]
  cases ahead <;> cases behind <;> rfl

theorem hear_asked (heed : Option Notification) (request : Request) :
    ∃ earlier, (heed.toList.map arrivedNotice).foldl hear
      (asked engine memory groups registry request) =
        asked engine memory earlier registry request := by
  cases heed with
  | none => exact ⟨groups, rfl⟩
  | some notice =>
      rw [Option.toList_some, List.map_singleton, List.foldl_cons, List.foldl_nil]
      unfold hear
      cases CancelOrder.ofDocument? (arrivedNotice notice).payload.document with
      | none => exact ⟨groups, rfl⟩
      | some order =>
          dsimp only
          split <;> exact ⟨_, rfl⟩

def filed (groups : TokenGroups) (registry : List (Nat × Token)) (signal : Signal) :
    List (Nat × Token) :=
  (signal.id, (groups.ofSignal signal).1) ::
    registry.filter (fun entry => entry.1 ≠ signal.id)

theorem accept_run {order : RunOrder} (topic : request.topic = runTopic)
    (read : RunOrder.ofDocument? request.payload.document = some order) :
    (asked engine memory groups registry request).accept request =
      due engine memory (groups.ofSignal order.signal).2 (filed groups registry order.signal)
        request
        (.wants (.run (order.change.getD Change.empty) order.share
          (groups.ofSignal order.signal).1)) := by
  unfold accept
  simp only [if_pos topic, read]
  rfl

theorem hear_cancel {signal : Signal} {begun : Begun} {notice : Notification}
    (read : CancelOrder.ofDocument? notice.payload.document = some ⟨signal.id⟩) :
    (due engine memory (groups.ofSignal signal).2 (filed groups registry signal) request
        begun).hear notice =
      due engine memory ((groups.ofSignal signal).2.request (groups.ofSignal signal).1)
        (filed groups registry signal) request begun := by
  have found : (due engine memory (groups.ofSignal signal).2 (filed groups registry signal)
      request begun).registry.find? (fun entry => entry.1 = signal.id) =
        some (signal.id, (groups.ofSignal signal).1) :=
    List.find?_cons_of_pos (decide_eq_true rfl)
  unfold hear
  rw [read]
  dsimp only
  rw [found]
  rfl

theorem accept_seed {order : SeedOrder} (topic : request.topic = seedTopic)
    (read : SeedOrder.ofDocument? request.payload.document = some order) :
    (asked engine memory groups registry request).accept request =
      due engine memory groups registry request (.wants (.seed order.issues)) := by
  have other : request.topic ≠ runTopic := by rw [topic]; decide
  unfold accept
  simp only [if_neg other, if_pos topic, read]
  rfl

theorem accept_connect (topic : request.topic = connectTopic) :
    (asked engine memory groups registry request).accept request =
      due engine memory groups registry request (.ended (.value (Greeting.mk engine).toJson)) := by
  have notRun : request.topic ≠ runTopic := by rw [topic]; decide
  have notSeed : request.topic ≠ seedTopic := by rw [topic]; decide
  unfold accept
  simp only [if_neg notRun, if_neg notSeed, if_pos topic]
  rfl

/-- A worker at rest does to a message what there is to do about it, answers and rests again. -/
def Serves (analyzer : Analyzer σ) (service : Service) (ahead : Option Notification)
    (request : Request) (behind : Option Notification) (state : σ) (outcome : Except Fault Json)
    (memory : Memory) (after : σ) : Prop :=
  ∃ groups registry,
    (service.feed (encoded (callMessages ahead request behind))).idle analyzer state =
      ({ resting service.engine memory groups registry with
          output := [.response (Response.ofOutcome request.id outcome)] }, after)

theorem serves_connect (topic : request.topic = connectTopic)
    (sendable : (Message.request request).Sendable) (state : σ) :
    Serves analyzer (resting engine memory groups registry) none request none state
      (.ok (Greeting.mk engine).toJson) memory state := by
  have known : endpoint.served.contains request.topic = true := by rw [topic]; decide
  have arrived : (arrivedRequest request).topic = connectTopic := topic
  refine ⟨groups, registry, ?_⟩
  rw [feed_request known sendable (fun notice held => by cases held) (fun notice held => by cases held),
    Option.toList_none, List.map_nil, List.foldl_nil, List.foldl_nil, accept_connect arrived]
  apply idle_answering
  rw [round_ended, answer_resting]
  rfl

theorem serves_seed {order : SeedOrder} (topic : request.topic = seedTopic)
    (travels : Travels SeedOrder.ofDocument? request.payload order)
    (sendable : (Message.request request).Sendable) (state : σ) :
    Serves analyzer (resting engine memory groups registry) none request none state (.ok .null)
      (memory.seed order.issues) state := by
  have known : endpoint.served.contains request.topic = true := by rw [topic]; decide
  have arrived : (arrivedRequest request).topic = seedTopic := topic
  have read : SeedOrder.ofDocument? (arrivedRequest request).payload.document = some order :=
    travels.read Json.keeps_canonical
  refine ⟨groups, registry, ?_⟩
  rw [feed_request known sendable (fun notice held => by cases held) (fun notice held => by cases held),
    Option.toList_none, List.map_nil, List.foldl_nil, List.foldl_nil, accept_seed arrived read]
  apply idle_answering
  rw [round_wants]
  rfl

def cancellation (signal : Signal) : Option Notification :=
  if signal.cancelled then some ⟨cancelTopic, (CancelOrder.mk signal.id).toJson⟩ else none

def cancelAhead (early : Bool) (signal : Signal) : Option Notification :=
  if early then cancellation signal else none

def cancelBehind (early : Bool) (signal : Signal) : Option Notification :=
  if early then none else cancellation signal

theorem sendable_cancel {order : CancelOrder} (token : order.token < UInt64.size) :
    (Message.notification ⟨cancelTopic, order.toJson⟩).Sendable where
  whole := ⟨trivial, (CancelOrder.travels token).whole, trivial⟩
  shallow := Nat.le_of_ble_eq_true rfl

theorem heard_cancellation {signal : Signal} (id : signal.id < UInt64.size) :
    ∀ notice ∈ cancellation signal, endpoint.heard.contains notice.topic = true ∧
      (Message.notification notice).Sendable := by
  have known : endpoint.heard.contains cancelTopic = true := by decide
  intro notice held
  unfold cancellation at held
  split at held
  · cases held
    exact ⟨known, sendable_cancel id⟩
  · cases held

theorem feed_run {order : RunOrder} (topic : request.topic = runTopic)
    (travels : Travels RunOrder.ofDocument? request.payload order)
    (sendable : (Message.request request).Sendable) (id : order.signal.id < UInt64.size)
    (early : Bool) :
    ∃ earlier later,
      (resting engine memory groups registry).feed
          (encoded (callMessages (cancelAhead early order.signal) request
            (cancelBehind early order.signal))) =
        due engine memory later (filed earlier registry order.signal) (arrivedRequest request)
          (.wants (.run (order.change.getD Change.empty) order.share
            (earlier.ofSignal order.signal).1)) ∧
      later.isRequested (earlier.ofSignal order.signal).1 = order.signal.cancelled := by
  have known : endpoint.served.contains request.topic = true := by rw [topic]; decide
  have arrived : (arrivedRequest request).topic = runTopic := topic
  have read : RunOrder.ofDocument? (arrivedRequest request).payload.document = some order :=
    travels.read Json.keeps_canonical
  have heard := heard_cancellation id
  cases early with
  | true =>
      obtain ⟨earlier, ahead⟩ := @hear_asked engine memory groups registry
        (cancellation order.signal) (arrivedRequest request)
      refine ⟨earlier, _, ?_, earlier.isRequested_ofSignal order.signal⟩
      rw [cancelAhead, cancelBehind, if_pos rfl, if_pos rfl,
        feed_request known sendable heard (fun notice held => by cases held), ahead]
      exact accept_run arrived read
  | false =>
      have fed : (resting engine memory groups registry).feed
          (encoded (callMessages none request (cancellation order.signal))) = _ :=
        feed_request known sendable (fun notice held => by cases held) heard
      refine ⟨groups, ?_⟩
      rw [cancelAhead, cancelBehind, if_neg Bool.false_ne_true, if_neg Bool.false_ne_true, fed,
        Option.toList_none, List.map_nil, List.foldl_nil, accept_run arrived read]
      unfold cancellation
      cases cancelled : order.signal.cancelled with
      | false => exact ⟨_, rfl, (groups.isRequested_ofSignal order.signal).trans cancelled⟩
      | true =>
          refine ⟨_, hear_cancel ((CancelOrder.travels id).read Json.keeps_canonical), ?_⟩
          rw [TokenGroups.isRequested_request (groups.ofSignal_known order.signal),
            decide_eq_true rfl, Bool.or_true]

/-- A run is answered with what the engine finds under the signal that came with it. -/
theorem serves_run (unbroken : analyzer.Unbroken) {order : RunOrder}
    (topic : request.topic = runTopic)
    (travels : Travels RunOrder.ofDocument? request.payload order)
    (sendable : (Message.request request).Sendable) (id : order.signal.id < UInt64.size)
    (early : Bool) (state : σ) :
    let runner : Analyzer σ :=
      { analyzer with
        signalled := fun state => analyzer.signalled state || order.signal.cancelled }
    let ran := runner.finish
      (takeUpOrder runner (order.change.getD Change.empty) order.share memory state) state
    Serves analyzer (resting engine memory groups registry) (cancelAhead early order.signal)
      request (cancelBehind early order.signal) state (runOutcome ran.1) ran.2.1 ran.2.2 := by
  intro runner ran
  obtain ⟨earlier, later, fed, requested⟩ :=
    @feed_run engine memory groups registry request order topic travels sendable id early
  have same : runnerFor analyzer later (earlier.ofSignal order.signal).1 = runner := by
    unfold runnerFor
    rw [requested]
  obtain ⟨left, finished⟩ := @finishActive_start σ analyzer engine later
    (filed earlier registry order.signal) unbroken (arrivedRequest request)
    (earlier.ofSignal order.signal).1 (order.change.getD Change.empty) order.share memory state
  rw [same] at finished
  refine ⟨later, left, ?_⟩
  rw [fed]
  apply idle_answering
  rw [round_wants]
  exact finished

end Service

end Reanalysis
