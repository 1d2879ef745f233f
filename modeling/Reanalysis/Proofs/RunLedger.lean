/-
A worker and the runs that it is asked for. Messages, turns and work may come in any order. A
ledger beside the worker says of each run what was asked, whether a cancellation came before
it was answered, and how it ended; a token is the place of its run in the ledger.

A unit of work goes on with the same runs, or one run is over and gets its answer.
-/

import Reanalysis.Proofs.ServiceCalls

namespace Reanalysis

namespace Service

variable {σ : Type}

/-- What a unit of work comes to. A run that is over has not been answered yet. -/
inductive Pace where
  | on (next : Service)
  | finished (last : Service) (request : Request) (token : Token) (stop : Option Failure)

def Pace.service : Pace → Service
  | .on next => next
  | .finished last request token stop => last.endRun request token stop

def startPace (analyzer : Analyzer σ) (service : Service) (request : Request) (state : σ) :
    Job → Pace
  | .seed issues =>
      .on ({ service with memory := service.memory.seed issues }.answer request (.value .null))
  | .run change share token =>
      let (files, memory) := takeUpOrder (runnerFor analyzer service.groups token) change share
        service.memory state
      let begun := { service with memory := memory }
      match files with
      | .error cause => .finished begun request token (some (.error cause))
      | .ok [] => .finished begun request token none
      | .ok files => .on { begun with active := some ⟨request, token, files⟩ }

def turnPace (analyzer : Analyzer σ) (service : Service) (request : Request) (state : σ) : Pace :=
  match service.begun with
  | [] => .on service
  | .ended ending :: rest => .on ({ service with begun := rest }.answer request ending)
  | .wants job :: rest =>
      let next := { service with begun := rest }
      if next.active.isNone && next.waiting.isEmpty then next.startPace analyzer request state job
      else .on { next with waiting := next.waiting ++ [(request, job)] }

def advancePace (analyzer : Analyzer σ) (service : Service) (state : σ) : Pace :=
  match service.active with
  | some ⟨request, token, file :: rest⟩ =>
      match (runnerFor analyzer service.groups token).attempt file rest service.memory state with
      | (none, memory, _) =>
          .on { service with memory := memory, active := some ⟨request, token, rest⟩ }
      | (some failure, memory, _) =>
          .finished { service with memory := memory } request token (some failure)
  | some ⟨request, token, []⟩ => .finished service request token none
  | none =>
      match service.waiting with
      | [] => .on service
      | (request, job) :: rest => { service with waiting := rest }.startPace analyzer request state job

variable (analyzer : Analyzer σ) (service : Service) (request : Request) (state : σ)

theorem start_eq (job : Job) :
    service.start analyzer request state job =
      (service.startPace analyzer request state job).service := by
  cases job with
  | seed issues => rfl
  | run change share token =>
      cases took : takeUpOrder (runnerFor analyzer service.groups token) change share
        service.memory state with
      | mk files memory =>
          cases share with
          | none =>
              have shown : (service.analyzerFor analyzer token).takeUp change service.memory
                state = (files, memory) := took
              simp only [start, startPace, shown, took]
              cases files with
              | error cause => rfl
              | ok files => cases files <;> rfl
          | some share =>
              have shown : (service.analyzerFor analyzer token).takeUpShare share service.memory
                state = (files, memory) := took
              simp only [start, startPace, shown, took]
              cases files with
              | error cause => rfl
              | ok files => cases files <;> rfl

theorem handlerTurn_eq :
    service.handlerTurn analyzer request state =
      (service.turnPace analyzer request state).service := by
  unfold handlerTurn turnPace
  cases service.begun with
  | nil => rfl
  | cons begun rest =>
      cases begun with
      | ended ending => rfl
      | wants job =>
          dsimp only
          split
          · exact start_eq analyzer _ request state job
          · rfl

theorem advance_eq :
    (service.advance analyzer state).1 = (service.advancePace analyzer state).service := by
  unfold advance advancePace
  cases service.active with
  | none =>
      cases service.waiting with
      | nil => rfl
      | cons entry rest => exact start_eq analyzer _ entry.1 state entry.2
  | some run =>
      obtain ⟨request, token, files⟩ := run
      cases files with
      | nil => rfl
      | cons file rest =>
          cases tried : (runnerFor analyzer service.groups token).attempt file rest
            service.memory state with
          | mk stop attempt =>
              have shown : (service.analyzerFor analyzer token).attempt file rest
                service.memory state = (stop, attempt) := tried
              simp only [shown, tried]
              cases stop <;> rfl

/-- An answer goes to the channel and changes nothing else. -/
theorem answer_eq (ending : Ending) :
    service.answer request ending =
      { service with channel := (service.channel.answer request ending).1 } := by
  have silent : (service.channel.answer request ending).2 = [] := by
    unfold Channel.answer Endpoint.answer Endpoint.emit
    cases service.channel.endpoint.taken with
    | false => rfl
    | true =>
        rw [if_pos rfl, Channel.perform_cons]
        unfold Channel.carry
        dsimp only
        split <;> rfl
  unfold answer act
  rw [silent]
  rfl

theorem answer_endpoint (channel : Channel) (ending : Ending) :
    (channel.answer request ending).1.endpoint = channel.endpoint :=
  (Channel.perform_open channel _).1

/-- How a run ends that stopped for a reason, or came to its end. -/
def endingOf (stop : Option Failure) (memory : Memory) : Ending :=
  match stop with
  | none => .value (Issue.listToJson memory.issues)
  | some (.error cause) => .refused cause.toFault
  | some (.broke thrown) => .broke thrown

/-- What is left in the registry of a run that ends so: a run that breaks off stays. -/
def registryAfter (token : Token) (stop : Option Failure) : List (Nat × Token) :=
  match stop with
  | some (.broke _) => service.registry
  | _ => service.registry.filter (fun entry => entry.1 ≠ (service.groups.signal token).id)

theorem endRun_eq (token : Token) (stop : Option Failure) :
    service.endRun request token stop =
      { service with
        memory := (Analyzer.conclude stop service.memory).2
        active := none
        registry := service.registryAfter token stop
        channel := (service.channel.answer request (endingOf stop service.memory)).1 } := by
  unfold endRun
  cases stop with
  | none => exact answer_eq _ _ _
  | some failure =>
      cases failure with
      | error cause => exact answer_eq _ _ _
      | broke thrown => exact answer_eq _ _ _

/-- The engine itself gives up as cancelled, at the file that a run has come to. -/
def GivesUp (analyzer : Analyzer σ) (active : Option ActiveRun) (state : σ) (token : Token) :
    Prop :=
  ∃ request file rest bytes, active = some ⟨request, token, file :: rest⟩ ∧
    analyzer.read (analyzer.selection.root.join file) state = .ok bytes ∧
    (analyzer.examine file (Utf8.lenient bytes) state).1 = .error (.error .cancelled)

/-- Why a run under a token may stop, where `active` is the run that goes on. -/
structure Excused (analyzer : Analyzer σ) (groups : TokenGroups) (active : Option ActiveRun)
    (state : σ) (token : Token) (stop : Option Failure) : Prop where
  cancelled : stop = some (.error .cancelled) → analyzer.signalled state = false →
    groups.isRequested token = true ∨ GivesUp analyzer active state token
  broke : ∀ thrown, stop = some (.broke thrown) → ¬ analyzer.Unbroken

variable {analyzer service request state}

variable {groups : TokenGroups} {active : Option ActiveRun} {token : Token}

theorem excused_none : Excused analyzer groups active state token none :=
  ⟨fun same _ => (by cases same), fun _ same => by cases same⟩

theorem isRequested_of_signalled
    (signalled : (runnerFor analyzer groups token).signalled state = true)
    (alone : analyzer.signalled state = false) : groups.isRequested token = true := by
  unfold runnerFor at signalled
  dsimp only at signalled
  rwa [alone, Bool.false_or] at signalled

theorem excused_takeUp {change : Change} {share : Option Partition} {memory left : Memory}
    {cause : AnalysisError}
    (took : takeUpOrder (runnerFor analyzer groups token) change share memory state =
      (.error cause, left)) :
    Excused analyzer groups active state token (some (.error cause)) := by
  refine ⟨fun same alone => ?_, fun _ same => by cases same⟩
  cases same
  rcases takeUpOrder_error (congrArg Prod.fst took) with ⟨signalled, _same⟩ | ⟨error, _failed, same⟩
  · exact Or.inl (isRequested_of_signalled signalled alone)
  · cases same

theorem visit_failed {runner : Analyzer σ} {file : SourcePath} {failure : Failure}
    (visited : (runner.visit file state).1 = .error failure) :
    (∃ message, failure = .error (.engine runner.name message)) ∨
      ∃ bytes, runner.read (runner.selection.root.join file) state = .ok bytes ∧
        (runner.examine file (Utf8.lenient bytes) state).1 = .error failure := by
  unfold Analyzer.visit at visited
  dsimp only at visited
  split at visited
  · cases visited
  · cases visited
    exact Or.inl ⟨_, rfl⟩
  · rename_i bytes read
    right
    refine ⟨bytes, read, ?_⟩
    cases found : (runner.examine file (Utf8.lenient bytes) state).1 with
    | ok issues => rw [found] at visited; cases visited
    | error stopped => rw [found] at visited; cases visited; rfl

theorem excused_attempt {file : SourcePath} {rest : List SourcePath} {memory left : Memory}
    {after : σ} {failure : Failure} (busy : active = some ⟨request, token, file :: rest⟩)
    (tried : (runnerFor analyzer groups token).attempt file rest memory state =
      (some failure, left, after)) :
    Excused analyzer groups active state token (some failure) := by
  unfold Analyzer.attempt at tried
  cases signalled : (runnerFor analyzer groups token).signalled state with
  | true =>
      rw [signalled] at tried
      cases tried
      exact ⟨fun _ alone => Or.inl (isRequested_of_signalled signalled alone),
        fun _ same => by cases same⟩
  | false =>
      rw [signalled, if_neg Bool.false_ne_true] at tried
      cases visited : (runnerFor analyzer groups token).visit file state with
      | mk result next =>
          rw [visited] at tried
          cases result with
          | ok found => cases found <;> cases tried
          | error stopped =>
              have same : failure = stopped := by cases stopped <;> cases tried <;> rfl
              subst same
              rcases visit_failed (congrArg Prod.fst visited) with
                ⟨message, rfl⟩ | ⟨bytes, read, found⟩
              · exact ⟨fun same => (by cases same), fun _ same => by cases same⟩
              · constructor
                · intro same _alone
                  cases same
                  exact Or.inr ⟨request, file, rest, bytes, busy, read, found⟩
                · intro thrown same unbroken
                  cases same
                  exact unbroken file _ state thrown found

/-! ### The runs that a worker holds -/

def runOf? (request : Request) : Job → Option (Request × Token)
  | .run _ _ token => some (request, token)
  | .seed _ => none

def begunRun? (request : Request) : Begun → Option (Request × Token)
  | .wants job => runOf? request job
  | .ended _ => none

def queued (waiting : List (Request × Job)) : List (Request × Token) :=
  waiting.filterMap fun entry => runOf? entry.1 entry.2

def beginning (due : List Request) (begun : List Begun) : List (Request × Token) :=
  (due.zip begun).filterMap fun entry => begunRun? entry.1 entry.2

/-- The runs that are active, that wait, and whose handlers have not had their turn yet; `due`
are the requests of the handlers. -/
def held (service : Service) (due : List Request) : List (Request × Token) :=
  service.active.toList.map (fun run => (run.request, run.token)) ++
    (queued service.waiting ++ beginning due service.begun)

structure Alike (service next : Service) : Prop where
  groups : next.groups = service.groups
  registry : next.registry = service.registry
  channel : next.channel = service.channel

/-- All that a unit of work can do: go on, answer a request that is not for a run, or come to
the end of a run. -/
inductive Paced (analyzer : Analyzer σ) (service : Service) (active : Option ActiveRun)
    (state : σ) (due later : List Request) : Pace → Prop
  | on (next : Service) (alike : service.Alike next)
      (handlers : later.length = next.begun.length)
      (kept : (next.held later).Perm (service.held due)) :
      Paced analyzer service active state due later (.on next)
  | answered (next : Service) (request : Request) (ending : Ending) (alike : service.Alike next)
      (handlers : later.length = next.begun.length)
      (kept : (next.held later).Perm (service.held due)) :
      Paced analyzer service active state due later (.on (next.answer request ending))
  | finished (last : Service) (request : Request) (token : Token) (stop : Option Failure)
      (alike : service.Alike last) (handlers : later.length = last.begun.length)
      (kept : ((request, token) :: (last.endRun request token stop).held later).Perm
        (service.held due))
      (excused : Excused analyzer service.groups active state token stop) :
      Paced analyzer service active state due later (.finished last request token stop)

theorem Alike.trans {middle last : Service} (first : service.Alike middle)
    (second : middle.Alike last) : service.Alike last :=
  ⟨second.groups.trans first.groups, second.registry.trans first.registry,
    second.channel.trans first.channel⟩

theorem Paced.reordered {origin : Service} {before due later : List Request} {pace : Pace}
    (paced : Paced analyzer service active state due later pace) (alike : origin.Alike service)
    (kept : (service.held due).Perm (origin.held before)) :
    Paced analyzer origin active state before later pace := by
  cases paced with
  | on next other handlers same =>
      exact .on next (alike.trans other) handlers (same.trans kept)
  | answered next request ending other handlers same =>
      exact .answered next request ending (alike.trans other) handlers (same.trans kept)
  | finished last request token stop other handlers same excused =>
      rw [alike.groups] at excused
      exact .finished last request token stop (alike.trans other) handlers (same.trans kept) excused

theorem held_of_free (free : service.active = none) (due : List Request) :
    service.held due = queued service.waiting ++ beginning due service.begun := by
  unfold held
  rw [free]
  rfl

theorem held_endRun (token : Token) (stop : Option Failure) (due : List Request) :
    (service.endRun request token stop).held due =
      queued service.waiting ++ beginning due service.begun := by
  rw [endRun_eq]
  rfl

variable {origin : Service} {due later : List Request}

theorem paced_start (alike : origin.Alike service) (free : service.active = none)
    (handlers : later.length = service.begun.length) (job : Job)
    (kept : ((runOf? request job).toList ++
      (queued service.waiting ++ beginning later service.begun)).Perm (origin.held due)) :
    Paced analyzer origin active state due later (service.startPace analyzer request state job) := by
  have carried (memory : Memory) : origin.Alike { service with memory := memory } :=
    ⟨alike.groups, alike.registry, alike.channel⟩
  cases job with
  | seed issues =>
      refine .answered _ _ _ (carried _) handlers ?_
      rw [held_of_free]
      · exact kept
      · exact free
  | run change share token =>
      cases took : takeUpOrder (runnerFor analyzer service.groups token) change share
        service.memory state with
      | mk files memory =>
          simp only [startPace, took]
          cases files with
          | error cause =>
              refine .finished _ _ _ _ (carried _) handlers ?_ ?_
              · rw [held_endRun]
                exact kept
              · rw [← alike.groups]
                exact excused_takeUp took
          | ok files =>
              cases files with
              | nil =>
                  refine .finished _ _ _ _ (carried _) handlers ?_ excused_none
                  rw [held_endRun]
                  exact kept
              | cons file rest =>
                  refine .on _ ⟨alike.groups, alike.registry, alike.channel⟩ handlers ?_
                  exact kept

theorem paced_turn {begun : Begun} {rest : List Begun} (next : service.begun = begun :: rest)
    (handlers : due.length = rest.length) :
    Paced analyzer service none state (request :: due) due
      (service.turnPace analyzer request state) := by
  have split : service.held (request :: due) = service.active.toList.map
      (fun run => (run.request, run.token)) ++ (queued service.waiting ++
        ((begunRun? request begun).toList ++ beginning due rest)) := by
    unfold held beginning
    rw [next, List.zip_cons_cons, List.filterMap_cons]
    cases begunRun? request begun <;> rfl
  unfold turnPace
  rw [next]
  cases begun with
  | ended ending =>
      refine .answered _ _ _ ⟨rfl, rfl, rfl⟩ handlers ?_
      rw [split]
      exact List.Perm.refl _
  | wants job =>
      dsimp only
      split
      · rename_i idle
        rw [Bool.and_eq_true, Option.isNone_iff_eq_none, List.isEmpty_iff] at idle
        have started := @paced_start σ analyzer { service with begun := rest } request state
          none service (request :: due) due ⟨rfl, rfl, rfl⟩ idle.1 handlers job
        apply started
        dsimp only
        rw [split, idle.1, idle.2]
        exact List.Perm.refl _
      · refine .on _ ⟨rfl, rfl, rfl⟩ handlers ?_
        rw [split]
        unfold held queued
        dsimp only
        rw [List.filterMap_append, List.append_assoc]
        exact List.Perm.refl _

theorem paced_advance (handlers : due.length = service.begun.length) :
    Paced analyzer service service.active state due due (service.advancePace analyzer state) := by
  cases busy : service.active with
  | none =>
      cases waits : service.waiting with
      | nil =>
          have same : service.advancePace analyzer state = .on service := by
            unfold advancePace
            rw [busy, waits]
          rw [same]
          exact .on _ ⟨rfl, rfl, rfl⟩ handlers (List.Perm.refl _)
      | cons entry rest =>
          obtain ⟨request, job⟩ := entry
          have same : service.advancePace analyzer state =
              { service with waiting := rest }.startPace analyzer request state job := by
            unfold advancePace
            rw [busy, waits]
          have started := @paced_start σ analyzer { service with waiting := rest } request state
            none service due due ⟨rfl, rfl, rfl⟩ busy handlers job
          rw [same]
          apply started
          dsimp only
          rw [held_of_free busy, waits]
          unfold queued
          rw [List.filterMap_cons]
          cases runOf? request job <;> exact List.Perm.refl _
  | some run =>
      obtain ⟨request, token, files⟩ := run
      have split : service.held due = (request, token) ::
          (queued service.waiting ++ beginning due service.begun) := by
        unfold held
        rw [busy]
        rfl
      unfold advancePace
      rw [busy]
      cases files with
      | nil =>
          refine .finished _ _ _ _ ⟨rfl, rfl, rfl⟩ handlers ?_ excused_none
          rw [held_endRun, split]
      | cons file rest =>
          cases tried : (runnerFor analyzer service.groups token).attempt file rest
            service.memory state with
          | mk stop attempt =>
              obtain ⟨memory, after⟩ := attempt
              simp only [tried]
              cases stop with
              | none =>
                  refine .on _ ⟨rfl, rfl, rfl⟩ handlers ?_
                  rw [split]
                  exact List.Perm.refl _
              | some failure =>
                  refine .finished _ _ _ _ ⟨rfl, rfl, rfl⟩ handlers ?_ (excused_attempt rfl tried)
                  rw [held_endRun, split]

/-- A worker whose handlers have their turns in another order. -/
def bringForward (service : Service) (index : Nat) : Service :=
  { service with begun := service.begun[index]?.toList ++ service.begun.eraseIdx index }

theorem zip_eraseIdx {α β : Type} (items : List α) (others : List β) (index : Nat) :
    (items.eraseIdx index).zip (others.eraseIdx index) = (items.zip others).eraseIdx index := by
  induction items generalizing others index with
  | nil => simp
  | cons item rest ih =>
      cases others with
      | nil => simp
      | cons other more =>
          cases index with
          | zero => rfl
          | succ index => exact congrArg (List.cons (item, other)) (ih more index)

theorem paced_handler (handlers : due.length = service.begun.length) {index : Nat}
    (turn : due[index]? = some request) (state : σ) :
    Paced analyzer service none state due (due.eraseIdx index)
      ((service.bringForward index).turnPace analyzer request state) := by
  obtain ⟨short, _⟩ := List.getElem?_eq_some_iff.mp turn
  obtain ⟨begun, found⟩ : ∃ begun, service.begun[index]? = some begun :=
    ⟨_, List.getElem?_eq_getElem (handlers ▸ short)⟩
  have front : (service.bringForward index).begun = begun :: service.begun.eraseIdx index := by
    unfold bringForward
    rw [found]
    rfl
  have fewer : (due.eraseIdx index).length = (service.begun.eraseIdx index).length := by
    rw [List.length_eraseIdx, List.length_eraseIdx, handlers]
  refine (paced_turn front fewer).reordered ⟨rfl, rfl, rfl⟩ ?_
  unfold held beginning
  rw [front, List.zip_cons_cons, zip_eraseIdx]
  refine List.Perm.append_left _ (List.Perm.append_left _ (List.Perm.filterMap _ ?_))
  have place : (due.zip service.begun)[index]? = some (request, begun) := by
    rw [List.getElem?_zip_eq_some]
    exact ⟨turn, found⟩
  obtain ⟨inside, same⟩ := List.getElem?_eq_some_iff.mp place
  rw [← same]
  exact List.getElem_cons_eraseIdx_perm inside

end Service

/-! ### The ledger -/

/-- Whether a notification is a cancellation of what has the number. -/
def Notification.cancels (notice : Notification) (id : Nat) : Bool :=
  (CancelOrder.ofDocument? notice.payload.document).any fun order => order.token = id

/-- A run as it was asked for, and what has become of it. -/
structure AskedRun where
  request : Request
  /-- The signal as it was sent. -/
  signal : Signal
  /-- Whether a cancellation with the number of the run came before the answer. -/
  cancelled : Bool
  /-- What the run was answered with, once it was. -/
  ending : Option Ending

namespace AskedRun

def ofRequest? (request : Request) : Option AskedRun :=
  if request.topic = Service.runTopic then
    (RunOrder.ofDocument? request.payload.document).map fun order =>
      ⟨request, order.signal, false, none⟩
  else none

def hear (notice : Notification) (run : AskedRun) : AskedRun :=
  { run with
    cancelled := run.cancelled || (run.ending.isNone && notice.cancels run.signal.id) }

def settle (ending : Ending) (run : AskedRun) : AskedRun := { run with ending := some ending }

def Intact (run : AskedRun) : Prop := ∀ thrown, run.ending ≠ some (.broke thrown)

/-- Whether the token of a run stays registered: it is not answered, or broke off. -/
def Stays (run : AskedRun) : Prop :=
  run.ending = none ∨ ∃ thrown, run.ending = some (.broke thrown)

end AskedRun

/-- A worker with the requests of the handlers that have not had their turn, and all runs that
it was ever asked for, in the order of their requests. -/
structure Ledger where
  service : Service
  due : List Request
  runs : List AskedRun

/-- What can happen to a worker. Whatever the files and the engine are like, they are like that
when the worker gets to look at them. -/
inductive Incident (σ : Type) where
  | message (message : Message)
  | bytes (bytes : List UInt8)
  | endInput
  | writer
  /-- A handler has its turn, not necessarily the one that has been due for longest. -/
  | handler (index : Nat) (state : σ)
  | work (state : σ)

namespace Ledger

open Service (Pace endingOf)

def new (engine : String) : Ledger := ⟨Service.new engine, [], []⟩

def heed (ledger : Ledger) : ChannelEffect → Ledger
  | .accept request =>
      { service := ledger.service.accept request
        due := ledger.due ++ [request]
        runs := ledger.runs ++ (AskedRun.ofRequest? request).toList }
  | .hear notice =>
      { ledger with
        service := ledger.service.hear notice
        runs := ledger.runs.map (AskedRun.hear notice) }
  | .write message => { ledger with service := ledger.service.carryOut [.write message] }
  | .settle _ _ => ledger
  | .endStream => ledger

def act (ledger : Ledger) (step : Channel × List ChannelEffect) : Ledger :=
  step.2.foldl heed { ledger with service := { ledger.service with channel := step.1 } }

/-- A unit of work is done, after which the handlers of these requests are still due. -/
def settle (ledger : Ledger) (due : List Request) (pace : Pace) : Ledger :=
  { service := pace.service
    due := due
    runs :=
      match pace with
      | .on _ => ledger.runs
      | .finished last _ token stop =>
          ledger.runs.modify token.group (AskedRun.settle (endingOf stop last.memory)) }

variable {σ : Type} (analyzer : Analyzer σ)

def step (ledger : Ledger) : Incident σ → Ledger
  | .message message => ledger.act (ledger.service.channel.dispatch message)
  | .bytes bytes => ledger.act (ledger.service.channel.feed bytes)
  | .endInput => ledger.act ledger.service.channel.endInput
  | .writer => ledger.act ledger.service.channel.write
  | .handler index state =>
      match ledger.due[index]? with
      | none => ledger
      | some request =>
          ledger.settle (ledger.due.eraseIdx index)
            ((ledger.service.bringForward index).turnPace analyzer request state)
  | .work state => ledger.settle ledger.due (ledger.service.advancePace analyzer state)

def follow (ledger : Ledger) (incidents : List (Incident σ)) : Ledger :=
  incidents.foldl (step analyzer) ledger

theorem service_foldl_heed (ledger : Ledger) (effects : List ChannelEffect) :
    (effects.foldl heed ledger).service = ledger.service.carryOut effects := by
  induction effects generalizing ledger with
  | nil => rfl
  | cons effect rest ih =>
      rw [List.foldl_cons, ih]
      cases effect <;> rfl

theorem service_act (ledger : Ledger) (step : Channel × List ChannelEffect) :
    (ledger.act step).service = ledger.service.act step :=
  service_foldl_heed _ _

/-- The ledger goes along with what the worker does. -/
theorem service_step (ledger : Ledger) (incident : Incident σ) :
    (ledger.step analyzer incident).service =
      match incident with
      | .message message => ledger.service.dispatch message
      | .bytes bytes => ledger.service.feed bytes
      | .endInput => ledger.service.endInput
      | .writer => ledger.service.act ledger.service.channel.write
      | .handler index state =>
          match ledger.due[index]? with
          | none => ledger.service
          | some request => (ledger.service.bringForward index).handlerTurn analyzer request state
      | .work state => (ledger.service.advance analyzer state).1 := by
  cases incident with
  | message message => exact service_act _ _
  | bytes bytes => exact service_act _ _
  | endInput => exact service_act _ _
  | writer => exact service_act _ _
  | handler index state =>
      unfold step
      dsimp only
      cases ledger.due[index]? with
      | none => rfl
      | some request => exact (Service.handlerTurn_eq analyzer _ request state).symm
  | work state => exact (Service.advance_eq analyzer _ state).symm

end Ledger

end Reanalysis
