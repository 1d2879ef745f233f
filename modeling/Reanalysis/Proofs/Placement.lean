/-
Where an engine runs makes no difference. A worker in this process and one behind a channel
that are given the same work over the same files give the same replies, one by one: both keep
the same memory, and what is said about it is the same when it has been sent.
-/

import Reanalysis.Proofs.RemoteCalls
import Reanalysis.Site

namespace Reanalysis

namespace AnalysisError

/-- The engine of this name was cancelled, or failed, or may not list one of the directories that
it is to search. -/
def IsOf (name : String) : AnalysisError → Prop
  | .cancelled => True
  | .engine other _ => other = name
  | .configuration message =>
      ∃ directory, message = (ConfigError.unreadable directory .permissionDenied).describe
  | _ => False

theorem IsOf.plain {kind : EngineKind} {cause : AnalysisError} (own : cause.IsOf kind.name) :
    cause.Plain := by
  cases cause with
  | cancelled | configuration => trivial
  | engine name message =>
      cases own
      change ':' ∉ kind.name.toList
      cases kind <;> decide
  | transportClosed | protocol => cases own

end AnalysisError

namespace Analyzer

variable {σ : Type}

/-- A built-in engine in surroundings that hold the files and a token. -/
def builtIn (kind : EngineKind) (table : EngineTable) (selection : Selection)
    (tree : σ → FileTree) (signalled : σ → Bool) : Analyzer σ :=
  { name := kind.name
    selection := selection
    tree := tree
    read := fun path state => (tree state).read path
    signalled := signalled
    examine := fun file text state => (.ok (table.examine kind file text), state) }

variable {kind : EngineKind} {table : EngineTable} {selection : Selection}
  {tree : σ → FileTree} {signalled : σ → Bool}

theorem unbroken_builtIn : (builtIn kind table selection tree signalled).Unbroken :=
  fun _ _ _ _ broke => by cases broke

def seen {α β : Type} (ran : α × β × FileTree) (state : σ) : α × β × σ := (ran.1, ran.2.1, state)

theorem attempt_builtIn (file : SourcePath) (rest : List SourcePath) (memory : Memory)
    (state : σ) :
    (builtIn kind table selection tree signalled).attempt file rest memory state =
      seen ((builtIn kind table selection id fun _ => signalled state).attempt file rest
        memory (tree state)) state := by
  unfold attempt visit builtIn
  dsimp only [id]
  by_cases cancelled : signalled state = true
  · simp only [if_pos cancelled]
    rfl
  · simp only [if_neg cancelled]
    cases (tree state).read (selection.root.join file) with
    | ok bytes => rfl
    | error fault => cases fault <;> rfl

theorem attempt_state (file : SourcePath) (rest : List SourcePath) (memory : Memory)
    (files : FileTree) (cancelled : Bool) :
    ((builtIn kind table selection id fun _ => cancelled).attempt file rest memory files).2.2 =
      files := by
  rw [attempt_builtIn]
  rfl

theorem work_builtIn (files : List SourcePath) (memory : Memory) (state : σ) :
    (builtIn kind table selection tree signalled).work files memory state =
      seen ((builtIn kind table selection id fun _ => signalled state).work files memory
        (tree state)) state := by
  induction files generalizing memory with
  | nil => rfl
  | cons file rest ih =>
      have kept := @attempt_state kind table selection file rest memory (tree state)
        (signalled state)
      rw [work, work, attempt_builtIn]
      cases tried : (builtIn kind table selection id fun _ => signalled state).attempt file rest
        memory (tree state) with
      | mk stop attempt =>
          obtain ⟨learned, after⟩ := attempt
          rw [tried] at kept
          cases kept
          cases stop with
          | none => exact ih learned
          | some failure => rfl

theorem finish_builtIn (start : Except AnalysisError (List SourcePath) × Memory) (state : σ) :
    (builtIn kind table selection tree signalled).finish start state =
      seen ((builtIn kind table selection id fun _ => signalled state).finish start
        (tree state)) state := by
  obtain ⟨files, memory⟩ := start
  cases files with
  | error cause => rfl
  | ok files =>
      unfold finish
      dsimp only
      rw [work_builtIn]
      rfl

variable {cancelled : Bool}

theorem own_attempt {file : SourcePath} {rest : List SourcePath} {memory : Memory}
    {files : FileTree} {failure : Failure}
    (stopped : ((builtIn kind table selection id fun _ => cancelled).attempt file rest memory
      files).1 = some failure) : ∃ cause, failure = .error cause ∧ cause.IsOf kind.name := by
  unfold attempt visit builtIn at stopped
  dsimp only [id] at stopped
  cases cancelled with
  | true =>
      cases stopped
      exact ⟨_, rfl, trivial⟩
  | false =>
      cases read : files.read (selection.root.join file) with
      | ok bytes =>
          rw [read] at stopped
          cases stopped
      | error fault =>
          rw [read] at stopped
          cases fault <;> cases stopped <;> exact ⟨_, rfl, rfl⟩

theorem own_work {files : List SourcePath} {memory : Memory} {tree : FileTree}
    {failure : Failure}
    (stopped : ((builtIn kind table selection id fun _ => cancelled).work files memory
      tree).1 = some failure) : ∃ cause, failure = .error cause ∧ cause.IsOf kind.name := by
  induction files generalizing memory tree with
  | nil => cases stopped
  | cons file rest ih =>
      rw [work] at stopped
      cases tried : (builtIn kind table selection id fun _ => cancelled).attempt file rest
        memory tree with
      | mk stop attempt =>
          obtain ⟨learned, after⟩ := attempt
          rw [tried] at stopped
          cases stop with
          | none => exact ih stopped
          | some other =>
              cases stopped
              exact own_attempt (congrArg Prod.fst tried)

theorem own_takeUp {name : String} {runner : Analyzer σ} {change : Change}
    {share : Option Partition} {memory : Memory} {state : σ} {cause : AnalysisError}
    (refused : (Service.takeUpOrder runner change share memory state).1 = .error cause) :
    cause.IsOf name := by
  rcases Service.takeUpOrder_error refused with ⟨_signalled, rfl⟩ | ⟨error, failed, rfl⟩
  · trivial
  · obtain ⟨directory, _locked, rfl, _there, _node⟩ := Selection.of_discover_error failed
    exact ⟨directory, rfl⟩

theorem own_finish {start : Except AnalysisError (List SourcePath) × Memory} {tree : FileTree}
    (own : ∀ cause, start.1 = .error cause → cause.IsOf kind.name) {failure : Failure}
    (failed : ((builtIn kind table selection id fun _ => cancelled).finish start tree).1 =
      .error failure) : ∃ cause, failure = .error cause ∧ cause.IsOf kind.name := by
  obtain ⟨files, memory⟩ := start
  cases files with
  | error cause =>
      cases failed
      exact ⟨cause, rfl, own cause rfl⟩
  | ok files =>
      unfold finish conclude at failed
      dsimp only at failed
      cases worked : ((builtIn kind table selection id fun _ => cancelled).work files memory
        tree).1 with
      | none =>
          rw [worked] at failed
          cases failed
      | some stop =>
          rw [worked] at failed
          cases failed
          exact own_work worked

end Analyzer

/-! ### Workers -/

namespace Service

/-- A process that serves a built-in engine over any selection. -/
def program (kind : EngineKind) (table : EngineTable) (selection : Selection) :
    Program Service FileTree :=
  { name := kind.name
    launch := fun _ => .ok (new kind.name)
    deliver := fun bytes service tree =>
      let analyzer := Analyzer.builtIn kind table selection id fun _ => false
      let (done, _) := (service.feed bytes).idle analyzer tree
      some (encoded done.output, { done with output := [] }) }

/-- A worker process of a project is such a process. -/
theorem deliver_serving (project : Project) (kind : EngineKind) (table : EngineTable)
    (service : Service) (bytes : List UInt8) (tree : FileTree) :
    WorkerProcess.deliver bytes (.serving project kind table service) tree =
      ((program kind table (project.selection kind)).deliver bytes service tree).map
        fun answered => (answered.1, .serving project kind table answered.2) := rfl

variable {kind : EngineKind} {table : EngineTable} {selection : Selection}
  {memory learned : Memory} {groups : TokenGroups} {registry : List (Nat × Token)}
  {asked : Nat} {topic : String} {payload : Json}
  {ahead behind : Option Notification} {tree after : FileTree} {outcome : Except Fault Json}

theorem call_serves {α : Type}
    (serves : Serves (Analyzer.builtIn kind table selection id fun _ => false)
      (resting kind.name memory groups registry) ahead ⟨asked, topic, payload⟩ behind tree outcome
      learned after)
    (sendable : (Message.response (Response.ofOutcome asked outcome)).Sendable)
    (decode : Document → Option α) (ready : Bool) :
    ∃ later left,
      (Handle.settled kind.name asked (resting kind.name memory groups registry) ready).call
          (program kind table selection) tree topic payload ahead behind decode =
        ((Answer.read decode
          ((arrivedOutcome (Response.ofOutcome asked outcome)).mapError .refused)).mapError
            AnalysisError.ofCall,
          Handle.settled kind.name (asked + 1) (resting kind.name learned later left) ready) := by
  obtain ⟨later, left, answered⟩ := serves
  refine ⟨later, left, Handle.call_settled ?_ ?_ sendable decode⟩
  · unfold program
    dsimp only
    rw [answered]
    rfl
  · cases outcome <;> rfl

end Service

section Runs

variable {kind : EngineKind} {table : EngineTable} {selection : Selection} {memory : Memory}
  {groups : TokenGroups} {registry : List (Nat × Token)} {asked : Nat} {ready : Bool}

def Analyzer.carriedOut (kind : EngineKind) (table : EngineTable) (selection : Selection)
    (order : RunOrder) (memory : Memory) (tree : FileTree) :
    Except Failure (List Issue) × Memory × FileTree :=
  let runner := builtIn kind table selection id fun _ => order.signal.cancelled
  runner.finish
    (Service.takeUpOrder runner (order.change.getD Change.empty) order.share memory tree) tree

theorem Analyzer.plain_carriedOut {order : RunOrder} {tree : FileTree} {failure : Failure}
    (failed : (carriedOut kind table selection order memory tree).1 = .error failure) :
    ∃ cause, failure = .error cause ∧ cause.Plain := by
  obtain ⟨cause, is, own⟩ := own_finish (fun _cause refused => own_takeUp refused) failed
  exact ⟨cause, is, own.plain⟩

/-- A run comes to what the engine makes of its order, whether or not its signal is noticed early. -/
theorem Handle.run_settled (early : Bool) (order : RunOrder)
    (share : ∀ share ∈ order.share, share.index < UInt64.size ∧ share.count < UInt64.size)
    (signal : order.signal.id < UInt64.size) (few : asked < UInt64.size) (tree : FileTree) :
    let ran := Analyzer.carriedOut kind table selection order memory tree
    ∃ later left result,
      (settled kind.name asked (Service.resting kind.name memory groups registry) ready).run
          (Service.program kind table selection) tree early order =
        (result,
          settled kind.name (asked + 1) (Service.resting kind.name ran.2.1 later left) ready) ∧
      result.mapError Failure.error = ran.1 := by
  intro ran
  have travels := RunOrder.travels share signal
  have sendable : (Message.request ⟨asked, Service.runTopic, order.toJson⟩).Sendable :=
    Message.sendable_request few travels.whole order.depth_le
  have serves : Service.Serves (Analyzer.builtIn kind table selection id fun _ => false)
      (Service.resting kind.name memory groups registry) (Service.cancelAhead early order.signal)
      ⟨asked, Service.runTopic, order.toJson⟩ (Service.cancelBehind early order.signal) tree
      (Service.runOutcome ran.1) ran.2.1 ran.2.2 :=
    Service.serves_run Analyzer.unbroken_builtIn rfl travels sendable signal early tree
  cases outcome : ran.1 with
  | ok issues =>
      rw [outcome] at serves
      have travelsBack := Issue.travels_all issues
      obtain ⟨later, left, called⟩ := Service.call_serves serves
        (Message.sendable_value few travelsBack.whole
          (Nat.le_succ_of_le (Issue.depth_all issues))) Issue.listOfDocument? ready
      exact ⟨later, left, .ok issues,
        called.trans (congrArg (·, _) (read_value travelsBack asked)), rfl⟩
  | error failure =>
      obtain ⟨cause, rfl, plain⟩ := Analyzer.plain_carriedOut outcome
      rw [outcome] at serves
      obtain ⟨later, left, called⟩ := Service.call_serves serves
        (Message.sendable_fault few cause.toFault) Issue.listOfDocument? ready
      exact ⟨later, left, .error cause,
        called.trans (congrArg (·, _) (read_fault plain _ asked)), rfl⟩

theorem Handle.seed_settled (issues : List Issue) (few : asked < UInt64.size) (tree : FileTree) :
    ∃ later left,
      (settled kind.name asked (Service.resting kind.name memory groups registry) ready).seed
          (Service.program kind table selection) tree issues =
        (.ok (),
          settled kind.name (asked + 1) (Service.resting kind.name (memory.seed issues) later left)
            ready) := by
  have travels := SeedOrder.travels ⟨issues⟩
  have sendable : (Message.request
      ⟨asked, Service.seedTopic, (SeedOrder.mk issues).toJson⟩).Sendable :=
    Message.sendable_request few travels.whole (SeedOrder.depth_le _)
  have serves : Service.Serves (Analyzer.builtIn kind table selection id fun _ => false)
      (Service.resting kind.name memory groups registry) none
      ⟨asked, Service.seedTopic, (SeedOrder.mk issues).toJson⟩ none tree (.ok .null)
      (memory.seed issues) tree := Service.serves_seed rfl travels sendable tree
  obtain ⟨later, left, called⟩ := Service.call_serves serves
    (Message.sendable_value few trivial (Nat.zero_le 3)) Document.unit? ready
  exact ⟨later, left, called⟩

theorem Handle.connect_new (tree : FileTree) :
    ∃ later left,
      (new kind.name).connect (Service.program kind table selection) tree =
        (.ok (),
          settled kind.name 2 (Service.resting kind.name Memory.new later left) true) := by
  have sendable : (Message.request ⟨1, Service.connectTopic, .null⟩).Sendable :=
    Message.sendable_request (by decide) trivial (Nat.zero_le 3)
  have serves : Service.Serves (Analyzer.builtIn kind table selection id fun _ => false)
      (Service.resting kind.name Memory.new TokenGroups.empty []) none
      ⟨1, Service.connectTopic, .null⟩ none tree (.ok (Greeting.mk kind.name).toJson)
      Memory.new tree := Service.serves_connect rfl sendable tree
  have travels := Greeting.travels ⟨kind.name⟩
  obtain ⟨later, left, called⟩ := Service.call_serves serves
    (Message.sendable_value (by decide) travels.whole (Nat.le_add_left 1 2))
    Greeting.ofDocument? false
  rw [read_value travels] at called
  refine ⟨later, left, ?_⟩
  have launched : (new kind.name).ensureLaunched (Service.program kind table selection) tree =
      .ok (settled kind.name 1
        (Service.resting kind.name Memory.new TokenGroups.empty []) false) := rfl
  have unready : (settled kind.name 1 (Service.resting kind.name Memory.new TokenGroups.empty [])
      false).live.any Live.ready = false := rfl
  unfold connect
  rw [launched]
  dsimp only
  rw [unready, if_neg Bool.false_ne_true, called]
  rfl

end Runs

/-! ### The same work in either place -/

/-- The surroundings of a worker: the files, the signal of the run at hand, and what the worker
keeps. -/
structure Bench (κ : Type) where
  tree : FileTree
  signal : Signal
  kept : κ

def Bench.keep {κ : Type} (kept : κ) (bench : Bench κ) : Bench κ := { bench with kept := kept }

inductive Assignment where
  | report (change : Change) (signal : Signal)
  | reportShare (share : Partition) (signal : Signal)
  | seed (issues : List Issue)

def Assignment.Fits : Assignment → Prop
  | .report _ signal => signal.id < UInt64.size
  | .reportShare share signal =>
      share.index < UInt64.size ∧ share.count < UInt64.size ∧ signal.id < UInt64.size
  | .seed _ => True

inductive Reply where
  | reported (result : Except Failure (List Issue))
  | seeded (result : Except Failure Unit)

namespace Worker

variable {κ : Type} (worker : Worker (Bench κ))

def reply (bench : Bench κ) : Assignment → Reply × Bench κ
  | .report change signal =>
      let (result, after) := worker.report change { bench with signal := signal }
      (.reported result, after)
  | .reportShare share signal =>
      let (result, after) := worker.reportShare share { bench with signal := signal }
      (.reported result, after)
  | .seed issues =>
      let (result, after) := worker.seed issues bench
      (.seeded result, after)

/-- The replies of a worker to one assignment after the other, with the files as they are at
each. -/
def replies (bench : Bench κ) : List (FileTree × Assignment) → List Reply
  | [] => []
  | (tree, assignment) :: rest =>
      let (first, after) := worker.reply { bench with tree := tree } assignment
      first :: replies after rest

end Worker

def Worker.inside (kind : EngineKind) (table : EngineTable) (selection : Selection) :
    Worker (Bench Memory) :=
  (Analyzer.builtIn kind table selection Bench.tree fun bench => bench.signal.cancelled).worker
    Bench.kept Bench.keep

/-- A built-in engine in a process of its own, where the signals of some runs are noticed early. -/
def Worker.outside (kind : EngineKind) (table : EngineTable) (selection : Selection)
    (early : Bench (Handle Service) → Bool) : Worker (Bench (Handle Service)) :=
  Handle.worker (Service.program kind table selection) Bench.kept Bench.keep Bench.tree
    Bench.signal early

/-- Both workers keep the same memory, one of them in its process, and the next request has a
certain number. -/
def Paired (kind : EngineKind) (asked : Nat) (inside : Bench Memory)
    (outside : Bench (Handle Service)) : Prop :=
  ∃ groups registry,
    outside.kept =
      Handle.settled kind.name asked (Service.resting kind.name inside.kept groups registry) true

section Placement

variable {kind : EngineKind} {table : EngineTable} {selection : Selection} {asked : Nat}
  {inside : Bench Memory} {outside : Bench (Handle Service)} {early : Bench (Handle Service) → Bool}

def Assignment.order? : Assignment → Option RunOrder
  | .report change signal => some ⟨some change, none, signal⟩
  | .reportShare share signal => some ⟨none, some share, signal⟩
  | .seed _ => none

theorem reply_inside {assignment : Assignment} {order : RunOrder}
    (wanted : assignment.order? = some order) :
    (Worker.inside kind table selection).reply inside assignment =
      let ran := Analyzer.carriedOut kind table selection order inside.kept inside.tree
      (.reported ran.1, { inside with signal := order.signal, kept := ran.2.1 }) := by
  have finished := @Analyzer.finish_builtIn (Bench Memory) kind table selection Bench.tree
    fun bench => bench.signal.cancelled
  cases assignment with
  | seed issues => cases wanted
  | report change signal =>
      cases wanted
      unfold Worker.reply Worker.inside Analyzer.worker Analyzer.report
      dsimp only
      rw [finished]
      rfl
  | reportShare share signal =>
      cases wanted
      unfold Worker.reply Worker.inside Analyzer.worker Analyzer.reportShare
      dsimp only
      rw [finished]
      rfl

theorem reply_outside {assignment : Assignment} {order : RunOrder}
    (wanted : assignment.order? = some order) :
    (Worker.outside kind table selection early).reply outside assignment =
      let ran := outside.kept.run (Service.program kind table selection) outside.tree
        (early { outside with signal := order.signal }) order
      (.reported (ran.1.mapError .error),
        { outside with signal := order.signal, kept := ran.2 }) := by
  cases assignment with
  | seed issues => cases wanted
  | report change signal =>
      cases wanted
      unfold Worker.reply Worker.outside Handle.worker Handle.asCall Handle.report
      dsimp only
      generalize outside.kept.run _ _ _ _ = ran
      rfl
  | reportShare share signal =>
      cases wanted
      unfold Worker.reply Worker.outside Handle.worker Handle.asCall Handle.reportShare
      dsimp only
      generalize outside.kept.run _ _ _ _ = ran
      rfl

theorem Assignment.Fits.order {assignment : Assignment} {order : RunOrder}
    (fits : assignment.Fits) (wanted : assignment.order? = some order) :
    (∀ share ∈ order.share, share.index < UInt64.size ∧ share.count < UInt64.size) ∧
      order.signal.id < UInt64.size := by
  cases assignment with
  | seed issues => cases wanted
  | report change signal =>
      cases wanted
      exact ⟨fun share held => (by cases held), fits⟩
  | reportShare share signal =>
      cases wanted
      refine ⟨fun other held => ?_, fits.2.2⟩
      cases held
      exact ⟨fits.1, fits.2.1⟩

/-- One assignment has the same reply in either place. -/
theorem reply_paired (paired : Paired kind asked inside outside) (few : asked < UInt64.size)
    (sameTree : inside.tree = outside.tree) {assignment : Assignment} (fits : assignment.Fits) :
    ((Worker.inside kind table selection).reply inside assignment).1 =
        ((Worker.outside kind table selection early).reply outside assignment).1 ∧
      Paired kind (asked + 1) ((Worker.inside kind table selection).reply inside assignment).2
        ((Worker.outside kind table selection early).reply outside assignment).2 := by
  obtain ⟨groups, registry, held⟩ := paired
  cases wanted : assignment.order? with
  | some order =>
      obtain ⟨share, signal⟩ := fits.order wanted
      obtain ⟨later, left, result, ran, same⟩ := @Handle.run_settled kind table selection
        inside.kept groups registry asked true (early { outside with signal := order.signal })
        order share signal few outside.tree
      rw [← held] at ran
      rw [reply_inside wanted, reply_outside wanted, ran, sameTree]
      exact ⟨congrArg Reply.reported same.symm, later, left, rfl⟩
  | none =>
      cases assignment with
      | report change signal => cases wanted
      | reportShare share signal => cases wanted
      | seed issues =>
          obtain ⟨later, left, seeded⟩ := @Handle.seed_settled kind table selection
            inside.kept groups registry asked true issues few outside.tree
          unfold Worker.reply Worker.inside Worker.outside Handle.worker Handle.asCall
            Analyzer.worker
          dsimp only
          rw [held, seeded]
          exact ⟨rfl, later, left, rfl⟩

theorem replies_paired (paired : Paired kind asked inside outside)
    {work : List (FileTree × Assignment)} (few : asked + work.length ≤ UInt64.size)
    (fits : ∀ step ∈ work, step.2.Fits) :
    (Worker.inside kind table selection).replies inside work =
      (Worker.outside kind table selection early).replies outside work := by
  induction work generalizing asked inside outside with
  | nil => rfl
  | cons step rest ih =>
      obtain ⟨tree, assignment⟩ := step
      rw [List.length_cons] at few
      have paired : Paired kind asked { inside with tree := tree } { outside with tree := tree } :=
        paired
      obtain ⟨same, later⟩ := @reply_paired kind table selection asked _ _ early paired (by omega)
        rfl assignment (fits _ List.mem_cons_self)
      have others := ih later (by omega)
        (fun other member => fits other (List.mem_cons_of_mem _ member))
      rw [Worker.replies, Worker.replies]
      exact congr (congrArg List.cons same) others

theorem connect_outside (tree : FileTree) (signal : Signal) :
    ∃ later left,
      (Worker.outside kind table selection early).connect ⟨tree, signal, Handle.new kind.name⟩ =
        (.ok (), ⟨tree, signal,
          Handle.settled kind.name 2 (Service.resting kind.name Memory.new later left) true⟩) := by
  obtain ⟨later, left, connected⟩ := @Handle.connect_new kind table selection tree
  refine ⟨later, left, ?_⟩
  unfold Worker.outside Handle.worker Handle.asCall
  dsimp only
  rw [connected]
  rfl

/-- A built-in engine gives the same replies in a process of its own as in this one, whatever
it is asked for and whichever signals are noticed early, as long as there are numbers left for
requests. -/
theorem same_replies_in_either_place (kind : EngineKind) (table : EngineTable)
    (selection : Selection) (early : Bench (Handle Service) → Bool) (tree : FileTree) (signal : Signal)
    (work : List (FileTree × Assignment)) (few : work.length + 2 ≤ UInt64.size)
    (fits : ∀ step ∈ work, step.2.Fits) :
    let outside := Worker.outside kind table selection early
    let connected := outside.connect ⟨tree, signal, Handle.new kind.name⟩
    connected.1 = .ok () ∧
      outside.replies connected.2 work =
        (Worker.inside kind table selection).replies ⟨tree, signal, Memory.new⟩ work := by
  intro outside connected
  obtain ⟨later, left, reached⟩ := @connect_outside kind table selection early tree signal
  have reached : connected = _ := reached
  refine ⟨congrArg Prod.fst reached, ?_⟩
  rw [reached]
  exact (replies_paired ⟨later, left, rfl⟩ (by omega) fits).symm

/-! A share is reported, issues found elsewhere are taken over, a run under a signal is refused,
and the last run reports what is left after a removal. -/

namespace Shift

def tree : FileTree := FileTree.empty.write ["p", "src", "a.ts"] (Utf8.encode "call(")

def unclosed (file : String) : Issue :=
  ⟨⟨file⟩, 1, 5, .error, "E001", "unclosed delimiter '('", .typeCheck⟩

def gone : Change := Change.ofFiles [] [⟨"src/a.ts"⟩]

def work : List (FileTree × Assignment) :=
  [(tree, .reportShare ⟨0, 2⟩ ⟨7, false⟩), (tree, .seed [unclosed "src/b.ts"]),
    (tree, .report Change.empty ⟨8, true⟩), (tree, .report gone ⟨9, false⟩)]

end Shift

def Reply.issues? : Reply → Option (List Issue)
  | .reported result => result.toOption
  | .seeded _ => none

theorem same_replies_over_a_shift :
    let outside := Worker.outside .check ⟨true, 2, none, none, [], [], 0⟩
      (Selection.of ⟨"/p"⟩ ["src"] [] ["ts"]) fun _ => true
    let connected := outside.connect ⟨Shift.tree, ⟨0, false⟩, Handle.new "check"⟩
    (outside.replies connected.2 Shift.work).map Reply.issues? =
      [some [Shift.unclosed "src/a.ts"], none, none, some [Shift.unclosed "src/b.ts"]] := by
  have fits : ∀ step ∈ Shift.work, step.2.Fits := by
    simp [Shift.work, Assignment.Fits, UInt64.size]
  have replied := same_replies_in_either_place .check ⟨true, 2, none, none, [], [], 0⟩
    (Selection.of ⟨"/p"⟩ ["src"] [] ["ts"]) (fun _ => true) Shift.tree ⟨0, false⟩ Shift.work (by decide) fits
  intro outside connected
  refine (congrArg (List.map Reply.issues?) replied.2).trans ?_
  decide +kernel

end Placement

end Reanalysis
