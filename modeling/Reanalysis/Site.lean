/-
A project at work: its files, one crew of workers for each enabled engine, and the
token of the run at hand. Workers are in this process, or in processes of their own;
a crew of more than one worker is a pool.
-/

import Reanalysis.Project
import Reanalysis.Remote
import Reanalysis.Session

namespace Reanalysis

/-- What a worker process is: a service for one engine, unless it could not start. -/
inductive WorkerProcess where
  | serving (project : Project) (kind : EngineKind) (table : EngineTable) (service : Service)
  | ended

namespace WorkerProcess

def start (tree : FileTree) (configPath : SourcePath) (kind : EngineKind) : WorkerProcess :=
  match Project.load tree ⟨"/"⟩ configPath with
  | .error _ => .ended
  | .ok project =>
      match project.engineTable kind with
      | .error _ => .ended
      | .ok table => .serving project kind table (Service.new kind.name)

/-- Lets a service do all there is to do. Answers with what it has written, and with what
there is of it afterwards. -/
def runService (project : Project) (kind : EngineKind) (table : EngineTable)
    (service : Service) (tree : FileTree) : List UInt8 × WorkerProcess :=
  let analyzer := project.analyzer kind table id (fun _ => false)
  let (done, _) := service.idle analyzer tree
  (done.output.flatMap (fun message => Utf8.encode message.line),
    .serving project kind table { done with output := [] })

def deliver (bytes : List UInt8) (process : WorkerProcess) (tree : FileTree) :
    Option (List UInt8 × WorkerProcess) :=
  match process with
  | .ended => none
  | .serving project kind table service =>
      some (runService project kind table (service.feed bytes) tree)

def finish (process : WorkerProcess) (tree : FileTree) : List UInt8 × WorkerProcess :=
  match process with
  | .ended => ([], .ended)
  | .serving project kind table service =>
      runService project kind table service.endInput tree

def isOver : WorkerProcess → Bool
  | .ended => true
  | .serving _ _ _ service => service.isClosed

def program (configPath : SourcePath) (kind : EngineKind) : Program WorkerProcess FileTree :=
  { name := kind.name
    launch := fun tree => .ok (start tree configPath kind)
    deliver := deliver }

end WorkerProcess

inductive Placement where
  | inProcess
  | workers
deriving DecidableEq, Repr

inductive Member where
  | here (memory : Memory)
  | elsewhere (handle : Handle WorkerProcess)

/-- The workers of one engine. `done` says whether they have finished a full run. -/
structure Crew where
  kind : EngineKind
  table : EngineTable
  members : List Member
  done : Bool

structure Site where
  project : Project
  tree : FileTree
  token : Signal
  crews : List Crew
  /-- What was announced and has not been looked at yet. -/
  announced : List Announcement

namespace Site

def crewOf (project : Project) (placement : Placement) (kind : EngineKind) :
    Except AnalysisError Crew := do
  let table ← project.engineTable kind
  let member : Member :=
    match placement with
    | .inProcess => .here Memory.new
    | .workers => .elsewhere (Handle.new kind.name)
  pure ⟨kind, table, List.replicate (max table.workers 1) member, false⟩

def new (project : Project) (placement : Placement) (tree : FileTree) :
    Except AnalysisError Site := do
  let crews ← (project.config.enabledEngines.map Prod.fst).mapM (crewOf project placement)
  pure ⟨project, tree, ⟨0, false⟩, crews, []⟩

def member? (site : Site) (crew index : Nat) : Option Member :=
  site.crews[crew]?.bind fun found => found.members[index]?

def setMember (crew index : Nat) (member : Member) (site : Site) : Site :=
  { site with
    crews := site.crews.modify crew fun found =>
      { found with members := found.members.set index member } }

def memoryAt (crew index : Nat) (site : Site) : Memory :=
  match site.member? crew index with
  | some (.here memory) => memory
  | _ => Memory.new

def handleAt (kind : EngineKind) (crew index : Nat) (site : Site) : Handle WorkerProcess :=
  match site.member? crew index with
  | some (.elsewhere handle) => handle
  | _ => Handle.new kind.name

def localWorker (project : Project) (kind : EngineKind) (table : EngineTable)
    (crew index : Nat) : Worker Site :=
  (project.analyzer kind table Site.tree (fun site => site.token.cancelled)).worker
    (memoryAt crew index) (fun memory => setMember crew index (.here memory))

/-- A worker in a process of its own. When a signal is noticed makes no difference to its replies,
so it is taken to be late. -/
def remoteWorker (project : Project) (kind : EngineKind) (crew index : Nat) :
    Worker Site :=
  Handle.worker (WorkerProcess.program project.configPath kind) (handleAt kind crew index)
    (fun handle => setMember crew index (.elsewhere handle)) Site.tree Site.token fun _ => false

def workerAt (project : Project) (crew : Nat) (found : Crew) (index : Nat)
    (member : Member) : Worker Site :=
  match member with
  | .here _ => localWorker project found.kind found.table crew index
  | .elsewhere _ => remoteWorker project found.kind crew index

def poolOf (project : Project) (crew : Nat) (found : Crew) : Pool Site :=
  { name := found.kind.name
    workers := found.members.zipIdx.map fun (member, index) =>
      workerAt project crew found index member
    signalled := fun site => site.token.cancelled }

def leave (crew : Nat) (state : Pooled Site) : Site :=
  { state.around with
    crews := state.around.crews.modify crew fun found => { found with done := state.done } }

def inPool {α : Type} (crew : Nat) (found : Crew) (call : Pool Site → Call (Pooled Site) α)
    (site : Site) : Except Failure α × Site :=
  let (result, after) := call (poolOf site.project crew found) ⟨found.done, site⟩
  (result, leave crew after)

def connect (crew : Nat) (site : Site) : Except Failure Unit × Site :=
  match site.crews[crew]? with
  | none => (.ok (), site)
  | some found => inPool crew found Pool.connect site

def report (crew : Nat) (change : Change) (site : Site) :
    Except Failure (List Issue) × Site :=
  match site.crews[crew]? with
  | none => (.ok [], site)
  | some found =>
      match (poolOf site.project crew found).workers with
      | [only] => only.report change site
      | _ => inPool crew found (fun pool => pool.report change) site

def disconnect (crew : Nat) (site : Site) : Except Failure Unit × Site :=
  match site.crews[crew]? with
  | none => (.ok (), site)
  | some found => inPool crew found Pool.disconnect site

def reporters : Reporters Site :=
  { connect := connect
    ask := fun number crew change signalled site =>
      let (result, after) := report crew change { site with token := ⟨number, signalled⟩ }
      (some result, after)
    disconnect := disconnect
    signal := fun _ site => ([], site)
    announce := fun announcement site =>
      { site with announced := site.announced ++ [announcement] } }

def session (site : Site) : Session :=
  Session.new (site.crews.map fun crew => crew.kind.name)
    (IssueFilter.ofTable site.project.config.issues)

end Site

end Reanalysis
