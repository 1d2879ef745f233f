/-
What one check of a project says. Where all directories can be listed that are to be searched,
and all files read that are found there, the report is what the engines find in them: the issues
of each engine sorted, one engine after the other, less what the filter holds back. How many
workers an engine has makes no difference to it.
-/

import Reanalysis.Commands
import Reanalysis.Proofs.AcceptedConfig
import Reanalysis.Proofs.FirstCycle
import Reanalysis.Proofs.Placement
import Reanalysis.Proofs.PoolRefinement

namespace Reanalysis

namespace Selection

variable {selection : Selection} {engine : SourcePath → String → List Issue} {tree : FileTree}

/-- The issues of the files of a selection, file by file. -/
def findings (selection : Selection) (engine : SourcePath → String → List Issue)
    (tree : FileTree) : List Issue :=
  (selection.inventory tree).flatMap fun file => (selection.finding engine tree file).getD []

theorem beside_finding_of_apart (filing : Filing engine) {place : Issue} {file : SourcePath}
    (apart : file.same place.file = false) :
    place.beside ((selection.finding engine tree file).getD []) = [] := by
  rw [List.eq_nil_iff_forall_not_mem]
  intro issue member
  obtain ⟨held, equal⟩ := Issue.mem_beside.mp member
  cases learned : selection.finding engine tree file with
  | none => rw [learned] at held; cases held
  | some found =>
      rw [learned] at held
      have under := filing_finding filing learned issue held
      have alike := SourcePath.same_trans (SourcePath.same_symm under)
        (Issue.same_file_of_order equal)
      rw [apart] at alike
      cases alike

theorem beside_findings (filing : Filing engine) (place : Issue) :
    place.beside (selection.findings engine tree) =
      place.beside (((selection.survey engine tree).results.get? place.file).getD []) := by
  unfold findings
  rw [Issue.beside_flatMap]
  by_cases present : ∃ file ∈ selection.inventory tree, file.same place.file = true
  · obtain ⟨file, member, alike⟩ := present
    rw [get?_survey member alike]
    have apart := selection.inventory_apart tree
    obtain ⟨front, back, split⟩ := List.append_of_mem member
    rw [split] at apart ⊢
    obtain ⟨_, behind, before⟩ := List.pairwise_append.mp apart
    have silent {other : SourcePath} (otherApart : other.same file = false) :
        place.beside ((selection.finding engine tree other).getD []) = [] := by
      apply beside_finding_of_apart filing
      rw [← SourcePath.same_congr_right alike]
      exact otherApart
    have inFront : front.flatMap (fun other =>
        place.beside ((selection.finding engine tree other).getD [])) = [] := by
      rw [List.flatMap_eq_nil_iff]
      exact fun other inside => silent (before other inside file List.mem_cons_self)
    have inBack : back.flatMap (fun other =>
        place.beside ((selection.finding engine tree other).getD [])) = [] := by
      rw [List.flatMap_eq_nil_iff]
      intro other inside
      refine silent (Bool.eq_false_iff.mpr fun otherAlike => ?_)
      have clash := (List.pairwise_cons.mp behind).1 other inside
      rw [SourcePath.same_symm otherAlike] at clash
      cases clash
    rw [List.flatMap_append, List.flatMap_cons, inFront, inBack, List.nil_append, List.append_nil]
  · have apart : ∀ file ∈ selection.inventory tree, file.same place.file = false :=
      fun file member => Bool.eq_false_iff.mpr fun alike => present ⟨file, member, alike⟩
    rw [get?_survey_of_apart apart, Option.getD_none]
    exact List.flatMap_eq_nil_iff.mpr fun file member =>
      beside_finding_of_apart filing (apart file member)

theorem survey_issues (filing : Filing engine) :
    (selection.survey engine tree).issues = Issue.sort (selection.findings engine tree) := by
  unfold Memory.issues
  rw [Issue.sort_eq_iff]
  intro place
  rw [beside_findings filing, ← (filed_survey filing).beside_issues]
  exact (Issue.beside_sort place _).symm

end Selection

namespace Analyzer

variable {σ : Type} {kind : EngineKind} {table : EngineTable} {selection : Selection}
  {tree : σ → FileTree} {signalled : σ → Bool} {state : σ}

theorem work_readable (clear : signalled state = false) {files : List SourcePath}
    (readable : ∀ file ∈ files, ∃ bytes,
      (tree state).read (selection.root.join file) = .ok bytes) (memory : Memory) :
    (builtIn kind table selection tree signalled).work files memory state =
      (none, memory.learnAll (selection.finding (table.examine kind) (tree state)) files, state) := by
  induction files generalizing memory with
  | nil => rfl
  | cons file rest ih =>
      obtain ⟨bytes, read⟩ := readable file List.mem_cons_self
      have learns : memory.learn (selection.finding (table.examine kind) (tree state)) file =
          memory.record file (table.examine kind file (Utf8.lenient bytes)) := by
        unfold Memory.learn Selection.finding
        rw [read]
      have visited : (builtIn kind table selection tree signalled).visit file state =
          (.ok (some (table.examine kind file (Utf8.lenient bytes))), state) :=
        visit_of_read read
      have tried : (builtIn kind table selection tree signalled).attempt file rest memory state =
          (none, memory.record file (table.examine kind file (Utf8.lenient bytes)), state) := by
        have quiet : (builtIn kind table selection tree signalled).signalled state = false := clear
        unfold attempt
        rw [quiet, if_neg Bool.false_ne_true, visited]
      rw [work, tried]
      dsimp only
      rw [ih (fun other member => readable other (List.mem_cons_of_mem _ member)), ← learns]
      rfl

theorem report_readable (clear : signalled state = false) (readable : selection.Readable (tree state))
    (change : Change) :
    ∃ memory, (builtIn kind table selection tree signalled).report change Memory.new state =
      (.ok (selection.survey (table.examine kind) (tree state)).issues, memory, state) := by
  have quiet : (builtIn kind table selection tree signalled).signalled state = false := clear
  have worked := @work_readable σ kind table selection tree signalled state clear
    (selection.inventory (tree state)) readable.read
    ((builtIn kind table selection tree signalled).outset change Memory.new)
  rw [report_of_begins quiet fun _first => readable.explorable]
  have due : (builtIn kind table selection tree signalled).due change Memory.new state =
      selection.inventory (tree state) := rfl
  rw [due, worked]
  exact ⟨_, rfl⟩

theorem reportShare_readable (clear : signalled state = false)
    (readable : selection.Readable (tree state)) (index count : Nat) (memory : Memory) :
    (builtIn kind table selection tree signalled).reportShare (Partition.of index count) memory
        state =
      (.ok (selection.surveyShare (table.examine kind) (tree state) count index).issues,
        selection.surveyShare (table.examine kind) (tree state) count index, state) := by
  have quiet : (builtIn kind table selection tree signalled).signalled state = false := clear
  have worked := @work_readable σ kind table selection tree signalled state clear
    ((Partition.of index count).select (selection.inventory (tree state)))
    (fun file member => readable.read file ((Partition.select_sublist _ _).subset member)) Memory.new
  have taken : (builtIn kind table selection tree signalled).takeUpShare (Partition.of index count)
      memory state =
        (.ok ((Partition.of index count).select (selection.inventory (tree state))), Memory.new) := by
    have found : (builtIn kind table selection tree signalled).selection.discover
        ((builtIn kind table selection tree signalled).tree state) = .ok _ := readable.explorable
    unfold takeUpShare
    rw [quiet, if_neg Bool.false_ne_true, found]
    rfl
  unfold reportShare finish
  rw [taken]
  dsimp only
  rw [worked]
  rfl

end Analyzer

namespace Project

def verdictOf (project : Project) (tree : FileTree) (engine : EngineKind × EngineTable) :
    List Issue :=
  Issue.sort ((project.selection engine.1).findings (engine.2.examine engine.1) tree)

def engineNames (project : Project) : List String :=
  project.config.enabledEngines.map fun engine => engine.1.name

/-- What all engines of a project report, less what is not published. -/
def verdict (project : Project) (tree : FileTree) : List Issue :=
  (project.config.enabledEngines.flatMap (project.verdictOf tree)).filter
    (IssueFilter.ofTable project.config.issues).keeps

/-- Another number of workers for each engine. -/
def withWorkers (sizes : EngineKind → Nat) (project : Project) : Project :=
  let resized (kind : EngineKind) (table : EngineTable) := { table with workers := sizes kind }
  { project with
    config := { project.config with
      engines :=
        ⟨project.config.engines.check.map (resized .check),
          project.config.engines.lint.map (resized .lint)⟩ } }

variable (sizes : EngineKind → Nat) (project : Project)

theorem find?_withWorkers (kind : EngineKind) :
    (project.withWorkers sizes).config.engines.find? kind =
      (project.config.engines.find? kind).map fun table =>
        { table with workers := sizes kind } := by
  cases kind <;> rfl

theorem selection_withWorkers (kind : EngineKind) :
    (project.withWorkers sizes).selection kind = project.selection kind := by
  unfold selection Config.selection
  rw [find?_withWorkers]
  cases project.config.engines.find? kind <;> rfl

theorem enabledEngines_withWorkers :
    (project.withWorkers sizes).config.enabledEngines =
      project.config.enabledEngines.map fun (kind, table) =>
        (kind, { table with workers := sizes kind }) := by
  unfold Config.enabledEngines
  rw [List.map_filterMap]
  congr 1
  funext kind
  rw [find?_withWorkers]
  cases project.config.engines.find? kind with
  | none => rfl
  | some table => cases enabled : table.enabled <;> simp [Option.filter, enabled]

theorem verdict_withWorkers (tree : FileTree) :
    (project.withWorkers sizes).verdict tree = project.verdict tree := by
  have alike : (project.withWorkers sizes).verdictOf tree ∘
      (fun (kind, table) => (kind, { table with workers := sizes kind })) =
        project.verdictOf tree := by
    funext ⟨kind, table⟩
    have same := selection_withWorkers sizes project kind
    unfold verdictOf
    rw [Function.comp_apply, same]
    cases kind <;> rfl
  unfold verdict
  rw [enabledEngines_withWorkers, List.flatMap_map]
  exact congrArg (fun found => (project.config.enabledEngines.flatMap found).filter _) alike

end Project

/-! ### Crews of this process -/

theorem Pool.askEach_cons {σ α : Type} {ask : Nat → Worker σ → Call σ α} {index : Nat}
    {worker : Worker σ} {others : List (Worker σ)} {state middle last : σ}
    {answer : Except Failure α} {answers : List (Except Failure α)}
    (first : ask index worker state = (answer, middle))
    (rest : askEach ask (index + 1) others middle = (answers, last)) :
    askEach ask index (worker :: others) state = (answer :: answers, last) := by
  rw [askEach, first]
  dsimp only
  rw [rest]

namespace Site

structure Beside (crew : Nat) (site later : Site) : Prop where
  project : later.project = site.project
  tree : later.tree = site.tree
  token : later.token = site.token
  others : ∀ other, other ≠ crew → later.crews[other]? = site.crews[other]?

variable {crew : Nat} {site middle later : Site}

theorem Beside.refl (crew : Nat) (site : Site) : Beside crew site site :=
  ⟨rfl, rfl, rfl, fun _ _ => rfl⟩

theorem Beside.trans (first : Beside crew site middle) (second : Beside crew middle later) :
    Beside crew site later :=
  ⟨second.project.trans first.project, second.tree.trans first.tree,
    second.token.trans first.token,
    fun other apart => (second.others other apart).trans (first.others other apart)⟩

theorem beside_modify (crew : Nat) (site : Site) (change : Crew → Crew) :
    Beside crew site { site with crews := site.crews.modify crew change } := by
  refine ⟨rfl, rfl, rfl, fun other apart => ?_⟩
  dsimp only
  rw [List.getElem?_modify]
  cases site.crews[other]? with
  | none => rfl
  | some found => exact congrArg some (if_neg (Ne.symm apart))

theorem beside_setMember (crew index : Nat) (member : Member) (site : Site) :
    Beside crew site (setMember crew index member site) := beside_modify crew site _

theorem beside_leave {held : Pooled Site} (beside : Beside crew site held.around) :
    Beside crew site (leave crew held) := beside.trans (beside_modify crew held.around _)

variable {project : Project} {kind : EngineKind} {table : EngineTable}

theorem local_report (clear : site.token.cancelled = false)
    (readable : (project.selection kind).Readable site.tree) (index : Nat)
    (new : memoryAt crew index site = Memory.new) (change : Change) :
    ∃ later, (localWorker project kind table crew index).report change site =
      (.ok (project.verdictOf site.tree (kind, table)), later) ∧ Beside crew site later := by
  obtain ⟨memory, reported⟩ := @Analyzer.report_readable Site kind table (project.selection kind)
    Site.tree (fun site => site.token.cancelled) site clear readable change
  rw [Selection.survey_issues (EngineTable.filing_examine table kind)] at reported
  refine ⟨setMember crew index (.here memory) site, ?_, beside_setMember _ _ _ _⟩
  have called : (localWorker project kind table crew index).report change site =
      (let (result, memory, after) := (Analyzer.builtIn kind table (project.selection kind) Site.tree
        fun site => site.token.cancelled).report change (memoryAt crew index site) site
      (result, setMember crew index (.here memory) after)) := rfl
  rw [called, new, reported]
  rfl

theorem local_share (clear : site.token.cancelled = false)
    (readable : (project.selection kind).Readable site.tree) (index count : Nat) :
    ∃ later, (localWorker project kind table crew index).reportShare (Partition.of index count) site =
      (.ok ((project.selection kind).surveyShare (table.examine kind) site.tree count index).issues,
        later) ∧ Beside crew site later := by
  have reported := @Analyzer.reportShare_readable Site kind table (project.selection kind)
    Site.tree (fun site => site.token.cancelled) site clear readable index count
    (memoryAt crew index site)
  have called : (localWorker project kind table crew index).reportShare (Partition.of index count)
      site =
      (let (result, memory, after) := (Analyzer.builtIn kind table (project.selection kind) Site.tree
        fun site => site.token.cancelled).reportShare (Partition.of index count)
          (memoryAt crew index site) site
      (result, setMember crew index (.here memory) after)) := rfl
  rw [called, reported]
  exact ⟨_, rfl, beside_setMember _ _ _ _⟩

def locals (project : Project) (kind : EngineKind) (table : EngineTable) (crew : Nat)
    (numbers : List Nat) : List (Worker Site) :=
  numbers.map (localWorker project kind table crew)

theorem askEach_connect_locals (index : Nat) (numbers : List Nat) (site : Site) :
    Pool.askEach (fun _ worker => worker.connect) index (locals project kind table crew numbers)
        site =
      (numbers.map fun _ => .ok (), site) := by
  induction numbers generalizing index with
  | nil => rfl
  | cons number rest ih => exact Pool.askEach_cons rfl (ih (index + 1))

theorem askEach_shares_locals (count : Nat) (clear : site.token.cancelled = false)
    (readable : (project.selection kind).Readable site.tree) (size index : Nat) :
    ∃ later, Pool.askEach
        (fun index worker => worker.reportShare (Partition.of index count)) index
        (locals project kind table crew (List.range' index size)) site =
      (((List.range' index size).map fun number => ((project.selection kind).surveyShare
          (table.examine kind) site.tree count number).issues).map .ok, later) ∧
      Beside crew site later := by
  induction size generalizing site index with
  | zero => exact ⟨site, rfl, .refl crew site⟩
  | succ size ih =>
      obtain ⟨middle, first, beside⟩ := @local_share crew site project kind table clear readable
        index count
      obtain ⟨later, rest, further⟩ := ih (beside.token ▸ clear) (beside.tree ▸ readable)
        (index + 1)
      rw [beside.tree] at rest
      exact ⟨later, Pool.askEach_cons first rest, beside.trans further⟩

theorem release_locals (numbers : List Nat) (site : Site) :
    Pool.release (locals project kind table crew numbers) site = site := by
  induction numbers with
  | nil => rfl
  | cons number rest ih => exact ih

/-- A full run of a pool reports what one worker would, whatever its size. -/
theorem fullRun_locals {pool : Pool Site} (size : Nat) (clear : site.token.cancelled = false)
    (readable : (project.selection kind).Readable site.tree)
    (workers : pool.workers = locals project kind table crew (List.range' 0 (size + 1))) :
    ∃ later, pool.fullRun site = (.ok (project.verdictOf site.tree (kind, table)), later) ∧
      Beside crew site later := by
  have filing := EngineTable.filing_examine table kind
  obtain ⟨middle, shared, beside⟩ := @askEach_shares_locals crew site project kind table (size + 1)
    clear readable (size + 1) 0
  have count : (locals project kind table crew (List.range' 0 (size + 1))).length = size + 1 := by
    unfold locals
    rw [List.length_map, List.length_range']
  have front : locals project kind table crew (List.range' 0 (size + 1)) =
      localWorker project kind table crew 0 ::
        locals project kind table crew (List.range' 1 size) := rfl
  have links := @askEach_connect_locals crew project kind table 0 (List.range' 0 (size + 1)) site
  have linked := Pool.combine_map false ((List.range' 0 (size + 1)).map fun _ => ())
  rw [List.map_map] at linked
  have sorted := @Selection.sort_shares (project.selection kind) (table.examine kind) site.tree size
    filing
  rw [Selection.survey_issues filing] at sorted
  refine ⟨setMember crew 0 (.here ((memoryAt crew 0 middle).seed
    ((project.selection kind).elsewhere (table.examine kind) site.tree size))) middle, ?_,
    beside.trans (beside_setMember _ _ _ _)⟩
  unfold Pool.fullRun
  rw [workers, links]
  dsimp only
  rw [show (List.range' 0 (size + 1)).map (fun _ => (.ok () : Except Failure Unit)) =
    (List.range' 0 (size + 1)).map (Except.ok ∘ fun _ => ()) from rfl, linked]
  dsimp only
  rw [count, shared]
  dsimp only
  rw [Pool.combine_map, front]
  dsimp only
  have seeded (issues : List Issue) : (localWorker project kind table crew 0).seed issues middle =
      (.ok (), setMember crew 0 (.here ((memoryAt crew 0 middle).seed issues)) middle) := rfl
  rw [seeded]
  dsimp only
  rw [release_locals]
  exact Prod.ext (congrArg Except.ok sorted) rfl

def localCrew (engine : EngineKind × EngineTable) : Crew :=
  ⟨engine.1, engine.2, List.replicate (max engine.2.workers 1) (.here Memory.new), false⟩

theorem workers_localCrew (project : Project) (crew : Nat) (engine : EngineKind × EngineTable) :
    ∃ size, (poolOf project crew (localCrew engine)).workers =
      locals project engine.1 engine.2 crew (List.range' 0 (size + 1)) := by
  obtain ⟨size, count⟩ : ∃ size, max engine.2.workers 1 = size + 1 :=
    ⟨max engine.2.workers 1 - 1, by omega⟩
  refine ⟨size, ?_⟩
  unfold poolOf localCrew
  dsimp only
  rw [count, Session.zipIdx_replicate, List.map_map, List.range_eq_range']
  rfl

theorem memoryAt_localCrew {engine : EngineKind × EngineTable}
    (here : site.crews[crew]? = some (localCrew engine)) : memoryAt crew 0 site = Memory.new := by
  obtain ⟨size, count⟩ : ∃ size, max engine.2.workers 1 = size + 1 :=
    ⟨max engine.2.workers 1 - 1, by omega⟩
  unfold memoryAt member?
  rw [here]
  unfold localCrew
  rw [Option.bind_some, count, List.replicate_succ]
  rfl

theorem report_localCrew {engine : EngineKind × EngineTable}
    (here : site.crews[crew]? = some (localCrew engine)) (clear : site.token.cancelled = false)
    (readable : (site.project.selection engine.1).Readable site.tree) (change : Change) :
    ∃ later, report crew change site = (.ok (site.project.verdictOf site.tree engine), later) ∧
      Beside crew site later := by
  obtain ⟨size, workers⟩ := workers_localCrew site.project crew engine
  unfold report
  rw [here]
  dsimp only
  rw [workers]
  cases size with
  | zero => exact local_report clear readable 0 (memoryAt_localCrew here) change
  | succ size =>
      obtain ⟨later, ran, beside⟩ := fullRun_locals (size + 1) clear readable workers
      have reported : (poolOf site.project crew (localCrew engine)).report change ⟨false, site⟩ =
          (.ok (site.project.verdictOf site.tree engine), ⟨true, later⟩) := by
        have unsignalled : (poolOf site.project crew (localCrew engine)).signalled site = false :=
          clear
        unfold Pool.report
        dsimp only
        rw [if_neg Bool.false_ne_true, unsignalled, if_neg Bool.false_ne_true, ran]
      refine ⟨leave crew ⟨true, later⟩, ?_, beside_leave beside⟩
      change inPool crew (localCrew engine) (fun pool => pool.report change) site = _
      unfold inPool
      rw [show (localCrew engine).done = false from rfl]
      dsimp only
      rw [reported]

theorem connect_localCrew (crews : ∀ found, site.crews[crew]? = some found →
      ∃ engine, found = localCrew engine) : connect crew site = (.ok (), site) := by
  unfold connect
  cases here : site.crews[crew]? with
  | none => rfl
  | some found =>
      obtain ⟨engine, rfl⟩ := crews found here
      obtain ⟨size, workers⟩ := workers_localCrew site.project crew engine
      have connected : (poolOf site.project crew (localCrew engine)).connect ⟨false, site⟩ =
          (.ok (), ⟨false, site⟩) := by
        unfold Pool.connect
        rw [workers, List.range'_succ]
        rfl
      have same : leave crew ⟨false, site⟩ = site := by
        have kept : site.crews.modify crew (fun found => { found with done := false }) =
            site.crews := by
          apply List.ext_getElem?
          intro other
          rw [List.getElem?_modify]
          by_cases own : crew = other
          · subst own
            rw [here]
            exact congrArg some (if_pos rfl)
          · cases site.crews[other]? with
            | none => rfl
            | some found => exact congrArg some (if_neg own)
        unfold leave
        rw [kept]
      dsimp only
      unfold inPool
      rw [show (localCrew engine).done = false from rfl, connected]
      exact congrArg (Except.ok (), ·) same

/-! ### A site of this process -/

/-- A site whose workers are all in this process, before anything has happened. -/
def atRest (project : Project) (tree : FileTree) : Site :=
  ⟨project, tree, ⟨0, false⟩, project.config.enabledEngines.map localCrew, []⟩

theorem engineTable_of_enabled {engine : EngineKind × EngineTable}
    (member : engine ∈ project.config.enabledEngines) :
    project.engineTable engine.1 = .ok engine.2 := by
  have found := Option.filter_eq_some_iff.mpr (Config.mem_enabledEngines.mp member)
  unfold Project.engineTable
  rw [found]

theorem new_inProcess (project : Project) (tree : FileTree) :
    Site.new project .inProcess tree = .ok (atRest project tree) := by
  have crews (engines : List (EngineKind × EngineTable))
      (known : ∀ engine ∈ engines, project.engineTable engine.1 = .ok engine.2) :
      (engines.map Prod.fst).mapM (crewOf project .inProcess) = .ok (engines.map localCrew) := by
    induction engines with
    | nil => rfl
    | cons engine rest ih =>
        have first : crewOf project .inProcess engine.1 = .ok (localCrew engine) := by
          unfold crewOf
          rw [known engine List.mem_cons_self]
          rfl
        rw [List.map_cons, List.mapM_cons, first,
          ih fun other member => known other (List.mem_cons_of_mem _ member)]
        rfl
  unfold Site.new
  rw [crews _ fun engine => engineTable_of_enabled]
  rfl

theorem answers_localCrews {tree : FileTree} (change : Change)
    (engines : List (EngineKind × EngineTable)) (first : Nat) (sameProject : site.project = project) (sameTree : site.tree = tree)
    (readable : ∀ engine ∈ engines, (project.selection engine.1).Readable tree)
    (crews : ∀ index engine, engines[index]? = some engine →
      site.crews[first + index]? = some (localCrew engine)) :
    ∃ later, Session.Answer reporters change (List.range' first engines.length) site
      ((engines.map (project.verdictOf tree)).map .ok) later := by
  induction engines generalizing site first with
  | nil => exact ⟨site, .none site⟩
  | cons engine rest ih =>
      obtain ⟨middle, reported, beside⟩ := @report_localCrew first
        { site with token := ⟨1, false⟩ } engine (crews 0 engine rfl) rfl
        (by
          change (site.project.selection engine.1).Readable site.tree
          rw [sameProject, sameTree]
          exact readable engine List.mem_cons_self) change
      have others : ∀ index other, rest[index]? = some other →
          middle.crews[first + 1 + index]? = some (localCrew other) := by
        intro index other found
        rw [beside.others _ (by omega), show first + 1 + index = first + (index + 1) by omega]
        exact crews (index + 1) other found
      obtain ⟨later, answers⟩ := ih (first + 1) (beside.project.trans sameProject)
        (beside.tree.trans sameTree)
        (fun other member => readable other (List.mem_cons_of_mem _ member)) others
      have asked : reporters.ask 1 first change false site =
          Prod.map some id (report first change { site with token := ⟨1, false⟩ }) := rfl
      refine ⟨later, .next first _ site middle later _ _ ?_ answers⟩
      rw [asked, reported]
      change (some (Except.ok (site.project.verdictOf site.tree engine)), middle) = _
      rw [sameProject, sameTree]

variable {tree : FileTree}

theorem connect_atRest (reporter : Nat) :
    connect reporter (atRest project tree) = (.ok (), atRest project tree) := by
  refine connect_localCrew fun found here => ?_
  unfold atRest at here
  rw [List.getElem?_map] at here
  obtain ⟨engine, _, made⟩ := Option.map_eq_some_iff.mp here
  exact ⟨engine, made.symm⟩

theorem session_atRest :
    (atRest project tree).session =
      Session.new project.engineNames (IssueFilter.ofTable project.config.issues) := by
  unfold Site.session atRest Project.engineNames
  rw [List.map_map]
  rfl

theorem answers_atRest (change : Change)
    (readable : ∀ engine ∈ project.config.enabledEngines,
      (project.selection engine.1).Readable tree) :
    ∃ later, Session.Answer reporters change (List.range project.engineNames.length)
      (atRest project tree) ((project.config.enabledEngines.map (project.verdictOf tree)).map .ok)
      later := by
  have crews : ∀ index engine, project.config.enabledEngines[index]? = some engine →
      (atRest project tree).crews[0 + index]? = some (localCrew engine) := by
    intro index engine here
    unfold atRest
    rw [Nat.zero_add, List.getElem?_map, here]
    rfl
  have length : project.engineNames.length = project.config.enabledEngines.length :=
    List.length_map _
  rw [length, List.range_eq_range']
  exact answers_localCrews change _ 0 rfl rfl readable crews

/-- The first cycle of a site at rest settles with the verdict on its project. -/
theorem settle_atRest
    (readable : ∀ engine ∈ project.config.enabledEngines,
      (project.selection engine.1).Readable tree) :
    ∃ change later, (Workplace.new (atRest project tree)).settle [Change.empty] =
      ⟨Session.once project.engineNames (IssueFilter.ofTable project.config.issues) change
        (.settled (.resolved (project.verdict tree))), later, PathMap.empty⟩ := by
  let filter := IssueFilter.ofTable project.config.issues
  let change := (PendingChanges.empty.accumulate Change.empty).pending
  obtain ⟨later, answers⟩ := answers_atRest change readable
  have ran := @Session.idle_first Site reporters project.engineNames filter change _ later _
    (fun reporter => connect_atRest reporter) answers
  have length : project.engineNames.length =
      (project.config.enabledEngines.map (project.verdictOf tree)).length := by
    unfold Project.engineNames
    rw [List.length_map, List.length_map]
  rw [Session.outcomeOf_reports _ length] at ran
  have triggered : (Workplace.new (atRest project tree)).trigger Change.empty =
      ⟨{ Session.once project.engineNames filter change .queued with tasks := [.cycle 1] },
        atRest project tree, PathMap.empty⟩ := by
    unfold Workplace.trigger Workplace.carry Workplace.new
    dsimp only
    rw [session_atRest, Session.trigger_new]
  refine ⟨change, later, ?_⟩
  unfold Workplace.settle
  rw [List.foldl_cons, List.foldl_nil, triggered]
  exact congrArg (fun next => (⟨next.1, next.2, PathMap.empty⟩ : Workplace)) ran

theorem analyzeOnce_atRest
    (readable : ∀ engine ∈ project.config.enabledEngines,
      (project.selection engine.1).Readable tree) :
    Commands.analyzeOnce (atRest project tree) = some (.resolved (project.verdict tree)) := by
  obtain ⟨change, later, settled⟩ := settle_atRest readable
  have ended := @Session.outcome?_ended Site reporters project.engineNames
    (IssueFilter.ofTable project.config.issues) change (fun _ _ => rfl)
    (.resolved (project.verdict tree)) later
  refine (congrArg (fun place => place.teardown.outcome? 1) settled).trans ?_
  unfold Workplace.outcome? Workplace.teardown Workplace.idle Workplace.carry
  dsimp only at ended ⊢
  exact ended

end Site

theorem Tally.hasErrors_iff (issues : List Issue) :
    (Tally.ofIssues issues).hasErrors = true ↔ ∃ issue ∈ issues, issue.severity = .error := by
  unfold Tally.hasErrors Tally.ofIssues
  rw [decide_eq_true_iff]
  refine List.countP_pos_iff.trans (exists_congr fun issue => ?_)
  rw [decide_eq_true_iff]

namespace Commands

section

variable {settings : Settings} {tree : FileTree} {here : SourcePath} {project : Project}

theorem openSite_inProcess (opened : openProject settings tree here = .ok project) :
    openSite settings true tree here = .ok (Site.atRest project tree) := by
  unfold openSite
  rw [opened]
  change (Site.new project .inProcess tree).mapError AnalysisError.describe = _
  rw [Site.new_inProcess]
  rfl

theorem code_checkSite {site : Site} {issues : List Issue}
    (resolved : analyzeOnce site = some (.resolved issues)) (format : ReportFormat)
    (terminal : Bool) :
    (checkSite settings format terminal site).code =
      if ∃ issue ∈ issues, issue.severity = .error then 1 else 0 := by
  unfold checkSite
  rw [resolved]
  exact if_congr (Tally.hasErrors_iff issues) rfl rfl

/-- A check of a project in this process resolves with the verdict on the project, if all that
discovery searches can be listed and all that it finds can be read, and its exit code says whether
that holds an error. With any other numbers of workers it comes to the same. -/
theorem check_comes_to_verdict (opened : openProject settings tree here = .ok project)
    (readable : ∀ engine ∈ project.config.enabledEngines,
      (project.selection engine.1).Readable tree)
    (format : ReportFormat) (terminal : Bool) :
    let code := if ∃ issue ∈ project.verdict tree, issue.severity = .error then 1 else 0
    (∃ site, openSite settings true tree here = .ok site ∧
        analyzeOnce site = some (.resolved (project.verdict tree))) ∧
      (check settings format true terminal tree here).code = code ∧
      ∀ sizes, ∃ site, Site.new (project.withWorkers sizes) .inProcess tree = .ok site ∧
        analyzeOnce site = some (.resolved (project.verdict tree)) ∧
        (checkSite settings format terminal site).code = code := by
  intro code
  have verdict := Site.analyzeOnce_atRest readable
  have checked : check settings format true terminal tree here =
      checkSite settings format terminal (Site.atRest project tree) := by
    unfold check
    rw [openSite_inProcess opened]
  refine ⟨⟨_, openSite_inProcess opened, verdict⟩, ?_, fun sizes => ?_⟩
  · rw [checked]
    exact code_checkSite verdict format terminal
  · have resized : ∀ engine ∈ (project.withWorkers sizes).config.enabledEngines,
        ((project.withWorkers sizes).selection engine.1).Readable tree := by
      rw [Project.enabledEngines_withWorkers]
      intro engine member
      obtain ⟨original, present, rfl⟩ := List.mem_map.mp member
      rw [Project.selection_withWorkers]
      exact readable original present
    have same := Site.analyzeOnce_atRest resized
    rw [Project.verdict_withWorkers] at same
    exact ⟨_, Site.new_inProcess _ tree, same, code_checkSite same format terminal⟩

end

/-! A project with an engine of three workers and one of two, whose warning is not published. -/
namespace Demo

def configuration : String :=
  "[project]\nname = \"demo\"\n[engines.check]\nworkers = 3\n[engines.lint]\nworkers = 2\n" ++
    "[issues]\nexclude_codes = [\"trailing-whitespace\"]\n"

def tree : FileTree :=
  ⟨[(["work"], .directory), (["work", "vigil.toml"], .file (Utf8.encode configuration)),
    (["work", "src"], .directory), (["work", "src", "a.ts"], .file (Utf8.encode "call(")),
    (["work", "src", "b.ts"], .file (Utf8.encode "call();  \ncall]"))]⟩

def settings : Settings := ⟨false, false, .auto, none⟩

/-- The table of an engine that is configured by its workers alone. -/
def engine (workers : Nat) : EngineTable := ⟨true, workers, none, none, [], [], 120⟩

def project : Project :=
  { root := ⟨"/work"⟩
    configPath := ⟨"/work/vigil.toml"⟩
    config :=
      { project := ⟨"demo", ""⟩
        files := .standard
        watch := .standard
        engines := ⟨some (engine 3), some (engine 2)⟩
        issues := { IssuesTable.standard with excludedCodes := ["trailing-whitespace"] } } }

def unclosed : Issue :=
  ⟨⟨"src/a.ts"⟩, 1, 5, .error, "E001", "unclosed delimiter '('", .typeCheck⟩

def unexpected : Issue :=
  ⟨⟨"src/b.ts"⟩, 2, 5, .error, "E002", "unexpected closing delimiter ']'", .typeCheck⟩

def trailing : Issue :=
  ⟨⟨"src/b.ts"⟩, 1, 8, .warning, "trailing-whitespace", "trailing whitespace", .lint⟩

theorem verdict : project.verdict tree = [unclosed, unexpected] := by
  have found : (project.selection .check).findings Delimiters.analyze tree =
      [unclosed, unexpected] := by decide +kernel
  have checked : project.verdictOf tree (.check, engine 3) = [unclosed, unexpected] := by
    change Issue.sort ((project.selection .check).findings Delimiters.analyze tree) = _
    rw [found]
    exact List.mergeSort_of_pairwise (by decide)
  have linted : project.verdictOf tree (.lint, engine 2) = [trailing] := by decide +kernel
  have engines : project.config.enabledEngines = [(.check, engine 3), (.lint, engine 2)] := rfl
  unfold Project.verdict
  rw [engines, List.flatMap_cons, List.flatMap_singleton, checked, linted]
  decide +kernel

end Demo

/-- The project has two errors to be shown, and so it has with any numbers of workers. -/
theorem check_of_demo :
    (∃ site, openSite Demo.settings true Demo.tree ⟨"/work"⟩ = .ok site ∧
        analyzeOnce site = some (.resolved [Demo.unclosed, Demo.unexpected])) ∧
      (check Demo.settings .text true false Demo.tree ⟨"/work"⟩).code = 1 ∧
      ∀ sizes, ∃ site,
        Site.new (Demo.project.withWorkers sizes) .inProcess Demo.tree = .ok site ∧
        analyzeOnce site = some (.resolved [Demo.unclosed, Demo.unexpected]) ∧
        (checkSite Demo.settings .text false site).code = 1 := by
  have opened : openProject Demo.settings Demo.tree ⟨"/work"⟩ = .ok Demo.project := by
    apply Analyzer.eq_ok_of_toOption
    decide +kernel
  have read : ∀ engine ∈ Demo.project.config.enabledEngines,
      ∀ file ∈ (Demo.project.selection engine.1).inventory Demo.tree,
        (Demo.tree.read ((Demo.project.selection engine.1).root.join file)).toOption.isSome =
          true := by
    decide +kernel
  have readable : ∀ engine ∈ Demo.project.config.enabledEngines,
      (Demo.project.selection engine.1).Readable Demo.tree := by
    refine fun engine enabled => ⟨Selection.explorable_of_unlocked (by decide), ?_⟩
    intro file discovered
    obtain ⟨bytes, content⟩ := Option.isSome_iff_exists.mp (read engine enabled file discovered)
    exact ⟨bytes, Analyzer.eq_ok_of_toOption content⟩
  have found := check_comes_to_verdict opened readable .text false
  rw [Demo.verdict] at found
  exact found

/-! All files of a project can be read, and a directory that it excludes may not be listed. -/
namespace Closed

def configuration : String :=
  "[project]\nname = \"demo\"\n[files]\nexclude = [\"src/private\"]\n[engines.check]\n"

def tree : FileTree :=
  ⟨[(["work"], .directory), (["work", "vigil.toml"], .file (Utf8.encode configuration)),
    (["work", "src"], .directory), (["work", "src", "a.ts"], .file (Utf8.encode "call()")),
    (["work", "src", "private"], .lockedDirectory)]⟩

def project : Project :=
  { Demo.project with
    config := { Demo.project.config with
      files := { FilesTable.standard with excluded := ["src/private"] }
      engines := ⟨some (Demo.engine 1), none⟩
      issues := .standard } }

end Closed

/-- A check fails though all files can be read, for discovery wants to list a directory in which
it would select nothing. -/
theorem check_fails_at_closed_directory :
    openProject Demo.settings Closed.tree ⟨"/work"⟩ = .ok Closed.project ∧
      (∀ path, Closed.tree.isFile path = true → ∃ bytes, Closed.tree.read path = .ok bytes) ∧
      (check Demo.settings .text true false Closed.tree ⟨"/work"⟩).code = 2 := by
  refine ⟨?_, fun path isFile => FileTree.read_of_isFile (by decide) isFile, ?_⟩
  · apply Analyzer.eq_ok_of_toOption
    decide +kernel
  · decide +kernel

end Commands

end Reanalysis
