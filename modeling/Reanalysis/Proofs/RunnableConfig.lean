/-
What comes of a configuration that is accepted. A site in this process can be made of it, with one
crew for each engine that is enabled and with workers in each; and nothing that happens there ever
fails because an engine is switched off or has no workers.
-/

import Reanalysis.Proofs.CheckVerdict
import Reanalysis.Proofs.ConfinedSites
import Reanalysis.Workplace

namespace Reanalysis

/-- An error that says that some engine is switched off, or has no workers. -/
def AnalysisError.Unstaffed (error : AnalysisError) : Prop :=
  ∃ name : String, error = .configuration ("engine '" ++ name ++ "' is not enabled") ∨
    error = .configuration ("engine '" ++ name ++ "' has no workers")

theorem ConfigError.unreadable_ne (directory : SourcePath) (rest : String) :
    (unreadable directory .permissionDenied).describe ≠ "engine '" ++ rest := by
  have unread : "failed to read ".toList.head? = some 'f' := by decide
  have staff : "engine '".toList.head? = some 'e' := by decide
  have differ : 'f' ≠ 'e' := by decide
  intro same
  have letters := congrArg (fun text : String => text.toList.head?) same
  dsimp only [describe] at letters
  simp only [String.toList_append, List.head?_append, unread, staff, Option.some_or] at letters
  exact differ (Option.some.inj letters)

theorem AnalysisError.IsOf.staffed {name : String} {cause : AnalysisError} (own : cause.IsOf name) :
    ¬cause.Unstaffed := by
  have apart (rest message : String) (isOf : (configuration message).IsOf name) :
      message ≠ "engine '" ++ rest := by
    obtain ⟨directory, written⟩ : ∃ directory : SourcePath,
      message = (ConfigError.unreadable directory .permissionDenied).describe := isOf
    rw [written]
    exact ConfigError.unreadable_ne directory rest
  rintro ⟨engine, rfl | rfl⟩
  · exact apart _ _ own (String.append_assoc ..)
  · exact apart _ _ own (String.append_assoc ..)

def Failure.OfEngine (failure : Failure) : Prop :=
  ∃ (kind : EngineKind) (cause : AnalysisError), failure = .error cause ∧ cause.IsOf kind.name

theorem Failure.OfEngine.toError_staffed {failure : Failure} (own : failure.OfEngine)
    (engine : String) : ¬(failure.toError engine).Unstaffed := by
  obtain ⟨kind, cause, rfl, isOf⟩ := own
  exact isOf.staffed

/-- A crew with at least one worker, and none outside this process. -/
structure Crew.Staffed (crew : Crew) : Prop where
  present : crew.members ≠ []
  here : ∀ member ∈ crew.members, ∃ memory, member = .here memory

namespace Site

variable {site : Site}

def Staffed (site : Site) : Prop := ∀ crew ∈ site.crews, crew.Staffed

theorem Staffed.modify (staffed : site.Staffed) (crew : Nat) {change : Crew → Crew}
    (kept : ∀ found : Crew, found.Staffed → (change found).Staffed) :
    { site with crews := site.crews.modify crew change }.Staffed := by
  intro later member
  obtain ⟨index, here⟩ := List.mem_iff_getElem?.mp member
  rw [List.getElem?_modify] at here
  obtain ⟨before, found, rfl⟩ := Option.map_eq_some_iff.mp here
  have held := staffed before (List.mem_of_getElem? found)
  split
  · exact kept before held
  · exact held

theorem Staffed.setMember (staffed : site.Staffed) (crew index : Nat) (memory : Memory) :
    (setMember crew index (.here memory) site).Staffed := by
  refine staffed.modify crew fun found held => ⟨?_, fun member is => ?_⟩
  · exact mt (List.set_eq_nil_iff ..).mp held.present
  · rcases List.mem_or_eq_of_mem_set is with old | new
    · exact held.here member old
    · exact ⟨memory, new⟩

/-- The pools of a staffed site leave it so, and fail only as engines do. -/
theorem Staffed.pool_confined (staffed : site.Staffed) {crew : Nat} {found : Crew}
    (here : site.crews[crew]? = some found) :
    (poolOf site.project crew found).Confined Staffed Failure.OfEngine := by
  have crewed := staffed found (List.mem_of_getElem? here)
  constructor
  case workers =>
    intro worker member
    obtain ⟨index, held, is, rfl⟩ := mem_poolOf member
    obtain ⟨memory, rfl⟩ := crewed.here held is
    exact localWorker_confined _ _ (fun memory _ kept => kept.setMember crew index memory)
      fun cause own => ⟨found.kind, cause, rfl, own⟩
  case crewed =>
    intro none
    have nobody : found.members = [] := List.zipIdx_eq_nil_iff.mp (List.map_eq_nil_iff.mp none)
    exact absurd nobody crewed.present
  case cancelled => exact ⟨.check, .cancelled, rfl, trivial⟩

theorem reporters_staffed : reporters.Confined Staffed Failure.OfEngine :=
  reporters_confined (fun _ _ _ staffed here => staffed.pool_confined here)
    (fun crew _ staffed => staffed.modify crew fun _ held => ⟨held.present, held.here⟩)
    (fun _ _ staffed => staffed) (fun _ _ staffed => staffed)

end Site

/-! ### Workplaces -/

namespace Workplace

/-- What may happen at a workplace. Besides whole runs, single calls to reporters and single events
may come in any order, as those of cycles that overlap. -/
inductive Act where
  | edit (tree : FileTree)
  | trigger (change : Change)
  | deliver (report : Nat)
  | post (event : HostEvent)
  | run
  | tearDown
  | hear (event : HostEvent)
  | look
  | connect (report reporter : Nat)
  | carryOut (command : Command)
  /-- An event that brings no failure with it. -/
  | note (event : Event) (calm : event.Within fun _ => False)

def act (place : Workplace) : Act → Workplace
  | .edit tree => place.withTree tree
  | .trigger change => place.trigger change
  | .deliver report => { place with session := place.session.deliver report }
  | .post event => { place with session := place.session.post event }
  | .run => place.idle
  | .tearDown => place.teardown
  | .hear event => (place.hear event).1
  | .look => (place.scan.toOption.map Prod.snd).getD place
  | .connect report reporter =>
      let (result, site) := Site.reporters.connect reporter place.site
      place.carry (place.session.note (.connected report reporter result), site)
  | .carryOut command =>
      place.carry (place.session.performLast Site.reporters place.site [command])
  | .note event _ => { place with session := place.session.note event }

/-- No cycle has failed because an engine is switched off or has no workers, and no reporter would
fail so now. -/
structure WellStaffed (place : Workplace) : Prop where
  cycles : ∀ report error, place.outcome? report = some (.errored error) → ¬error.source.Unstaffed
  connect : ∀ reporter cause,
    (Site.reporters.connect reporter place.site).1 = .error (.error cause) → ¬cause.Unstaffed
  ask : ∀ report reporter change signalled cause,
    (Site.reporters.ask report reporter change signalled place.site).1 =
      some (.error (.error cause)) → ¬cause.Unstaffed

def Staffed (place : Workplace) : Prop :=
  Session.Confined Site.Staffed Failure.OfEngine (place.session, place.site)

variable {place : Workplace}

theorem Staffed.idle (staffed : place.Staffed) : place.idle.Staffed :=
  Session.Confined.idle staffed Site.reporters_staffed

theorem Staffed.carry {next : Session × Site}
    (confined : Session.Confined Site.Staffed Failure.OfEngine next) : (place.carry next).Staffed :=
  confined

theorem Staffed.act (staffed : place.Staffed) (act : Act) : (place.act act).Staffed := by
  have confined : Session.Confined Site.Staffed Failure.OfEngine (place.session, place.site) :=
    staffed
  cases act with
  | edit tree => exact ⟨confined.life, confined.tasks, confined.around⟩
  | trigger change => exact .carry (confined.trigger Site.reporters_staffed change)
  | deliver report => exact confined.begun (List.forall_mem_singleton.mpr trivial)
  | post event => exact ⟨confined.life, confined.tasks, confined.around⟩
  | run => exact staffed.idle
  | tearDown => exact (Staffed.carry (confined.teardown Site.reporters_staffed)).idle
  | hear event =>
      have posted : { place with session := place.session.post event }.Staffed :=
        ⟨confined.life, confined.tasks, confined.around⟩
      have heard := posted.idle
      exact ⟨heard.life, heard.tasks, heard.around⟩
  | look =>
      unfold Workplace.act Workplace.scan
      cases place.site.project.snapshot place.site.tree with
      | error cause => exact staffed
      | ok current => exact staffed
  | connect report reporter =>
      obtain ⟨fits, kept⟩ := Site.reporters_staffed.connect reporter place.site confined.around
      exact .carry ((confined.within kept).note (.connected report reporter _) fits)
  | carryOut command => exact .carry (confined.performLast Site.reporters_staffed [command])
  | note event calm => exact confined.note event (calm.mono fun _ => False.elim)

theorem Staffed.acts (staffed : place.Staffed) (acts : List Act) :
    (acts.foldl Workplace.act place).Staffed := by
  induction acts generalizing place with
  | nil => exact staffed
  | cons act rest ih => exact ih (staffed.act act)

theorem Staffed.wellStaffed (staffed : place.Staffed) : place.WellStaffed := by
  constructor
  case cycles =>
    intro report error failed
    obtain ⟨failure, own, source⟩ := staffed.life.source failed
    rw [source]
    exact own.toError_staffed error.engine
  case connect =>
    intro reporter cause failed
    have own := (Site.reporters_staffed.connect reporter place.site staffed.around).1 _ failed
    exact own.toError_staffed ""
  case ask =>
    intro report reporter change signalled cause failed
    have own := (Site.reporters_staffed.ask report reporter change signalled place.site
      staffed.around).1 _ failed _ rfl
    exact own.toError_staffed ""

end Workplace

namespace Site

theorem staffed_atRest (project : Project) (tree : FileTree) : (atRest project tree).Staffed := by
  intro crew member
  obtain ⟨engine, _, rfl⟩ := List.mem_map.mp member
  refine ⟨?_, fun member is => ⟨Memory.new, List.eq_of_mem_replicate is⟩⟩
  exact mt (congrArg List.length) (by
    change (List.replicate _ _).length ≠ 0
    rw [List.length_replicate]
    omega)

end Site

namespace Config

/-- A configuration is accepted just if it is runnable, whatever it says about engines that are
switched off. Under any root, a site can then be made of it with a crew for each enabled engine;
a crew is a pool unless it is one worker, so it has two to 64. Whatever happens there, no cycle
fails because an engine is switched off or has no workers. -/
theorem accepted_runs (config : Config) :
    (config.validate = .ok () ↔ config.Runnable) ∧
      (∀ engines : EnginesTable,
        (∀ kind, (engines.find? kind).filter EngineTable.enabled =
          (config.engines.find? kind).filter EngineTable.enabled) →
        { config with engines := engines }.validate = config.validate) ∧
      (config.validate = .ok () → ∀ (root configPath : SourcePath) (tree : FileTree),
        ∃ site, Site.new ⟨root, configPath, config⟩ .inProcess tree = .ok site ∧
          site.crews.map Crew.kind = EngineKind.all.filter config.enables ∧
          (∀ crew ∈ site.crews, config.engines.find? crew.kind = some crew.table ∧
            crew.members.length = crew.table.workers ∧
            (crew.members.length ≠ 1 → 2 ≤ crew.members.length ∧ crew.members.length ≤ 64)) ∧
          ∀ acts : List Workplace.Act,
            (acts.foldl Workplace.act (Workplace.new site)).WellStaffed) := by
  refine ⟨validate_eq_ok_iff, fun engines => validate_of_enabled, fun accepted root path tree => ?_⟩
  have runnable := validate_eq_ok_iff.mp accepted
  refine ⟨Site.atRest ⟨root, path, config⟩ tree, Site.new_inProcess _ tree, ?_,
    fun crew member => ?_, fun acts => ?_⟩
  · rw [← kinds_enabledEngines]
    exact List.map_map
  · obtain ⟨⟨kind, table⟩, enabled, rfl⟩ := List.mem_map.mp member
    obtain ⟨found, on⟩ := mem_enabledEngines.mp enabled
    have bounds := (runnable.engines kind table found on).workers
    have count : (Site.localCrew (kind, table)).members.length = table.workers :=
      (List.length_replicate ..).trans (Nat.max_eq_left bounds.1)
    refine ⟨found, count, fun several => ?_⟩
    rw [count] at several ⊢
    omega
  · have fresh : (Workplace.new (Site.atRest ⟨root, path, config⟩ tree)).Staffed :=
      ⟨Lifecycle.within_new _ _, List.forall_mem_nil _, Site.staffed_atRest _ tree⟩
    exact (fresh.acts acts).wellStaffed

namespace SwitchedOff

def broken : EngineTable := ⟨false, 0, some [], none, [], [], 0⟩

def linting : EngineTable := ⟨true, 3, none, none, [], [], 120⟩

def config : Config :=
  { project := ⟨"demo", ""⟩
    files := .standard
    watch := .standard
    engines := ⟨some broken, some linting⟩
    issues := .standard }

def acts : List Workplace.Act :=
  [.trigger Change.empty, .run, .edit .empty, .trigger Change.empty, .trigger Change.empty,
    .note (.start 2) trivial, .connect 2 0, .note (.start 3) trivial,
    .carryOut (.ask 2 0 Change.empty true), .connect 3 0, .carryOut (.ask 3 0 Change.empty false)]

end SwitchedOff

open SwitchedOff in
/-- An engine that is switched off is of no account, and the other has a pool of three. -/
theorem accepted_runs_of_switched_off :
    (config.validate = .ok () ∧ config.Runnable) ∧
      { config with engines := ⟨none, some linting⟩ }.validate = .ok () ∧
      ∃ site, Site.new ⟨⟨"/work"⟩, ⟨"/work/vigil.toml"⟩, config⟩ .inProcess .empty = .ok site ∧
        site.crews.map Crew.kind = [.lint] ∧
        (∀ crew ∈ site.crews, crew.members.length = 3 ∧ crew.members.length ≤ 64) ∧
        (acts.foldl Workplace.act (Workplace.new site)).WellStaffed := by
  obtain ⟨accepts, unread, runs⟩ := accepted_runs config
  have accepted : config.validate = .ok () := rfl
  have alike : ∀ kind,
      ((⟨none, some linting⟩ : EnginesTable).find? kind).filter EngineTable.enabled =
        (config.engines.find? kind).filter EngineTable.enabled := by
    intro kind
    cases kind <;> rfl
  obtain ⟨site, made, kinds, sizes, lasting⟩ := runs accepted ⟨"/work"⟩ ⟨"/work/vigil.toml"⟩ .empty
  refine ⟨⟨accepted, accepts.mp accepted⟩, (unread _ alike).trans accepted, site, made, kinds,
    fun crew member => ?_, lasting acts⟩
  have lint : crew.kind ∈ EngineKind.all.filter config.enables := kinds ▸ List.mem_map_of_mem member
  obtain ⟨found, count, bounds⟩ := sizes crew member
  rw [List.mem_singleton.mp (show crew.kind ∈ [EngineKind.lint] from lint)] at found
  have three : crew.members.length = 3 := by
    rw [count, ← Option.some.inj found]
    rfl
  exact ⟨three, (bounds (by omega)).2⟩

end Config

end Reanalysis
