/-
A pool of workers beside a single reporter. The first run that succeeds in a pool reports
what one reporter would report, and leaves its first worker with a memory like that of
the one reporter, though other workers have found a part of what it holds. From then on
the two answer all calls alike.
-/

import Reanalysis.Engine.BuiltIn
import Reanalysis.Proofs.AlikeMemories
import Reanalysis.Proofs.Shares

namespace Reanalysis

/-- What the workers of a pool remember, by their numbers, and what they find around them. -/
structure Staff (σ : Type) where
  memories : Nat → Memory
  around : σ

def Staff.hold {σ : Type} (index : Nat) (memory : Memory) (staff : Staff σ) : Staff σ :=
  { staff with memories := fun other => if other = index then memory else staff.memories other }

theorem Staff.memories_hold {σ : Type} (index : Nat) (memory : Memory) (staff : Staff σ) :
    (staff.hold index memory).memories index = memory := if_pos rfl

theorem Staff.memories_hold_of_ne {σ : Type} {index other : Nat} (apart : other ≠ index)
    (memory : Memory) (staff : Staff σ) :
    (staff.hold index memory).memories other = staff.memories other := if_neg apart

theorem EngineTable.filing_examine (table : EngineTable) (kind : EngineKind) :
    Filing (table.examine kind) := by
  intro file text issue member
  have here : issue.file = file := by
    cases kind with
    | check =>
        obtain ⟨defect, _inDefects, rfl⟩ := List.mem_map.mp member
        rfl
    | lint =>
        obtain ⟨rule, _inRules, applied⟩ := List.mem_flatMap.mp member
        unfold LineRules.apply at applied
        split at applied
        · cases applied
        · obtain ⟨violation, _inViolations, rfl⟩ := List.mem_map.mp applied
          rfl
  rw [here]
  exact SourcePath.same_refl file

namespace Analyzer

variable {σ : Type} (analyzer : Analyzer σ)

def amid : Analyzer (Staff σ) :=
  { name := analyzer.name
    selection := analyzer.selection
    tree := fun staff => analyzer.tree staff.around
    read := fun path staff => analyzer.read path staff.around
    signalled := fun staff => analyzer.signalled staff.around
    examine := fun file text staff =>
      ((analyzer.examine file text staff.around).1,
        { staff with around := (analyzer.examine file text staff.around).2 }) }

/-- The worker with a number, which runs an analyzer over a memory of its own. -/
def employed (index : Nat) : Worker (Staff σ) :=
  analyzer.amid.worker (fun staff => staff.memories index) (Staff.hold index)

def hire (index : Nat) : List (Analyzer σ) → List (Worker (Staff σ))
  | [] => []
  | analyzer :: rest => analyzer.employed index :: hire (index + 1) rest

variable {analyzer} {engine : SourcePath → String → List Issue}

theorem visit_amid (file : SourcePath) (staff : Staff σ) :
    analyzer.amid.visit file staff =
      ((analyzer.visit file staff.around).1,
        { staff with around := (analyzer.visit file staff.around).2 }) := by
  unfold visit amid
  dsimp only
  cases analyzer.read (analyzer.selection.root.join file) staff.around with
  | ok bytes => rfl
  | error fault => cases fault <;> rfl

theorem work_amid (files : List SourcePath) (memory : Memory) (staff : Staff σ) :
    analyzer.amid.work files memory staff =
      ((analyzer.work files memory staff.around).1, (analyzer.work files memory staff.around).2.1,
        { staff with around := (analyzer.work files memory staff.around).2.2 }) := by
  induction files generalizing memory staff with
  | nil => rfl
  | cons file rest ih =>
      unfold work attempt
      rw [visit_amid]
      rw [show analyzer.amid.signalled staff = analyzer.signalled staff.around from rfl]
      cases analyzer.signalled staff.around with
      | true => rfl
      | false =>
          cases analyzer.visit file staff.around with
          | mk result after =>
              cases result with
              | ok found =>
                  cases found with
                  | none => exact ih memory _
                  | some issues => exact ih (memory.record file issues) _
              | error failure =>
                  cases failure with
                  | error cause => rfl
                  | broke thrown => rfl

theorem finish_amid (start : Except AnalysisError (List SourcePath) × Memory) (staff : Staff σ) :
    analyzer.amid.finish start staff =
      ((analyzer.finish start staff.around).1, (analyzer.finish start staff.around).2.1,
        { staff with around := (analyzer.finish start staff.around).2.2 }) := by
  obtain ⟨taken, memory⟩ := start
  cases taken with
  | error cause => rfl
  | ok files =>
      unfold finish
      dsimp only
      rw [work_amid]

theorem report_employed (index : Nat) (change : Change) (staff : Staff σ) :
    (analyzer.employed index).report change staff =
      let run := analyzer.report change (staff.memories index) staff.around
      (run.1, { staff with around := run.2.2 }.hold index run.2.1) := by
  unfold employed worker report
  dsimp only
  rw [finish_amid]
  rfl

theorem reportShare_employed (index : Nat) (share : Partition) (staff : Staff σ) :
    (analyzer.employed index).reportShare share staff =
      let run := analyzer.reportShare share (staff.memories index) staff.around
      (run.1, { staff with around := run.2.2 }.hold index run.2.1) := by
  unfold employed worker reportShare
  dsimp only
  rw [finish_amid]
  rfl

theorem reportShare_ok (steady : analyzer.Steady engine) {index count : Nat} {memory : Memory}
    {state : σ} {issues : List Issue}
    (succeeded : (analyzer.reportShare (Partition.of index count) memory state).1 = .ok issues) :
    let learned := analyzer.selection.surveyShare engine (analyzer.tree state) count index
    issues = learned.issues ∧
      (analyzer.reportShare (Partition.of index count) memory state).2.1 = learned ∧
      analyzer.tree (analyzer.reportShare (Partition.of index count) memory state).2.2 =
        analyzer.tree state ∧
      analyzer.selection.Explorable (analyzer.tree state) ∧
      ∀ file ∈ (Partition.of index count).select
          (analyzer.selection.inventory (analyzer.tree state)),
        (analyzer.tree state).Tells (analyzer.selection.root.join file) := by
  unfold reportShare takeUpShare at succeeded ⊢
  cases signalled : analyzer.signalled state with
  | true =>
      rw [signalled, if_pos rfl] at succeeded
      cases succeeded
  | false =>
      rw [signalled, if_neg Bool.false_ne_true] at succeeded
      rw [if_neg Bool.false_ne_true]
      rcases Selection.discover_cases analyzer.selection (analyzer.tree state) with
        explorable | ⟨error, failed, _sighted⟩
      · have found : analyzer.selection.discover (analyzer.tree state) = .ok _ := explorable
        rw [found] at succeeded ⊢
        unfold finish at succeeded ⊢
        dsimp only [Except.map, Except.mapError] at succeeded ⊢
        have worked := work_worked steady ((Partition.of index count).select
          (analyzer.selection.inventory (analyzer.tree state))) Memory.new state
        have kept := work_tree steady ((Partition.of index count).select
          (analyzer.selection.inventory (analyzer.tree state))) Memory.new state
        revert succeeded worked kept
        cases analyzer.work ((Partition.of index count).select
          (analyzer.selection.inventory (analyzer.tree state))) Memory.new state with
        | mk stop rest =>
            obtain ⟨last, after⟩ := rest
            intro succeeded worked kept
            dsimp only at succeeded worked kept ⊢
            cases worked with
            | finished told =>
                cases succeeded
                exact ⟨rfl, rfl, kept, explorable, told⟩
            | halted done file rest cause cut told => cases succeeded
            | broken done file rest thrown cut told broke => cases succeeded
      · rw [failed] at succeeded
        cases succeeded

end Analyzer

/-! ### Answers of several workers -/

namespace Pool

variable {σ : Type} {engine : SourcePath → String → List Issue}

theorem eq_map_of_combine {α : Type} {signalled : Bool} {answers : List (Except Failure α)}
    {values : List α} (combined : combine signalled answers = .ok values) :
    answers = values.map .ok := by
  induction answers generalizing values with
  | nil =>
      cases combined
      rfl
  | cons answer rest ih =>
      unfold combine firstBreak firstError Pool.values at combined ih
      cases answer with
      | ok value =>
          rw [List.findSome?_cons, List.findSome?_cons, List.filterMap_cons] at combined
          dsimp only [Except.toOption] at combined
          split at combined
          · cases combined
          · cases combined
          · rename_i noBreak noError
            cases combined
            rw [noBreak, noError] at ih
            rw [List.map_cons, ← ih rfl]
      | error failure =>
          cases failure with
          | error cause =>
              rw [List.findSome?_cons, List.findSome?_cons] at combined
              dsimp only at combined
              split at combined
              · cases combined
              · cases combined
              · rename_i noError
                cases noError
          | broke thrown =>
              rw [List.findSome?_cons] at combined
              cases combined

theorem combine_map {α : Type} (signalled : Bool) (values : List α) :
    combine signalled (values.map .ok) = .ok values := by
  have none_of_ok {β : Type} (pick : Except Failure α → Option β)
      (idle : ∀ value, pick (.ok value) = none) : (values.map Except.ok).findSome? pick = none := by
    rw [List.findSome?_eq_none_iff]
    intro answer member
    obtain ⟨value, _inValues, rfl⟩ := List.mem_map.mp member
    exact idle value
  unfold combine
  rw [show firstBreak (values.map Except.ok) = none from none_of_ok _ (fun _ => rfl),
    show firstError (values.map Except.ok) = none from none_of_ok _ (fun _ => rfl)]
  unfold Pool.values
  rw [List.filterMap_map]
  exact congrArg Except.ok (List.filterMap_some)

open Analyzer

/-- The analyzers of a crew have the same files before them, and the same engine. -/
structure OfOneMind (crew : List (Analyzer σ)) (selection : Selection) (tree : σ → FileTree)
    (engine : SourcePath → String → List Issue) : Prop where
  selection_eq : ∀ analyzer ∈ crew, analyzer.selection = selection
  tree_eq : ∀ analyzer ∈ crew, analyzer.tree = tree
  steady : ∀ analyzer ∈ crew, analyzer.Steady engine

variable {crew : List (Analyzer σ)} {selection : Selection} {tree : σ → FileTree}

theorem OfOneMind.tail {first : Analyzer σ} {others : List (Analyzer σ)}
    (mind : OfOneMind (first :: others) selection tree engine) :
    OfOneMind others selection tree engine :=
  ⟨fun analyzer member => mind.selection_eq analyzer (List.mem_cons_of_mem _ member),
    fun analyzer member => mind.tree_eq analyzer (List.mem_cons_of_mem _ member),
    fun analyzer member => mind.steady analyzer (List.mem_cons_of_mem _ member)⟩

theorem askEach_connect (number index : Nat) (crew : List (Analyzer σ)) (staff : Staff σ) :
    askEach (fun _ worker => worker.connect) number (hire index crew) staff =
      ((crew.map fun _ => ()).map .ok, staff) := by
  induction crew generalizing number index with
  | nil => rfl
  | cons first others ih =>
      unfold hire askEach
      rw [show (first.employed index).connect staff = (.ok (), staff) from rfl]
      dsimp only
      rw [ih]
      rfl

theorem release_hire (index : Nat) (crew : List (Analyzer σ)) (staff : Staff σ) :
    release (hire index crew) staff = staff := by
  induction crew generalizing index with
  | nil => rfl
  | cons first others ih => exact ih (index + 1)

theorem askEach_shares (mind : OfOneMind crew selection tree engine) (count index : Nat)
    (staff : Staff σ) (shares : List (List Issue))
    (succeeded : (askEach (fun number worker => worker.reportShare (Partition.of number count))
      index (hire index crew) staff).1 = shares.map .ok) :
    let after := (askEach (fun number worker => worker.reportShare (Partition.of number count))
      index (hire index crew) staff).2
    let learned := selection.surveyShare engine (tree staff.around) count
    shares = (List.range' index crew.length).map (fun number => (learned number).issues) ∧
      (∀ number, number < index → after.memories number = staff.memories number) ∧
      (∀ number ∈ List.range' index crew.length, after.memories number = learned number) ∧
      ∀ number ∈ List.range' index crew.length,
        selection.Explorable (tree staff.around) ∧
        ∀ file ∈ (Partition.of number count).select (selection.inventory (tree staff.around)),
          (tree staff.around).Tells (selection.root.join file) := by
  -- No worker alters the tree, so those behind the first see what it saw.
  induction crew generalizing index staff shares with
  | nil =>
      have none : shares = [] := by
        cases shares with
        | nil => rfl
        | cons share more => cases succeeded
      subst none
      refine ⟨rfl, fun _ _ => rfl, ?_, ?_⟩
      · intro number member
        cases member
      · intro number member
        cases member
  | cons first others ih =>
      have own := mind.selection_eq first List.mem_cons_self
      have sees := mind.tree_eq first List.mem_cons_self
      unfold hire askEach at succeeded ⊢
      rw [reportShare_employed] at succeeded ⊢
      dsimp only at succeeded ⊢
      cases shares with
      | nil => cases succeeded
      | cons share more =>
          obtain ⟨firstOk, restOk⟩ := List.cons.inj succeeded
          obtain ⟨answered, remembers, kept, told⟩ :=
            reportShare_ok (mind.steady first List.mem_cons_self) firstOk
          rw [own, sees] at answered remembers told
          rw [sees] at kept
          obtain ⟨shared, before, later, toldLater⟩ := ih mind.tail _ _ _ restOk
          have sameTree : tree ({ staff with around := (first.reportShare
              (Partition.of index count) (staff.memories index) staff.around).2.2 }.hold index
                (first.reportShare (Partition.of index count) (staff.memories index)
                  staff.around).2.1).around = tree staff.around := kept
          rw [sameTree] at shared later toldLater
          rw [List.length_cons, List.range'_succ]
          refine ⟨?_, ?_, ?_, ?_⟩
          · rw [List.map_cons, ← shared, answered]
          · intro number below
            rw [before number (by omega)]
            exact Staff.memories_hold_of_ne (by omega) _ _
          · intro number member
            rcases List.mem_cons.mp member with here | inRest
            · subst here
              rw [before number (by omega), ← remembers]
              exact Staff.memories_hold number _ _
            · exact later number inRest
          · intro number member
            rcases List.mem_cons.mp member with here | inRest
            · rw [here]
              exact told
            · exact toldLater number inRest

theorem hire_length (index : Nat) (crew : List (Analyzer σ)) :
    (hire index crew).length = crew.length := by
  induction crew generalizing index with
  | nil => rfl
  | cons first others ih => exact congrArg (· + 1) (ih (index + 1))

variable {first : Analyzer σ} {others : List (Analyzer σ)}

/-- A full run that succeeds reports what one survey reports, and leaves the first worker with
its own share and all that the others have found. -/
theorem fullRun_ok {pool : Pool (Staff σ)} (employs : pool.workers = hire 0 (first :: others))
    (mind : OfOneMind (first :: others) selection tree engine) (filing : Filing engine)
    {staff : Staff σ} {issues : List Issue}
    (succeeded : (pool.fullRun staff).1 = .ok issues) :
    issues = (selection.survey engine (tree staff.around)).issues ∧
      (pool.fullRun staff).2.memories 0 =
        (selection.surveyShare engine (tree staff.around) (others.length + 1) 0).seed
          (selection.elsewhere engine (tree staff.around) others.length) ∧
      selection.Explorable (tree staff.around) ∧
      ∀ file ∈ selection.inventory (tree staff.around),
        (tree staff.around).Tells (selection.root.join file) := by
  have count : (hire 0 (first :: others)).length = others.length + 1 := hire_length 0 _
  have shared := askEach_shares mind (others.length + 1) 0 staff
  unfold fullRun at succeeded ⊢
  rw [employs, askEach_connect, count] at succeeded ⊢
  dsimp only at succeeded ⊢
  rw [combine_map] at succeeded ⊢
  dsimp only at succeeded ⊢
  revert succeeded shared
  cases askEach (fun number worker => worker.reportShare
    (Partition.of number (others.length + 1))) 0 (hire 0 (first :: others)) staff with
  | mk answers after =>
      dsimp only
      intro succeeded shared
      revert succeeded
      cases combined : combine (pool.signalled after) answers with
      | error failure =>
          intro succeeded
          cases succeeded
      | ok shares =>
          obtain ⟨each, _before, remembers, told⟩ := shared shares (eq_map_of_combine combined)
          unfold hire
          dsimp only
          rw [show (first.employed 0).seed ((shares.drop 1).flatten) after =
            (.ok (), after.hold 0 ((after.memories 0).seed ((shares.drop 1).flatten))) from rfl]
          dsimp only
          rw [release_hire]
          intro succeeded
          rw [List.length_cons, List.range'_succ, List.map_cons] at each
          have elsewhere : (shares.drop 1).flatten =
              selection.elsewhere engine (tree staff.around) others.length := by
            rw [each]
            rfl
          have own : shares.headD [] =
              (selection.surveyShare engine (tree staff.around) (others.length + 1) 0).issues := by
            rw [each]
            rfl
          rw [own, elsewhere, selection.sort_shares filing] at succeeded
          have foremost : 0 ∈ List.range' 0 (first :: others).length :=
            List.mem_range'_1.mpr ⟨Nat.le_refl 0, by simp⟩
          refine ⟨?_, ?_, (told 0 foremost).1, ?_⟩
          · cases succeeded
            rfl
          · rw [elsewhere, ← remembers 0 foremost]
            exact Staff.memories_hold 0 _ after
          · intro file member
            obtain ⟨index, inside, inShare⟩ :=
              selection.exists_mem_select (Nat.succ_pos others.length) member
            exact (told index (List.mem_range'_1.mpr ⟨Nat.zero_le _, by simpa using inside⟩)).2 file
              inShare

end Pool

/-! ### Sequences of calls -/

/-- What surrounds a pool when a call comes: its workers have kept what they remember. -/
def Pooled.amid {σ : Type} (held : Pooled (Staff σ)) (state : σ) : Pooled (Staff σ) :=
  { held with around := { held.around with around := state } }

namespace Analyzer

variable {σ : Type} (analyzer : Analyzer σ)

/-- What a reporter answers to calls, one after the other. -/
def answers : Memory → List (Occasion σ) → List (Except Failure (List Issue))
  | _, [] => []
  | memory, call :: rest =>
      (analyzer.report call.change memory call.state).1 ::
        answers (analyzer.report call.change memory call.state).2.1 rest

variable {analyzer} {engine : SourcePath → String → List Issue}

/-- The first worker of a pool whose full run has succeeded remembers what a new reporter does
after its first report. -/
theorem alike_first_report (steady : analyzer.Steady engine) (filing : Filing engine)
    {change : Change} {state : σ} {issues : List Issue} (size : Nat)
    (succeeded : (analyzer.report change Memory.new state).1 = .ok issues) :
    Memory.Alike
      ((analyzer.selection.surveyShare engine (analyzer.tree state) (size + 1) 0).seed
        (analyzer.selection.elsewhere engine (analyzer.tree state) size))
      (analyzer.report change Memory.new state).2.1 := by
  have rested := rested_of_report steady succeeded
  obtain ⟨result, last, after, ran, reported⟩ := report_reported steady change Memory.new state
  rw [ran] at succeeded rested ⊢
  cases succeeded
  refine ⟨?_, ?_, ?_⟩
  · rw [(Memory.seed_fields _ _).2, rested.started]
    rfl
  · rw [(Memory.seed_fields _ _).1, rested.idle]
    exact Memory.learnAll_fields.1
  · intro key
    rw [analyzer.selection.sort_seeded filing key]
    cases reported with
    | complete unsignalled told =>
        change _ = Issue.sort ((ResultCache.get? (analyzer.learned change Memory.new state engine
          (analyzer.due change Memory.new state)).results key).getD [])
        rw [get?_learned_first rfl]

end Analyzer

namespace Pool

open Analyzer

variable {σ : Type} (pool : Pool (Staff σ))

def remember (held : Pooled (Staff σ)) (calls : List (Occasion σ)) : Pooled (Staff σ) :=
  calls.foldl (fun held call => (pool.report call.change (held.amid call.state)).2) held

def answers : Pooled (Staff σ) → List (Occasion σ) → List (Except Failure (List Issue))
  | _, [] => []
  | held, call :: rest =>
      (pool.report call.change (held.amid call.state)).1 ::
        answers (pool.report call.change (held.amid call.state)).2 rest

variable {pool} {engine : SourcePath → String → List Issue} {first : Analyzer σ}
  {others : List (Analyzer σ)} {held : Pooled (Staff σ)}

/-- A pool that has not succeeded yet makes a full run, and only success ends this. -/
theorem report_of_unfinished (pool : Pool (Staff σ)) (change : Change) (held : Pooled (Staff σ))
    (unfinished : held.done = false) :
    (∀ issues, (pool.report change held).1 = .ok issues →
      (pool.fullRun held.around).1 = .ok issues ∧
        (pool.report change held).2 = ⟨true, (pool.fullRun held.around).2⟩) ∧
      ((pool.report change held).1.toOption = none → (pool.report change held).2.done = false) := by
  obtain ⟨done, around⟩ := held
  cases unfinished
  unfold report
  dsimp only
  rw [if_neg Bool.false_ne_true]
  cases pool.signalled around with
  | true =>
      refine ⟨?_, fun _ => rfl⟩
      intro issues succeeded
      cases succeeded
  | false =>
      rw [if_neg Bool.false_ne_true]
      cases pool.fullRun around with
      | mk result after =>
          cases result with
          | ok found =>
              refine ⟨?_, ?_⟩
              · intro issues succeeded
                exact ⟨succeeded, rfl⟩
              · intro failed
                cases failed
          | error failure =>
              refine ⟨?_, fun _ => rfl⟩
              intro issues succeeded
              cases succeeded

theorem remember_unfinished (unfinished : held.done = false) {calls : List (Occasion σ)}
    (failing : ∀ answer ∈ pool.answers held calls, answer.toOption = none) :
    (pool.remember held calls).done = false := by
  induction calls generalizing held with
  | nil => exact unfinished
  | cons call rest ih =>
      have still := (report_of_unfinished pool call.change (held.amid call.state) unfinished).2
        (failing _ List.mem_cons_self)
      exact ih still (fun answer member => failing answer (List.mem_cons_of_mem _ member))

theorem report_of_finished (employs : pool.workers = hire 0 (first :: others)) (change : Change)
    (held : Pooled (Staff σ)) (finished : held.done = true) :
    pool.report change held =
      let run := first.report change (held.around.memories 0) held.around.around
      (run.1, ⟨true, { held.around with around := run.2.2 }.hold 0 run.2.1⟩) := by
  obtain ⟨done, around⟩ := held
  cases finished
  unfold report
  rw [employs]
  change (((first.employed 0).report change around).1,
    (⟨true, ((first.employed 0).report change around).2⟩ : Pooled (Staff σ))) = _
  rw [report_employed]

/-- A pool answers as any reporter does that remembers like its first worker. -/
theorem answers_of_alike (employs : pool.workers = hire 0 (first :: others))
    (finished : held.done = true) {memory : Memory}
    (alike : Memory.Alike (held.around.memories 0) memory) (calls : List (Occasion σ)) :
    pool.answers held calls = first.answers memory calls := by
  induction calls generalizing held memory with
  | nil => rfl
  | cons call rest ih =>
      obtain ⟨same, _states, alikeAfter⟩ :=
        report_alike first alike call.change call.state
      unfold answers Analyzer.answers
      rw [report_of_finished employs call.change (held.amid call.state) finished]
      dsimp only
      rw [show (held.amid call.state).around.memories 0 = held.around.memories 0 from rfl,
        show (held.amid call.state).around.around = call.state from rfl, same]
      congr 1
      apply ih rfl
      rw [Staff.memories_hold]
      exact alikeAfter

/-- The first report of a pool that succeeds, after any that have not, is the first report of a
new reporter on the same tree: where nothing fails that report succeeds with the same list, and
wherever else it succeeds the list is the same. From then on the pool answers all calls as that
reporter does. -/
theorem answers_as_one_reporter (employs : pool.workers = hire 0 (first :: others))
    (mind : OfOneMind (first :: others) first.selection first.tree engine)
    (filing : Filing engine) (unfinished : held.done = false) {failed : List (Occasion σ)}
    {call : Occasion σ} {issues : List Issue}
    (failing : ∀ answer ∈ pool.answers held failed, answer.toOption = none)
    (succeeded : (pool.report call.change ((pool.remember held failed).amid call.state)).1 =
      .ok issues)
    (later : List (Occasion σ)) :
    let answers := pool.answers (pool.remember held (failed ++ [call])) later
    (∀ change, let run := (first.still engine).report change Memory.new (first.tree call.state)
      run.1 = .ok issues ∧ answers = first.answers run.2.1 later) ∧
      ∀ change state found, first.tree state = first.tree call.state →
        (first.report change Memory.new state).1 = .ok found →
          found = issues ∧
            answers = first.answers (first.report change Memory.new state).2.1 later := by
  obtain ⟨ran, left⟩ := (report_of_unfinished pool call.change
    ((pool.remember held failed).amid call.state)
    (remember_unfinished unfinished failing)).1 issues succeeded
  obtain ⟨equal, holds, explorable, told⟩ := fullRun_ok employs mind filing ran
  have after : pool.remember held (failed ++ [call]) =
      ⟨true, (pool.fullRun ((pool.remember held failed).amid call.state).around).2⟩ := by
    rw [← left]
    exact List.foldl_append
  rw [after]
  constructor
  · intro change
    have surveys : ((first.still engine).report change Memory.new (first.tree call.state)).1 =
        .ok (first.selection.survey engine (first.tree call.state)).issues :=
      report_still change explorable told
    have alike := alike_first_report still_steady filing others.length surveys
    refine ⟨?_, ?_⟩
    · rw [equal]
      exact surveys
    · apply answers_of_alike employs rfl
      rw [holds]
      exact alike
  · intro change state found sameTree succeededToo
    have steady := mind.steady first List.mem_cons_self
    have alike := alike_first_report steady filing others.length succeededToo
    rw [sameTree] at alike
    refine ⟨?_, ?_⟩
    · rw [first_report steady succeededToo, equal, sameTree]
      rfl
    · apply answers_of_alike employs rfl
      rw [holds]
      exact alike

namespace Crew

def table : EngineTable := ⟨true, 2, none, none, [], [], 120⟩

def reporter : Analyzer Rehearsal :=
  rehearsing sourceSelection (table.examine .check) (fun _ => false)

def pair : Pool (Staff Rehearsal) :=
  { name := "check"
    workers := hire 0 [reporter, reporter]
    signalled := fun staff => staff.around.lasts = some 0 }

def start : Pooled (Staff Rehearsal) := ⟨false, ⟨fun _ => Memory.new, ⟨FileTree.empty, none⟩⟩⟩

def files : FileTree := sources [("a.ts", "x"), ("b.ts", "call(")]

def refused : Occasion Rehearsal := ⟨Change.empty, ⟨files, some 0⟩⟩

/-- Is cancelled after the first worker has finished its share. -/
def interrupted : Occasion Rehearsal := ⟨Change.empty, ⟨files, some 1⟩⟩

def full : Occasion Rehearsal := ⟨Change.empty, ⟨files, none⟩⟩

def unclosed : Issue :=
  ⟨⟨"src/b.ts"⟩, 1, 5, .error, "E001", "unclosed delimiter '('", .typeCheck⟩

theorem of_one_mind :
    OfOneMind [reporter, reporter] reporter.selection reporter.tree (table.examine .check) := by
  have only : ∀ member ∈ [reporter, reporter], member = reporter := by
    intro member inCrew
    rcases List.mem_cons.mp inCrew with here | inRest
    · exact here
    · exact List.mem_singleton.mp inRest
  refine ⟨?_, ?_, ?_⟩
  · intro member inCrew
    rw [only member inCrew]
  · intro member inCrew
    rw [only member inCrew]
  · intro member inCrew
    rw [only member inCrew]
    exact rehearsing_steady _ _ _

/-- The file with the issue is repaired, and the other one loses its balance. -/
def edited : Occasion Rehearsal :=
  ⟨Change.ofFiles [⟨"src/a.ts"⟩, ⟨"src/b.ts"⟩] [],
    ⟨sources [("a.ts", "\x7d"), ("b.ts", "call")], none⟩⟩

end Crew

/-- A refused and an interrupted run come before the first report, and an edit after it. -/
theorem answers_as_one_reporter_after_interruptions :
    (∀ answer ∈ Crew.pair.answers Crew.start [Crew.refused, Crew.interrupted],
      answer.toOption = none) ∧
    ((Crew.reporter.still (Crew.table.examine .check)).report Change.empty Memory.new
      (Crew.reporter.tree Crew.full.state)).1 = .ok [Crew.unclosed] ∧
    Crew.pair.answers (Crew.pair.remember Crew.start [Crew.refused, Crew.interrupted, Crew.full])
      [Crew.edited] =
        Crew.reporter.answers ((Crew.reporter.still (Crew.table.examine .check)).report
          Change.empty Memory.new (Crew.reporter.tree Crew.full.state)).2.1 [Crew.edited] := by
  have failing : ∀ answer ∈ Crew.pair.answers Crew.start [Crew.refused, Crew.interrupted],
      answer.toOption = none := by decide +kernel
  have succeeded : (Crew.pair.report Crew.full.change
      ((Crew.pair.remember Crew.start [Crew.refused, Crew.interrupted]).amid
        Crew.full.state)).1.toOption = some [Crew.unclosed] := by decide +kernel
  have employs : Crew.pair.workers = hire 0 [Crew.reporter, Crew.reporter] := rfl
  obtain ⟨same, answered⟩ := (answers_as_one_reporter employs Crew.of_one_mind
    (EngineTable.filing_examine Crew.table .check) rfl failing
    (Analyzer.eq_ok_of_toOption succeeded) [Crew.edited]).1 Change.empty
  exact ⟨failing, same, answered⟩

end Pool

end Reanalysis
