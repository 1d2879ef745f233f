/-
Histories of calls to one reporter. What does not wait to be visited is known as a full
run on the tree would know it; this holds after every call that tells of the edits since
the one before, however the calls end. So a report that succeeds says what the first
report of a new reporter would say.
-/

import Mathlib.Data.List.Induction
import Reanalysis.Engine.Delimiters
import Reanalysis.Proofs.AnalysisRun

namespace Reanalysis

/-- A call of a reporter: what it is told, and in what surroundings. -/
structure Occasion (σ : Type) where
  change : Change
  state : σ

namespace Selection

variable {selection : Selection} {engine : SourcePath → String → List Issue}
  {tree : FileTree} {file key : SourcePath}

def survey (selection : Selection) (engine : SourcePath → String → List Issue)
    (tree : FileTree) : Memory :=
  Memory.new.learnAll (selection.finding engine tree) (selection.inventory tree)

theorem inventory_apart (selection : Selection) (tree : FileTree) :
    (selection.inventory tree).Pairwise (fun first second => first.same second = false) :=
  PathSet.files_apart _

theorem get?_survey (member : file ∈ selection.inventory tree) (alike : file.same key = true) :
    (selection.survey engine tree).results.get? key = selection.finding engine tree file := by
  unfold survey
  rw [Memory.get?_learnAll_of_mem (selection.inventory_apart tree) member alike]
  exact Option.or_none

theorem get?_survey_of_apart (apart : ∀ file ∈ selection.inventory tree, file.same key = false) :
    (selection.survey engine tree).results.get? key = none :=
  Memory.get?_learnAll_of_apart apart

theorem get?_survey_of_plain (regular : selection.Regular) (plain : file.Plain)
    (selected : selection.selects file = true) (alike : file.same key = true) :
    (selection.survey engine tree).results.get? key = selection.finding engine tree file := by
  cases read : tree.read (selection.root.join file) with
  | ok bytes => exact get?_survey (mem_inventory_of_read regular plain selected read) alike
  | error fault =>
      have nothing : selection.finding engine tree file = none := by
        unfold finding
        rw [read]
      by_cases present : file ∈ selection.inventory tree
      · exact get?_survey present alike
      · rw [nothing]
        apply get?_survey_of_apart
        intro other member
        rw [Bool.eq_false_iff]
        intro otherAlike
        apply present
        have equal := plain.written.eq_of_same (of_mem_inventory regular member).2
          (SourcePath.same_trans alike (SourcePath.same_symm otherAlike))
        rw [equal]
        exact member

end Selection

/-- A reporter that has finished a full run, and has nothing to make up for. -/
structure Memory.Rested (memory : Memory) : Prop where
  started : memory.fresh = false
  idle : memory.pending = PendingChanges.empty

namespace Analyzer

variable {σ : Type} (analyzer : Analyzer σ)

def remember (memory : Memory) (calls : List (Occasion σ)) : Memory :=
  calls.foldl (fun memory call => (analyzer.report call.change memory call.state).2.1) memory

/-- Whether a file was named as deleted by one of the latest calls, all of which found their
token signalled. -/
def leftDeleted (calls : List (Occasion σ)) (file : SourcePath) : Bool :=
  calls.foldl (fun left call =>
    analyzer.signalled call.state && (left || call.change.deleted.contains file)) false

/-- Whether a call names all files that were made, altered or removed since the call before. -/
structure Told (before call : Occasion σ) : Prop where
  changed : ∀ file ∈ analyzer.selection.inventory (analyzer.tree call.state),
    (file ∈ analyzer.selection.inventory (analyzer.tree before.state) →
      (analyzer.tree call.state).read (analyzer.selection.root.join file) ≠
        (analyzer.tree before.state).read (analyzer.selection.root.join file)) →
    call.change.changed.contains file = true
  deleted : ∀ file ∈ analyzer.selection.inventory (analyzer.tree before.state),
    file ∉ analyzer.selection.inventory (analyzer.tree call.state) →
    call.change.deleted.contains file = true

/-- What a caller keeps to: each call tells of the edits since the one before and names no
existing file as deleted, selected files are spelled as they are found, and a file that a call
without effect named as deleted is not named as changed until a call has taken effect. -/
structure Faithful (calls : List (Occasion σ)) : Prop where
  told : ∀ front before call rest, calls = front ++ before :: call :: rest →
    analyzer.Told before call
  existing : ∀ call ∈ calls, ∀ file ∈ analyzer.selection.inventory (analyzer.tree call.state),
    call.change.deleted.contains file = false
  spelled : ∀ call ∈ calls, ∀ file ∈ call.change.changed.files,
    analyzer.selection.selects file = true → file.Plain
  patient : ∀ front call rest, calls = front ++ call :: rest →
    ∀ file, analyzer.leftDeleted front file = true → call.change.changed.contains file = false

def Returns (start : Memory) (calls : List (Occasion σ)) : Prop :=
  ∀ front call rest, calls = front ++ call :: rest → ∀ thrown,
    (analyzer.report call.change (analyzer.remember start front) call.state).1 ≠
      .error (.broke thrown)

/-- The engine where nothing fails, no token is signalled, and the files are all there is. -/
def still (engine : SourcePath → String → List Issue) : Analyzer FileTree :=
  { name := analyzer.name
    selection := analyzer.selection
    tree := id
    read := fun path tree => tree.read path
    signalled := fun _ => false
    examine := fun file text tree => (.ok (engine file text), tree) }

variable {analyzer} {engine : SourcePath → String → List Issue}

theorem remember_concat (memory : Memory) (calls : List (Occasion σ)) (call : Occasion σ) :
    analyzer.remember memory (calls ++ [call]) =
      (analyzer.report call.change (analyzer.remember memory calls) call.state).2.1 := by
  unfold remember
  rw [List.foldl_append]
  rfl

theorem leftDeleted_concat (calls : List (Occasion σ)) (call : Occasion σ) (file : SourcePath) :
    analyzer.leftDeleted (calls ++ [call]) file =
      (analyzer.signalled call.state &&
        (analyzer.leftDeleted calls file || call.change.deleted.contains file)) := by
  unfold leftDeleted
  rw [List.foldl_append]
  rfl

theorem deleted_report (steady : analyzer.Steady engine) (change : Change) (memory : Memory)
    (state : σ) (key : SourcePath) :
    (analyzer.report change memory state).2.1.pending.pending.deleted.contains key =
      (analyzer.signalled state &&
        (memory.pending.pending.deleted.contains key || change.deleted.contains key)) := by
  obtain ⟨result, last, after, ran, reported⟩ := report_reported steady change memory state
  rw [ran]
  cases reported with
  | refused signalled =>
      rw [signalled, Bool.true_and]
      exact deleted_gathered key
  | lost unsignalled first error failed =>
      rw [unsignalled, Bool.false_and, (learned_fields []).1]
      rfl
  | complete unsignalled told =>
      rw [unsignalled, Bool.false_and]
      change (analyzer.learned change memory state engine _).pending.pending.deleted.contains key =
        false
      rw [(learned_fields _).1]
      rfl
  | halted unsignalled done file rest cause cut told =>
      rw [unsignalled, Bool.false_and, Memory.deleted_requeue, (learned_fields done).1]
      rfl
  | broken unsignalled done file rest thrown cut told broke =>
      rw [unsignalled, Bool.false_and, (learned_fields done).1]
      rfl

theorem deleted_remember (steady : analyzer.Steady engine) {memory : Memory}
    {file : SourcePath} (idle : memory.pending.pending.deleted.contains file = false)
    (calls : List (Occasion σ)) :
    (analyzer.remember memory calls).pending.pending.deleted.contains file =
      analyzer.leftDeleted calls file := by
  induction calls using List.reverseRecOn with
  | nil => exact idle
  | append_singleton calls call ih =>
      rw [remember_concat, deleted_report steady, ih, leftDeleted_concat]

theorem started_report (steady : analyzer.Steady engine) {change : Change} {memory : Memory}
    {state : σ} (started : memory.fresh = false) :
    (analyzer.report change memory state).2.1.fresh = false := by
  obtain ⟨result, last, after, ran, reported⟩ := report_reported steady change memory state
  rw [ran]
  cases reported with
  | refused signalled => exact started
  | lost unsignalled first error failed => cases started.symm.trans first
  | complete unsignalled told => rfl
  | halted unsignalled done file rest cause cut told =>
      rw [(Memory.requeue_fields _ _).2, (learned_fields done).2]
      exact started
  | broken unsignalled done file rest thrown cut told broke =>
      rw [(learned_fields done).2]
      exact started

theorem started_remember (steady : analyzer.Steady engine) {start : Memory}
    (started : start.fresh = false) (calls : List (Occasion σ)) :
    (analyzer.remember start calls).fresh = false := by
  induction calls using List.reverseRecOn with
  | nil => exact started
  | append_singleton calls call ih =>
      rw [remember_concat]
      exact started_report steady ih

theorem due_of_started {change : Change} {memory : Memory} (started : memory.fresh = false)
    (state : σ) :
    analyzer.due change memory state = (analyzer.gathered change memory).changed.files := by
  unfold due
  rw [started, if_neg Bool.false_ne_true]

theorem rested_of_report (steady : analyzer.Steady engine) {change : Change} {memory : Memory}
    {state : σ} {issues : List Issue}
    (succeeded : (analyzer.report change memory state).1 = .ok issues) :
    (analyzer.report change memory state).2.1.Rested := by
  obtain ⟨result, last, after, ran, reported⟩ := report_reported steady change memory state
  rw [ran] at succeeded ⊢
  cases reported with
  | refused signalled => cases succeeded
  | lost unsignalled first error failed => cases succeeded
  | complete unsignalled told => exact ⟨rfl, (learned_fields _).1⟩
  | halted unsignalled done file rest cause cut told => cases succeeded
  | broken unsignalled done file rest thrown cut told broke => cases succeeded

/-- What does not wait is known as a first run on the tree would know it, what waits as changed
is selected and spelled as it is found, and what waits as deleted is gone. -/
structure Current (analyzer : Analyzer σ) (engine : SourcePath → String → List Issue)
    (tree : FileTree) (results : ResultCache (List Issue)) (waiting : Change) : Prop where
  spelled : ∀ file ∈ waiting.changed.files,
    file.Plain ∧ analyzer.selection.selects file = true
  gone : ∀ file ∈ analyzer.selection.inventory tree, waiting.deleted.contains file = false
  known : ∀ key, waiting.touches key = false →
    results.get? key = (analyzer.selection.survey engine tree).results.get? key
  told : ∀ file ∈ analyzer.selection.inventory tree, waiting.touches file = false →
    tree.Tells (analyzer.selection.root.join file)

def UpToDate (analyzer : Analyzer σ) (engine : SourcePath → String → List Issue)
    (tree : FileTree) (memory : Memory) : Prop :=
  memory.fresh = false → analyzer.Current engine tree memory.results memory.pending.pending

variable {change : Change} {memory : Memory} {state : σ}

theorem touches_gathered {key : SourcePath}
    (untouched : (analyzer.gathered change memory).touches key = false) :
    memory.pending.pending.touches key = false ∧ change.deleted.contains key = false ∧
      (analyzer.selection.selects key = true → change.changed.contains key = false) := by
  unfold Change.touches at untouched ⊢
  rw [changed_gathered, deleted_gathered] at untouched
  revert untouched
  cases memory.pending.pending.changed.contains key <;>
    cases memory.pending.pending.deleted.contains key <;>
    cases change.changed.contains key <;> cases change.deleted.contains key <;>
    cases analyzer.selection.selects key <;> simp

theorem Told.unedited {before call : Occasion σ} (told : analyzer.Told before call)
    {file : SourcePath} (member : file ∈ analyzer.selection.inventory (analyzer.tree call.state))
    (silent : call.change.changed.contains file = false) :
    file ∈ analyzer.selection.inventory (analyzer.tree before.state) ∧
      (analyzer.tree call.state).read (analyzer.selection.root.join file) =
        (analyzer.tree before.state).read (analyzer.selection.root.join file) := by
  have edited := told.changed file member
  rw [silent] at edited
  constructor
  · by_cases stood : file ∈ analyzer.selection.inventory (analyzer.tree before.state)
    · exact stood
    · cases edited (fun wasThere => absurd wasThere stood)
  · by_cases alike : (analyzer.tree call.state).read (analyzer.selection.root.join file) =
        (analyzer.tree before.state).read (analyzer.selection.root.join file)
    · exact alike
    · cases edited (fun _ => alike)

theorem Told.get?_survey {before call : Occasion σ} (told : analyzer.Told before call)
    {key : SourcePath} (undeleted : call.change.deleted.contains key = false)
    (silent : ∀ file ∈ analyzer.selection.inventory (analyzer.tree call.state),
      file.same key = true → call.change.changed.contains file = false) :
    (analyzer.selection.survey engine (analyzer.tree before.state)).results.get? key =
      (analyzer.selection.survey engine (analyzer.tree call.state)).results.get? key := by
  by_cases present : ∃ file ∈ analyzer.selection.inventory (analyzer.tree call.state),
      file.same key = true
  · obtain ⟨file, member, alike⟩ := present
    obtain ⟨stood, sameContent⟩ := told.unedited member (silent file member alike)
    rw [Selection.get?_survey stood alike, Selection.get?_survey member alike]
    unfold Selection.finding
    rw [sameContent]
  · have apart : ∀ file ∈ analyzer.selection.inventory (analyzer.tree call.state),
        file.same key = false :=
      fun file member => Bool.eq_false_iff.mpr (fun alike => present ⟨file, member, alike⟩)
    rw [Selection.get?_survey_of_apart apart]
    apply Selection.get?_survey_of_apart
    intro file stood
    rw [Bool.eq_false_iff]
    intro alike
    have named := told.deleted file stood
      (fun member => by rw [apart file member] at alike; cases alike)
    rw [PathSet.contains_congr _ alike, undeleted] at named
    cases named

/-- Taking in a change that tells of all edits keeps a reporter current. -/
theorem Current.gather (regular : analyzer.selection.Regular) {before call : Occasion σ}
    (current : analyzer.Current engine (analyzer.tree before.state) memory.results
      memory.pending.pending)
    (told : analyzer.Told before call)
    (existing : ∀ file ∈ analyzer.selection.inventory (analyzer.tree call.state),
      call.change.deleted.contains file = false)
    (spelled : ∀ file ∈ call.change.changed.files,
      analyzer.selection.selects file = true → file.Plain)
    (patient : ∀ file, memory.pending.pending.deleted.contains file = true →
      call.change.changed.contains file = false) :
    analyzer.Current engine (analyzer.tree call.state) memory.results
      (analyzer.gathered call.change memory) := by
  refine ⟨?_, ?_, ?_, ?_⟩
  · intro file member
    rcases mem_gathered member with waiting | ⟨named, selected⟩
    · exact current.spelled file waiting
    · exact ⟨spelled file named selected, selected⟩
  · intro file member
    rw [deleted_gathered, existing file member, Bool.or_false, Bool.eq_false_iff]
    intro waiting
    have missing : file ∉ analyzer.selection.inventory (analyzer.tree before.state) := by
      intro stood
      rw [current.gone file stood] at waiting
      cases waiting
    have named := told.changed file member (fun stood => absurd stood missing)
    rw [patient file waiting] at named
    cases named
  · intro key untouched
    obtain ⟨settled, undeleted, _unnamed⟩ := touches_gathered untouched
    rw [current.known key settled]
    apply told.get?_survey undeleted
    intro file member alike
    have untouchedFile : (analyzer.gathered call.change memory).touches file = false := by
      rw [← untouched]
      unfold Change.touches
      rw [PathSet.contains_congr _ alike, PathSet.contains_congr _ alike]
    obtain ⟨_settled, _undeleted, unnamed⟩ := touches_gathered untouchedFile
    exact unnamed (Selection.of_mem_inventory regular member).1
  · intro file member untouched
    obtain ⟨settled, _undeleted, unnamed⟩ := touches_gathered untouched
    obtain ⟨stood, sameContent⟩ :=
      told.unedited member (unnamed (Selection.of_mem_inventory regular member).1)
    unfold FileTree.Tells
    rw [sameContent]
    exact current.told file stood settled

/-! ### Runs -/

section Runs

variable {done rest : List SourcePath}

theorem Current.get?_learned (regular : analyzer.selection.Regular)
    (current : analyzer.Current engine (analyzer.tree state) memory.results
      (analyzer.gathered change memory))
    (started : memory.fresh = false)
    (cut : analyzer.due change memory state = done ++ rest) {key : SourcePath}
    (apart : ∀ file ∈ rest, file.same key = false) :
    (analyzer.learned change memory state engine done).results.get? key =
      (analyzer.selection.survey engine (analyzer.tree state)).results.get? key := by
  have dueFiles : done ++ rest = (analyzer.gathered change memory).changed.files := by
    rw [← cut, due_of_started started]
  by_cases visited : ∃ file ∈ done, file.same key = true
  · obtain ⟨file, member, alike⟩ := visited
    have waited : file ∈ (analyzer.gathered change memory).changed.files := by
      rw [← dueFiles]
      exact List.mem_append_left rest member
    obtain ⟨plain, selected⟩ := current.spelled file waited
    rw [Analyzer.get?_learned cut member alike,
      Selection.get?_survey_of_plain regular plain selected alike]
  · have apartDone : ∀ file ∈ done, file.same key = false :=
      fun file member => Bool.eq_false_iff.mpr (fun alike => visited ⟨file, member, alike⟩)
    have unchanged : (analyzer.gathered change memory).changed.contains key = false := by
      rw [Bool.eq_false_iff]
      intro contained
      obtain ⟨file, member, alike⟩ := (PathSet.contains_iff _ _).mp contained
      rw [← dueFiles] at member
      rcases List.mem_append.mp member with inDone | inRest
      · rw [apartDone file inDone] at alike; cases alike
      · rw [apart file inRest] at alike; cases alike
    rw [get?_learned_of_apart apartDone, get?_outset started]
    cases touched : (analyzer.gathered change memory).touches key with
    | false => exact current.known key touched
    | true =>
        unfold Change.touches at touched
        rw [unchanged, Bool.false_or] at touched
        rw [if_pos rfl]
        symm
        apply Selection.get?_survey_of_apart
        intro file member
        rw [Bool.eq_false_iff]
        intro alike
        have standing := current.gone file member
        rw [PathSet.contains_congr _ alike, touched] at standing
        cases standing

theorem Current.tells_learned (regular : analyzer.selection.Regular)
    (current : analyzer.Current engine (analyzer.tree state) memory.results
      (analyzer.gathered change memory))
    (started : memory.fresh = false)
    (cut : analyzer.due change memory state = done ++ rest)
    (told : ∀ file ∈ done, (analyzer.tree state).Tells (analyzer.selection.root.join file))
    {file : SourcePath} (member : file ∈ analyzer.selection.inventory (analyzer.tree state))
    (apart : ∀ other ∈ rest, other.same file = false) :
    (analyzer.tree state).Tells (analyzer.selection.root.join file) := by
  have dueFiles : done ++ rest = (analyzer.gathered change memory).changed.files := by
    rw [← cut, due_of_started started]
  cases touched : (analyzer.gathered change memory).touches file with
  | false => exact current.told file member touched
  | true =>
      unfold Change.touches at touched
      rw [current.gone file member, Bool.or_false] at touched
      obtain ⟨other, waited, alike⟩ := (PathSet.contains_iff _ _).mp touched
      have equal := (current.spelled other waited).1.written.eq_of_same
        (Selection.of_mem_inventory regular member).2 alike
      rw [← dueFiles] at waited
      rcases List.mem_append.mp waited with inDone | inRest
      · rw [← equal]
        exact told other inDone
      · rw [apart other inRest] at alike
        cases alike

theorem get?_learned_first (first : memory.fresh = true) (key : SourcePath) :
    (analyzer.learned change memory state engine
      (analyzer.due change memory state)).results.get? key =
        (analyzer.selection.survey engine (analyzer.tree state)).results.get? key := by
  have everything : analyzer.due change memory state =
      analyzer.selection.inventory (analyzer.tree state) := by
    unfold due
    rw [first, if_pos rfl]
  have cut : analyzer.due change memory state = analyzer.due change memory state ++ [] :=
    (List.append_nil _).symm
  by_cases present : ∃ file ∈ analyzer.due change memory state, file.same key = true
  · obtain ⟨file, member, alike⟩ := present
    rw [Analyzer.get?_learned cut member alike]
    rw [everything] at member
    rw [Selection.get?_survey member alike]
  · have apart : ∀ file ∈ analyzer.due change memory state, file.same key = false :=
      fun file member => Bool.eq_false_iff.mpr (fun alike => present ⟨file, member, alike⟩)
    rw [get?_learned_of_apart apart]
    rw [everything] at apart
    rw [Selection.get?_survey_of_apart apart]
    unfold outset
    rw [first, if_pos rfl]
    rfl

/-- A run that comes to its end has learned all there is. -/
theorem surveyed_of_complete (regular : analyzer.selection.Regular)
    (ready : memory.fresh = false → analyzer.Current engine (analyzer.tree state) memory.results
      (analyzer.gathered change memory))
    (told : ∀ file ∈ analyzer.due change memory state,
      (analyzer.tree state).Tells (analyzer.selection.root.join file)) :
    (∀ key, (analyzer.learned change memory state engine
      (analyzer.due change memory state)).results.get? key =
        (analyzer.selection.survey engine (analyzer.tree state)).results.get? key) ∧
      ∀ file ∈ analyzer.selection.inventory (analyzer.tree state),
        (analyzer.tree state).Tells (analyzer.selection.root.join file) := by
  have cut : analyzer.due change memory state = analyzer.due change memory state ++ [] :=
    (List.append_nil _).symm
  cases started : memory.fresh with
  | true =>
      refine ⟨get?_learned_first started, ?_⟩
      intro file member
      apply told
      unfold due
      rw [started, if_pos rfl]
      exact member
  | false =>
      constructor
      · intro key
        exact (ready started).get?_learned regular started cut (fun file member => by cases member)
      · intro file member
        exact (ready started).tells_learned regular started cut told member
          (fun other inRest => by cases inRest)

theorem Current.requeue (regular : analyzer.selection.Regular)
    (current : analyzer.Current engine (analyzer.tree state) memory.results
      (analyzer.gathered change memory))
    (started : memory.fresh = false)
    (cut : analyzer.due change memory state = done ++ rest)
    (told : ∀ file ∈ done, (analyzer.tree state).Tells (analyzer.selection.root.join file)) :
    analyzer.Current engine (analyzer.tree state)
      ((analyzer.learned change memory state engine done).requeue rest).results
      ((analyzer.learned change memory state engine done).requeue rest).pending.pending := by
  have startedRun : (analyzer.learned change memory state engine done).fresh = false :=
    (learned_fields done).2.trans started
  have waits (key : SourcePath) :
      ((analyzer.learned change memory state engine done).requeue rest).pending.pending.touches
        key = rest.any (·.same key) := by
    unfold Change.touches
    rw [Memory.changed_requeue startedRun, Memory.deleted_requeue, (learned_fields done).1]
    change (((false || _) && true) || false) = _
    rw [Bool.false_or, Bool.and_true, Bool.or_false]
  have apart {key : SourcePath} (untouched : ((analyzer.learned change memory state engine
      done).requeue rest).pending.pending.touches key = false) :
      ∀ other ∈ rest, other.same key = false := by
    rw [waits, List.any_eq_false] at untouched
    exact fun other member => Bool.eq_false_iff.mpr (untouched other member)
  refine ⟨?_, ?_, ?_, ?_⟩
  · intro other waiting
    rcases Memory.mem_requeue waiting with before | back
    · rw [(learned_fields done).1] at before
      cases before
    · apply current.spelled
      rw [← due_of_started started, cut]
      exact List.mem_append_right done back
  · intro other _member
    rw [Memory.deleted_requeue, (learned_fields done).1]
    rfl
  · intro key untouched
    rw [(Memory.requeue_fields _ _).1]
    exact current.get?_learned regular started cut (apart untouched)
  · intro other member untouched
    exact current.tells_learned regular started cut told member (apart untouched)

end Runs

theorem report_upToDate (regular : analyzer.selection.Regular) (steady : analyzer.Steady engine)
    (returned : ∀ thrown, (analyzer.report change memory state).1 ≠ .error (.broke thrown))
    (ready : memory.fresh = false → analyzer.Current engine (analyzer.tree state) memory.results
      (analyzer.gathered change memory)) :
    analyzer.UpToDate engine (analyzer.tree state) (analyzer.report change memory state).2.1 ∧
      ∀ issues, (analyzer.report change memory state).1 = .ok issues →
        issues = (analyzer.selection.survey engine (analyzer.tree state)).issues ∧
          ∀ file ∈ analyzer.selection.inventory (analyzer.tree state),
            (analyzer.tree state).Tells (analyzer.selection.root.join file) := by
  obtain ⟨result, last, after, ran, reported⟩ := report_reported steady change memory state
  rw [ran] at returned ⊢
  cases reported with
  | refused signalled => exact ⟨ready, fun issues succeeded => by cases succeeded⟩
  | lost unsignalled first error failed =>
      refine ⟨fun started => ?_, fun issues succeeded => by cases succeeded⟩
      rw [(learned_fields []).2, first] at started
      cases started
  | complete unsignalled told =>
      obtain ⟨all, tells⟩ := surveyed_of_complete regular ready told
      refine ⟨fun _ => ?_, ?_⟩
      · dsimp only
        rw [(learned_fields _).1]
        refine ⟨?_, fun _ _ => rfl, fun key _ => all key, fun file member _ => tells file member⟩
        intro file waiting
        cases waiting
      · intro issues succeeded
        cases succeeded
        exact ⟨Memory.issues_congr (fun key => by rw [all]), tells⟩
  | halted unsignalled done file rest cause cut told =>
      refine ⟨?_, fun issues succeeded => by cases succeeded⟩
      intro started
      rw [(Memory.requeue_fields _ _).2, (learned_fields done).2] at started
      exact (ready started).requeue regular started cut told
  | broken unsignalled done file rest thrown cut told broke => cases returned thrown rfl

/-! ### Whole histories -/

theorem Faithful.front {front rest : List (Occasion σ)}
    (faithful : analyzer.Faithful (front ++ rest)) : analyzer.Faithful front := by
  refine ⟨?_, ?_, ?_, ?_⟩
  · intro lead before call later cut
    exact faithful.told lead before call (later ++ rest) (by rw [cut]; simp)
  · exact fun call member => faithful.existing call (List.mem_append_left rest member)
  · exact fun call member => faithful.spelled call (List.mem_append_left rest member)
  · intro lead call later cut
    exact faithful.patient lead call (later ++ rest) (by rw [cut]; simp)

theorem Returns.front {start : Memory} {front rest : List (Occasion σ)}
    (returned : analyzer.Returns start (front ++ rest)) : analyzer.Returns start front :=
  fun lead call later cut => returned lead call (later ++ rest) (by rw [cut]; simp)

theorem Unbroken.returns (unbroken : analyzer.Unbroken) (start : Memory)
    (calls : List (Occasion σ)) : analyzer.Returns start calls :=
  fun _ _ _ _ => report_ne_broke unbroken

/-- What a faithful history leaves, together with the change of its last call, is current. -/
theorem Faithful.ready (regular : analyzer.selection.Regular) (steady : analyzer.Steady engine)
    {calls : List (Occasion σ)} {call : Occasion σ}
    (faithful : analyzer.Faithful (calls ++ [call]))
    (returned : analyzer.Returns Memory.new calls) :
    (analyzer.remember Memory.new calls).fresh = false →
      analyzer.Current engine (analyzer.tree call.state)
        (analyzer.remember Memory.new calls).results
        (analyzer.gathered call.change (analyzer.remember Memory.new calls)) := by
  -- Every call leaves a reporter up to date, and the next change does not outdate it.
  induction calls using List.reverseRecOn generalizing call with
  | nil => intro started; cases started
  | append_singleton calls before ih =>
      intro started
      have upToDate := (report_upToDate regular steady (returned calls before [] rfl)
        (ih faithful.front returned.front)).1
      rw [← remember_concat] at upToDate
      have inHistory : call ∈ calls ++ [before] ++ [call] :=
        List.mem_concat_self
      apply (upToDate started).gather regular
      · exact faithful.told calls before call [] (by simp)
      · exact faithful.existing call inHistory
      · exact faithful.spelled call inHistory
      · intro file waiting
        rw [deleted_remember steady rfl] at waiting
        exact faithful.patient (calls ++ [before]) call [] rfl file waiting

theorem still_steady : (analyzer.still engine).Steady engine := by
  refine ⟨?_, ?_, ?_, ?_⟩
  · exact fun path tree bytes read => read
  · exact fun path tree read => read
  · intro file text tree issues examined
    cases examined
    rfl
  · exact fun file text tree => rfl

theorem work_still {tree : FileTree} {files : List SourcePath}
    (tells : ∀ file ∈ files, tree.Tells (analyzer.selection.root.join file)) (memory : Memory) :
    (analyzer.still engine).work files memory tree =
      (none, memory.learnAll (analyzer.selection.finding engine tree) files, tree) := by
  induction files generalizing memory with
  | nil => rfl
  | cons file rest ih =>
      have later := ih (fun other member => tells other (List.mem_cons_of_mem _ member))
      unfold work attempt visit still Memory.learnAll
      rw [List.foldl_cons]
      unfold Memory.learn Selection.finding
      dsimp only
      cases read : tree.read (analyzer.selection.root.join file) with
      | ok bytes => exact later _
      | error fault =>
          rw [tells file List.mem_cons_self fault read]
          exact later _

theorem report_still {tree : FileTree} (first : Change)
    (explorable : analyzer.selection.Explorable tree)
    (told : ∀ file ∈ analyzer.selection.inventory tree,
      tree.Tells (analyzer.selection.root.join file)) :
    ((analyzer.still engine).report first Memory.new tree).1 =
      .ok (analyzer.selection.survey engine tree).issues := by
  have everything : (analyzer.still engine).due first Memory.new tree =
      analyzer.selection.inventory tree := rfl
  rw [report_of_begins (rfl : (analyzer.still engine).signalled tree = false)
    (fun _first => explorable), everything, work_still told]
  rfl

theorem Faithful.single {call : Occasion σ}
    (existing : ∀ file ∈ analyzer.selection.inventory (analyzer.tree call.state),
      call.change.deleted.contains file = false)
    (spelled : ∀ file ∈ call.change.changed.files, file.Plain) : analyzer.Faithful [call] := by
  refine ⟨?_, ?_, ?_, ?_⟩
  · intro front before later rest cut
    have lengths := congrArg List.length cut
    simp at lengths
    omega
  · intro other member
    rw [List.mem_singleton.mp member]
    exact existing
  · intro other member
    rw [List.mem_singleton.mp member]
    exact fun file named _selected => spelled file named
  · intro front other rest cut file left
    have lengths := congrArg List.length cut
    cases front with
    | nil => cases left
    | cons first others =>
        simp at lengths

theorem cut_concat {α : Type} {list front rest : List α} {last item : α}
    (cut : list ++ [last] = front ++ item :: rest) :
    (rest = [] ∧ front = list ∧ item = last) ∨
      ∃ others, rest = others ++ [last] ∧ list = front ++ item :: others := by
  rcases List.eq_nil_or_concat rest with nothing | ⟨others, final, more⟩
  · subst nothing
    obtain ⟨fronts, items⟩ := List.append_inj' cut rfl
    cases items
    exact Or.inl ⟨rfl, fronts.symm, rfl⟩
  · rw [List.concat_eq_append] at more
    subst more
    have ends : list ++ [last] = (front ++ item :: others) ++ [final] := by simpa using cut
    obtain ⟨fronts, finals⟩ := List.append_inj' ends rfl
    cases finals
    exact Or.inr ⟨others, rfl, fronts⟩

theorem Faithful.concat (calls : List (Occasion σ)) {before call : Occasion σ}
    (faithful : analyzer.Faithful (calls ++ [before])) (told : analyzer.Told before call)
    (existing : ∀ file ∈ analyzer.selection.inventory (analyzer.tree call.state),
      call.change.deleted.contains file = false)
    (spelled : ∀ file ∈ call.change.changed.files, file.Plain)
    (patient : ∀ file, analyzer.leftDeleted (calls ++ [before]) file = true →
      call.change.changed.contains file = false) :
    analyzer.Faithful (calls ++ [before, call]) := by
  rw [List.append_cons]
  refine ⟨?_, ?_, ?_, ?_⟩
  · intro front earlier later rest cut
    rw [List.append_cons front] at cut
    rcases cut_concat cut with ⟨_ended, fronts, rfl⟩ | ⟨others, _more, inFront⟩
    · cases (List.append_inj' fronts rfl).2
      exact told
    · rw [← List.append_cons] at inFront
      exact faithful.told front earlier later others inFront
  · intro other member
    rcases List.mem_append.mp member with inFront | isLast
    · exact faithful.existing other inFront
    · rw [List.mem_singleton.mp isLast]
      exact existing
  · intro other member
    rcases List.mem_append.mp member with inFront | isLast
    · exact faithful.spelled other inFront
    · rw [List.mem_singleton.mp isLast]
      exact fun file named _selected => spelled file named
  · intro front other rest cut
    rcases cut_concat cut with ⟨_ended, rfl, rfl⟩ | ⟨others, _more, inFront⟩
    · exact patient
    · exact faithful.patient front other others inFront

/-- Files, and how many more examinations the token of a run lasts, if it is to be signalled. -/
structure Rehearsal where
  tree : FileTree
  lasts : Option Nat

/-- An engine that breaks off at fragile texts, in surroundings that signal a token in time. -/
def rehearsing (selection : Selection) (engine : SourcePath → String → List Issue)
    (fragile : String → Bool) : Analyzer Rehearsal :=
  { name := "rehearsal"
    selection := selection
    tree := Rehearsal.tree
    read := fun path state => state.tree.read path
    signalled := fun state => state.lasts = some 0
    examine := fun file text state =>
      (if fragile text then .error (.broke (.text text)) else .ok (engine file text),
        { state with lasts := state.lasts.map (· - 1) }) }

theorem rehearsing_steady (selection : Selection) (engine : SourcePath → String → List Issue)
    (fragile : String → Bool) : (rehearsing selection engine fragile).Steady engine := by
  refine ⟨?_, ?_, ?_, ?_⟩
  · exact fun path state bytes read => read
  · exact fun path state read => read
  · intro file text state issues examined
    change (if fragile text then Except.error (Failure.broke (.text text))
      else Except.ok (engine file text)) = .ok issues at examined
    split at examined
    · cases examined
    · cases examined
      rfl
  · exact fun file text state => rfl

theorem rehearsing_unbroken (selection : Selection)
    (engine : SourcePath → String → List Issue) :
    (rehearsing selection engine (fun _ => false)).Unbroken := by
  intro file text state thrown broke
  cases broke

/-- A directory of sources with the given names and texts. -/
def sources (files : List (String × String)) : FileTree :=
  files.foldl (fun tree (name, text) =>
    tree.write ["p", "src", name] (text.toList.map (UInt8.ofNat ·.toNat))) FileTree.empty

theorem eq_ok_of_toOption {ε α : Type} {result : Except ε α} {value : α}
    (found : result.toOption = some value) : result = .ok value := by
  cases result with
  | error cause => cases found
  | ok held =>
      cases found
      rfl

def sourceSelection : Selection := Selection.of ⟨"/p"⟩ ["src"] [] ["ts"]

theorem sourceSelection_regular : sourceSelection.Regular := by
  apply Selection.of_regular
  · decide
  · intro text member
    rw [List.mem_singleton.mp member]
    decide

theorem first_report (steady : analyzer.Steady engine) {change : Change} {state : σ}
    {issues : List Issue} (succeeded : (analyzer.report change Memory.new state).1 = .ok issues) :
    issues = (analyzer.selection.survey engine (analyzer.tree state)).issues := by
  obtain ⟨result, last, after, ran, reported⟩ := report_reported steady change Memory.new state
  rw [ran] at succeeded
  cases succeeded
  cases reported with
  | complete unsignalled told =>
      exact Memory.issues_congr (fun key => by rw [get?_learned_first rfl])

/-- A report that succeeds after a faithful history, whose calls may have been cancelled or have
failed anywhere, is the first report of a new reporter on the same tree: where nothing fails,
and discovery comes to its end, that report succeeds with the same list, and wherever else it
succeeds the list is the same. -/
theorem report_eq_first_report (regular : analyzer.selection.Regular)
    (steady : analyzer.Steady engine) {calls : List (Occasion σ)} {call : Occasion σ}
    (faithful : analyzer.Faithful (calls ++ [call])) (returned : analyzer.Returns Memory.new calls)
    {issues : List Issue}
    (reported : (analyzer.report call.change (analyzer.remember Memory.new calls)
      call.state).1 = .ok issues) :
    (analyzer.selection.Explorable (analyzer.tree call.state) → ∀ first,
      ((analyzer.still engine).report first Memory.new (analyzer.tree call.state)).1 =
        .ok issues) ∧
      ∀ first state others, analyzer.tree state = analyzer.tree call.state →
        (analyzer.report first Memory.new state).1 = .ok others → others = issues := by
  have ready := faithful.ready regular steady returned
  have whole : ∀ thrown, (analyzer.report call.change (analyzer.remember Memory.new calls)
      call.state).1 ≠ .error (.broke thrown) := by
    intro thrown broke
    rw [reported] at broke
    cases broke
  obtain ⟨equal, told⟩ := (report_upToDate regular steady whole ready).2 issues reported
  constructor
  · intro explorable first
    rw [equal]
    exact report_still first explorable told
  · intro first state others sameTree succeeded
    rw [first_report steady succeeded, equal, sameTree]

namespace Trial

def reporter : Analyzer Rehearsal :=
  rehearsing sourceSelection Delimiters.analyze (fun _ => false)

def full : Occasion Rehearsal :=
  ⟨Change.empty, ⟨sources [("a.ts", "call("), ("b.ts", "x")], none⟩⟩

def unheard : Occasion Rehearsal :=
  ⟨Change.ofFiles [⟨"src/a.ts"⟩] [⟨"src/b.ts"⟩], ⟨sources [("a.ts", "call[")], some 0⟩⟩

def interrupted : Occasion Rehearsal :=
  ⟨Change.ofFiles [⟨"src/a.ts"⟩, ⟨"src/c.ts"⟩] [],
    ⟨sources [("a.ts", "call"), ("c.ts", "\x7d")], some 1⟩⟩

def last : Occasion Rehearsal :=
  ⟨Change.empty, ⟨sources [("a.ts", "call"), ("c.ts", "\x7d")], none⟩⟩

def unexpected : Issue :=
  ⟨⟨"src/c.ts"⟩, 1, 1, .error, "E002", "unexpected closing delimiter '\x7d'", .typeCheck⟩

theorem plain_source (name : String) (step : SourcePath.IsStep (.name name)) :
    SourcePath.Plain (SourcePath.ofComponents [.name "src", .name name]) := by
  refine ⟨["src", name], ?_, rfl⟩
  intro other member
  rcases List.mem_cons.mp member with here | inRest
  · rw [here]
    unfold SourcePath.IsStep
    decide
  · rw [List.mem_singleton.mp inRest]
    exact step

theorem faithful : reporter.Faithful [full, unheard, interrupted, last] := by
  have plainA : SourcePath.Plain ⟨"src/a.ts"⟩ :=
    plain_source "a.ts" (by unfold SourcePath.IsStep; decide)
  have plainC : SourcePath.Plain ⟨"src/c.ts"⟩ :=
    plain_source "c.ts" (by unfold SourcePath.IsStep; decide)
  have first : reporter.Faithful ([] ++ [full]) := by
    apply Faithful.single
    · exact fun file member => rfl
    · exact fun file member => by cases member
  have second : reporter.Faithful ([full] ++ [unheard]) := by
    apply Faithful.concat [] first
    · constructor
      · have named : ∀ file ∈ sourceSelection.inventory unheard.state.tree,
            unheard.change.changed.contains file = true := by decide +kernel
        exact fun file member _edited => named file member
      · have named : ∀ file ∈ sourceSelection.inventory full.state.tree,
            file ∉ sourceSelection.inventory unheard.state.tree →
              unheard.change.deleted.contains file = true := by decide +kernel
        exact named
    · have apart : ∀ file ∈ sourceSelection.inventory unheard.state.tree,
          unheard.change.deleted.contains file = false := by decide +kernel
      exact apart
    · have named : unheard.change.changed.files = [⟨"src/a.ts"⟩] := by decide +kernel
      rw [named]
      intro file member
      rw [List.mem_singleton.mp member]
      exact plainA
    · intro file left
      cases left
  have third : reporter.Faithful ([full, unheard] ++ [interrupted]) := by
    apply Faithful.concat [full] second
    · constructor
      · have named : ∀ file ∈ sourceSelection.inventory interrupted.state.tree,
            interrupted.change.changed.contains file = true := by decide +kernel
        exact fun file member _edited => named file member
      · have named : ∀ file ∈ sourceSelection.inventory unheard.state.tree,
            file ∉ sourceSelection.inventory interrupted.state.tree →
              interrupted.change.deleted.contains file = true := by decide +kernel
        exact named
    · exact fun file member => rfl
    · have named : interrupted.change.changed.files = [⟨"src/a.ts"⟩, ⟨"src/c.ts"⟩] := by
        decide +kernel
      rw [named]
      intro file member
      rcases List.mem_cons.mp member with here | inRest
      · rw [here]
        exact plainA
      · rw [List.mem_singleton.mp inRest]
        exact plainC
    · intro file left
      have removed : unheard.change.deleted.contains file = true := left
      obtain ⟨held, present, alike⟩ := (PathSet.contains_iff _ _).mp removed
      have only : unheard.change.deleted.files = [⟨"src/b.ts"⟩] := by decide +kernel
      rw [only] at present
      rw [List.mem_singleton.mp present] at alike
      rw [← PathSet.contains_congr _ alike]
      decide +kernel
  apply Faithful.concat [full, unheard] third
  · constructor
    · exact fun file member edited => absurd rfl (edited member)
    · exact fun file member missing => absurd member missing
  · exact fun file member => rfl
  · exact fun file member => by cases member
  · exact fun file left => rfl

end Trial

/-- A file is removed unheard, another is made, and the run that was to visit it is cancelled. -/
theorem report_eq_first_report_of_interruptions :
    Trial.reporter.Faithful ([Trial.full, Trial.unheard, Trial.interrupted] ++ [Trial.last]) ∧
      (Trial.reporter.report Trial.last.change
        (Trial.reporter.remember Memory.new [Trial.full, Trial.unheard, Trial.interrupted])
        Trial.last.state).1 = .ok [Trial.unexpected] ∧
      ((Trial.reporter.still Delimiters.analyze).report Change.empty Memory.new
        Trial.last.state.tree).1 = .ok [Trial.unexpected] := by
  have reported : (Trial.reporter.report Trial.last.change
      (Trial.reporter.remember Memory.new [Trial.full, Trial.unheard, Trial.interrupted])
      Trial.last.state).1 = .ok [Trial.unexpected] := by
    have succeeded : (Trial.reporter.report Trial.last.change
        (Trial.reporter.remember Memory.new [Trial.full, Trial.unheard, Trial.interrupted])
        Trial.last.state).1.toOption = some [Trial.unexpected] := by decide +kernel
    exact eq_ok_of_toOption succeeded
  have regular : Trial.reporter.selection.Regular := sourceSelection_regular
  exact ⟨Trial.faithful, reported,
    (report_eq_first_report regular (rehearsing_steady _ _ _) Trial.faithful
      ((rehearsing_unbroken _ _).returns _ _) reported).1 (by decide +kernel) Change.empty⟩

end Analyzer

end Reanalysis
