/-
One call of an analyzer. Whatever a run ends with, it has learned of the files in front
of the one it stopped at what the tree and the engine settle; the rest is put back after
a failure, and is not put back when the engine breaks off.
-/

import Mathlib.Data.List.Perm.Subperm
import Reanalysis.Engine.Analyzer
import Reanalysis.Proofs.CacheHistory
import Reanalysis.Proofs.ChangeContents
import Reanalysis.Proofs.Discovery
import Reanalysis.Proofs.IssueOrder

namespace Reanalysis

def FileTree.Tells (tree : FileTree) (path : SourcePath) : Prop :=
  ∀ fault, tree.read path = .error fault → fault = .notFound

/-- The issues of a file, as its tree and the engine settle them; a file that cannot be read
has none to record. -/
def Selection.finding (selection : Selection) (engine : SourcePath → String → List Issue)
    (tree : FileTree) (file : SourcePath) : Option (List Issue) :=
  match tree.read (selection.root.join file) with
  | .ok bytes => some (engine file (Utf8.lenient bytes))
  | .error _ => none

theorem Selection.finding_of_tells {selection : Selection}
    {engine : SourcePath → String → List Issue}
    {tree : FileTree} {file spelling : SourcePath} {bytes : List UInt8}
    (told : tree.Tells (selection.root.join spelling)) (alike : spelling.same file = true)
    (present : tree.read (selection.root.join file) = .ok bytes) :
    selection.finding engine tree spelling = some (engine spelling (Utf8.lenient bytes)) := by
  unfold finding
  rcases FileTree.read_of_same (SourcePath.same_symm alike) present with
    read | ⟨fault, failed, other⟩
  · rw [read]
  · exact absurd (told fault failed) other

namespace Memory

def learn (finding : SourcePath → Option (List Issue)) (memory : Memory)
    (file : SourcePath) : Memory :=
  match finding file with
  | some issues => memory.record file issues
  | none => memory

def learnAll (finding : SourcePath → Option (List Issue)) (files : List SourcePath)
    (memory : Memory) : Memory :=
  files.foldl (learn finding) memory

variable {finding : SourcePath → Option (List Issue)} {file key : SourcePath}
  {files : List SourcePath} {memory : Memory}

theorem learn_fields : (memory.learn finding file).pending = memory.pending ∧
    (memory.learn finding file).fresh = memory.fresh := by
  unfold learn
  cases finding file with
  | none => exact ⟨rfl, rfl⟩
  | some issues => exact ⟨rfl, rfl⟩

theorem learnAll_fields : (memory.learnAll finding files).pending = memory.pending ∧
    (memory.learnAll finding files).fresh = memory.fresh := by
  induction files generalizing memory with
  | nil => exact ⟨rfl, rfl⟩
  | cons head rest ih =>
      exact ⟨ih.1.trans learn_fields.1, ih.2.trans learn_fields.2⟩

theorem get?_record (memory : Memory) (file : SourcePath) (issues : List Issue)
    (key : SourcePath) :
    (memory.record file issues).results.get? key =
      if file.same key then some issues else memory.results.get? key :=
  PathMap.find?_insert memory.results.results file issues key

theorem get?_learn (memory : Memory) (file key : SourcePath) :
    (memory.learn finding file).results.get? key =
      if file.same key then (finding file).or (memory.results.get? key)
      else memory.results.get? key := by
  unfold learn
  cases finding file with
  | none => rw [Option.none_or, ite_self]
  | some issues => rw [Option.some_or]; exact get?_record memory file issues key

theorem get?_learnAll_of_apart (apart : ∀ file ∈ files, file.same key = false) :
    (memory.learnAll finding files).results.get? key = memory.results.get? key := by
  induction files generalizing memory with
  | nil => rfl
  | cons head rest ih =>
      change ((memory.learn finding head).learnAll finding rest).results.get? key = _
      rw [ih (fun file member => apart file (List.mem_cons_of_mem _ member)), get?_learn,
        apart head List.mem_cons_self, if_neg Bool.false_ne_true]

theorem get?_learnAll_of_mem
    (apart : files.Pairwise (fun first second => first.same second = false))
    (member : file ∈ files) (alike : file.same key = true) :
    (memory.learnAll finding files).results.get? key =
      (finding file).or (memory.results.get? key) := by
  induction files generalizing memory with
  | nil => cases member
  | cons head rest ih =>
      obtain ⟨fromHead, later⟩ := List.pairwise_cons.mp apart
      change ((memory.learn finding head).learnAll finding rest).results.get? key = _
      rcases List.mem_cons.mp member with here | inRest
      · subst here
        have others : ∀ other ∈ rest, other.same key = false := by
          intro other inRest
          rw [Bool.eq_false_iff]
          intro otherAlike
          have clash := SourcePath.same_trans alike (SourcePath.same_symm otherAlike)
          rw [fromHead other inRest] at clash
          cases clash
        rw [get?_learnAll_of_apart others, get?_learn, alike, if_pos rfl]
      · have headApart : head.same key = false := by
          rw [← SourcePath.same_congr_right alike]
          exact fromHead file inRest
        rw [ih later inRest, get?_learn, headApart, if_neg Bool.false_ne_true]

theorem requeue_fields (memory : Memory) (files : List SourcePath) :
    (memory.requeue files).results = memory.results ∧
      (memory.requeue files).fresh = memory.fresh := by
  unfold requeue
  split
  · exact ⟨rfl, rfl⟩
  · exact ⟨rfl, rfl⟩

private theorem withChanged_changed (files : List SourcePath) (key : SourcePath) :
    (Change.empty.withChanged files).changed.contains key = files.any (·.same key) := by
  refine (Change.changed_deletionWins _ key).trans ?_
  change ((PathSet.addAll PathMap.empty files).contains key && true) = _
  rw [PathSet.contains_addAll, Bool.and_true]
  rfl

theorem deleted_requeue (memory : Memory) (files : List SourcePath) (key : SourcePath) :
    (memory.requeue files).pending.pending.deleted.contains key =
      memory.pending.pending.deleted.contains key := by
  unfold requeue
  split
  · rfl
  · refine (Change.deleted_merge _ _ key).trans ?_
    change (_ || (PathMap.empty : PathSet).contains key) = _
    exact Bool.or_false _

theorem changed_requeue (started : memory.fresh = false) (files : List SourcePath)
    (key : SourcePath) :
    (memory.requeue files).pending.pending.changed.contains key =
      ((memory.pending.pending.changed.contains key || files.any (·.same key)) &&
        !memory.pending.pending.deleted.contains key) := by
  have deletions := deleted_requeue memory files key
  unfold requeue at deletions ⊢
  rw [started, if_neg Bool.false_ne_true] at deletions ⊢
  refine (Change.changed_merge _ _ key).trans ?_
  rw [withChanged_changed]
  congr 2

theorem mem_requeue (member : file ∈ (memory.requeue files).pending.pending.changed.files) :
    file ∈ memory.pending.pending.changed.files ∨ file ∈ files := by
  unfold requeue at member
  split at member
  · exact Or.inl member
  · rcases Change.mem_changed_merge member with before | given
    · exact Or.inl before
    · rcases PathSet.mem_files_addAll (PathSet.mem_files_filter given) with none | back
      · cases none
      · exact Or.inr back

end Memory

namespace Analyzer

variable {σ : Type} (analyzer : Analyzer σ) (engine : SourcePath → String → List Issue)

/-- What an engine that goes by path and text keeps to, in surroundings that nobody edits while
it runs. Reading and examining may fail at any time. -/
structure Steady : Prop where
  read_ok : ∀ path state bytes, analyzer.read path state = .ok bytes →
    (analyzer.tree state).read path = .ok bytes
  read_missing : ∀ path state, analyzer.read path state = .error .notFound →
    (analyzer.tree state).read path = .error .notFound
  examine_ok : ∀ file text state issues, (analyzer.examine file text state).1 = .ok issues →
    issues = engine file text
  tree_kept : ∀ file text state,
    analyzer.tree (analyzer.examine file text state).2 = analyzer.tree state

inductive Worked (analyzer : Analyzer σ) (engine : SourcePath → String → List Issue)
    (tree : FileTree) (files : List SourcePath) (memory : Memory) :
    Option Failure → Memory → Prop
  | finished (told : ∀ file ∈ files, tree.Tells (analyzer.selection.root.join file)) :
      Worked analyzer engine tree files memory none
        (memory.learnAll (analyzer.selection.finding engine tree) files)
  | halted (done : List SourcePath) (file : SourcePath) (rest : List SourcePath)
      (cause : AnalysisError) (cut : files = done ++ file :: rest)
      (told : ∀ file ∈ done, tree.Tells (analyzer.selection.root.join file)) :
      Worked analyzer engine tree files memory (some (.error cause))
        ((memory.learnAll (analyzer.selection.finding engine tree) done).requeue (file :: rest))
  | broken (done : List SourcePath) (file : SourcePath) (rest : List SourcePath)
      (thrown : Thrown) (cut : files = done ++ file :: rest)
      (told : ∀ file ∈ done, tree.Tells (analyzer.selection.root.join file))
      (broke : ∃ around, analyzer.tree around = tree ∧
        (analyzer.visit file around).1 = .error (.broke thrown)) :
      Worked analyzer engine tree files memory (some (.broke thrown))
        (memory.learnAll (analyzer.selection.finding engine tree) done)

variable {analyzer engine}

private theorem Worked.after {tree : FileTree} {file : SourcePath} {rest : List SourcePath}
    {memory last : Memory} {stop : Option Failure}
    (told : tree.Tells (analyzer.selection.root.join file))
    (worked : Worked analyzer engine tree rest
      (memory.learn (analyzer.selection.finding engine tree) file) stop last) :
    Worked analyzer engine tree (file :: rest) memory stop last := by
  have extend {done : List SourcePath}
      (all : ∀ other ∈ done, tree.Tells (analyzer.selection.root.join other)) :
      ∀ other ∈ file :: done, tree.Tells (analyzer.selection.root.join other) := by
    intro other member
    rcases List.mem_cons.mp member with here | later
    · rw [here]; exact told
    · exact all other later
  cases worked with
  | finished all => exact Worked.finished (extend all)
  | halted done stopped others cause cut all =>
      exact Worked.halted (file :: done) stopped others cause (by rw [cut]; rfl) (extend all)
  | broken done stopped others thrown cut all broke =>
      exact Worked.broken (file :: done) stopped others thrown (by rw [cut]; rfl) (extend all) broke

theorem visit_of_read {file : SourcePath} {state : σ} {bytes : List UInt8}
    (read : analyzer.read (analyzer.selection.root.join file) state = .ok bytes) :
    analyzer.visit file state =
      ((analyzer.examine file (Utf8.lenient bytes) state).1.map some,
        (analyzer.examine file (Utf8.lenient bytes) state).2) := by
  unfold visit
  simp only [read]

variable (steady : analyzer.Steady engine)
include steady

theorem visit_tree (file : SourcePath) (state : σ) :
    analyzer.tree (analyzer.visit file state).2 = analyzer.tree state := by
  cases read : analyzer.read (analyzer.selection.root.join file) state with
  | ok bytes =>
      rw [visit_of_read read]
      exact steady.tree_kept file (Utf8.lenient bytes) state
  | error fault =>
      unfold visit
      dsimp only
      rw [read]
      cases fault <;> rfl

theorem visit_ok {file : SourcePath} {state : σ} {result : Option (List Issue)}
    (visited : (analyzer.visit file state).1 = .ok result) :
    result = analyzer.selection.finding engine (analyzer.tree state) file ∧
      (analyzer.tree state).Tells (analyzer.selection.root.join file) := by
  unfold Selection.finding FileTree.Tells
  cases read : analyzer.read (analyzer.selection.root.join file) state with
  | ok bytes =>
      have present := steady.read_ok _ _ _ read
      rw [visit_of_read read] at visited
      dsimp only at visited
      cases found : (analyzer.examine file (Utf8.lenient bytes) state).1 with
      | error failure => rw [found] at visited; cases visited
      | ok issues =>
          rw [found] at visited
          cases visited
          rw [present, steady.examine_ok _ _ _ _ found]
          exact ⟨rfl, fun fault failed => by cases failed⟩
  | error fault =>
      unfold visit at visited
      dsimp only at visited
      rw [read] at visited
      cases fault with
      | notFound =>
          cases visited
          rw [steady.read_missing _ _ read]
          exact ⟨rfl, fun fault failed => by cases failed; rfl⟩
      | noSuchDevice | permissionDenied | notADirectory | isADirectory | nameTooLong | holdsNul
        | notUtf8 => cases visited

theorem work_worked (files : List SourcePath) (memory : Memory) (state : σ) :
    Worked analyzer engine (analyzer.tree state) files memory
      (analyzer.work files memory state).1 (analyzer.work files memory state).2.1 := by
  have nothing (tree : FileTree) : ∀ file ∈ ([] : List SourcePath),
      tree.Tells (analyzer.selection.root.join file) :=
    fun file member => by cases member
  induction files generalizing memory state with
  | nil => exact Worked.finished (nothing _)
  | cons file rest ih =>
      unfold work attempt
      cases analyzer.signalled state with
      | true => exact Worked.halted [] file rest .cancelled rfl (nothing _)
      | false =>
          have kept := visit_tree steady file state
          cases outcome : analyzer.visit file state with
          | mk result after =>
              rw [outcome] at kept
              cases result with
              | error failure =>
                  cases failure with
                  | error cause => exact Worked.halted [] file rest cause rfl (nothing _)
                  | broke thrown =>
                      exact Worked.broken [] file rest thrown rfl (nothing _)
                        ⟨state, rfl, congrArg Prod.fst outcome⟩
              | ok found =>
                  obtain ⟨learned, told⟩ := visit_ok steady (congrArg Prod.fst outcome)
                  have later := ih (memory.learn
                    (analyzer.selection.finding engine (analyzer.tree state)) file) after
                  rw [show analyzer.tree after = analyzer.tree state from kept] at later
                  have whole := Worked.after told later
                  unfold Memory.learn at whole
                  rw [← learned] at whole
                  cases found with
                  | none => exact whole
                  | some issues => exact whole

theorem work_tree (files : List SourcePath) (memory : Memory) (state : σ) :
    analyzer.tree (analyzer.work files memory state).2.2 = analyzer.tree state := by
  induction files generalizing memory state with
  | nil => rfl
  | cons file rest ih =>
      unfold work attempt
      cases analyzer.signalled state with
      | true => rfl
      | false =>
          have kept := visit_tree steady file state
          cases outcome : analyzer.visit file state with
          | mk result after =>
              rw [outcome] at kept
              cases result with
              | error failure => cases failure <;> exact kept
              | ok found => cases found <;> exact (ih _ after).trans kept

omit steady

def Unbroken (analyzer : Analyzer σ) : Prop :=
  ∀ file text state thrown, (analyzer.examine file text state).1 ≠ .error (.broke thrown)

theorem work_ne_broke (unbroken : analyzer.Unbroken) (files : List SourcePath) (memory : Memory)
    (state : σ) (thrown : Thrown) :
    (analyzer.work files memory state).1 ≠ some (.broke thrown) := by
  induction files generalizing memory state with
  | nil => intro broke; cases broke
  | cons file rest ih =>
      unfold work attempt
      cases analyzer.signalled state with
      | true => intro broke; cases broke
      | false =>
          cases outcome : analyzer.visit file state with
          | mk result after =>
              cases result with
              | ok found => cases found <;> exact ih _ after
              | error failure =>
                  cases failure with
                  | error cause => intro broke; cases broke
                  | broke reason =>
                      exfalso
                      cases read : analyzer.read (analyzer.selection.root.join file) state with
                      | ok bytes =>
                          rw [visit_of_read read] at outcome
                          cases examined : (analyzer.examine file (Utf8.lenient bytes) state).1 with
                          | ok issues => rw [examined] at outcome; cases outcome
                          | error failed =>
                              rw [examined] at outcome
                              cases outcome
                              exact unbroken _ _ _ _ examined
                      | error fault =>
                          unfold visit at outcome
                          dsimp only at outcome
                          rw [read] at outcome
                          cases fault <;> cases outcome

/-! ### Calls -/

variable (analyzer) (change : Change) (memory : Memory) (state : σ)

def gathered : Change := (memory.pending.accumulate (analyzer.selected change)).pending

/-- The files that a run visits, if it can find them. -/
def due : List SourcePath :=
  if memory.fresh then analyzer.selection.inventory (analyzer.tree state)
  else (analyzer.gathered change memory).changed.files

def outset : Memory :=
  { memory with
    results :=
      if memory.fresh then ResultCache.empty
      else memory.results.invalidate (analyzer.gathered change memory)
    pending := PendingChanges.empty }

def learned (engine : SourcePath → String → List Issue) (done : List SourcePath) : Memory :=
  (analyzer.outset change memory).learnAll
    (analyzer.selection.finding engine (analyzer.tree state)) done

def Begins : Prop := memory.fresh = true → analyzer.selection.Explorable (analyzer.tree state)

/-- All that a call can come to. -/
inductive Reported (engine : SourcePath → String → List Issue) :
    Except Failure (List Issue) → Memory → Prop
  | refused (signalled : analyzer.signalled state = true) :
      Reported engine (.error (.error .cancelled))
        { memory with pending := ⟨analyzer.gathered change memory⟩ }
  | lost (unsignalled : analyzer.signalled state = false) (first : memory.fresh = true)
      (error : ConfigError)
      (failed : analyzer.selection.discover (analyzer.tree state) = .error error) :
      Reported engine (.error (.error (.ofConfig error)))
        (analyzer.learned change memory state engine [])
  | complete (unsignalled : analyzer.signalled state = false)
      (told : ∀ file ∈ analyzer.due change memory state,
        (analyzer.tree state).Tells (analyzer.selection.root.join file)) :
      Reported engine
        (.ok (analyzer.learned change memory state engine
          (analyzer.due change memory state)).issues)
        { analyzer.learned change memory state engine (analyzer.due change memory state) with
          fresh := false }
  | halted (unsignalled : analyzer.signalled state = false) (done : List SourcePath)
      (file : SourcePath) (rest : List SourcePath) (cause : AnalysisError)
      (cut : analyzer.due change memory state = done ++ file :: rest)
      (told : ∀ file ∈ done,
        (analyzer.tree state).Tells (analyzer.selection.root.join file)) :
      Reported engine (.error (.error cause))
        ((analyzer.learned change memory state engine done).requeue (file :: rest))
  | broken (unsignalled : analyzer.signalled state = false) (done : List SourcePath)
      (file : SourcePath) (rest : List SourcePath) (thrown : Thrown)
      (cut : analyzer.due change memory state = done ++ file :: rest)
      (told : ∀ file ∈ done,
        (analyzer.tree state).Tells (analyzer.selection.root.join file))
      (broke : ∃ around, analyzer.tree around = analyzer.tree state ∧
        (analyzer.visit file around).1 = .error (.broke thrown)) :
      Reported engine (.error (.broke thrown))
        (analyzer.learned change memory state engine done)

variable {analyzer change memory state}

theorem takeUp_of_signalled (signalled : analyzer.signalled state = true) :
    analyzer.takeUp change memory state =
      (.error .cancelled, { memory with pending := ⟨analyzer.gathered change memory⟩ }) := by
  unfold takeUp
  dsimp only
  rw [signalled, if_pos rfl]
  rfl

theorem takeUp_of_begins (unsignalled : analyzer.signalled state = false)
    (begins : analyzer.Begins memory state) :
    analyzer.takeUp change memory state =
      (.ok (analyzer.due change memory state), analyzer.outset change memory) := by
  unfold Begins at begins
  unfold takeUp due outset gathered
  dsimp only
  rw [unsignalled, if_neg Bool.false_ne_true]
  cases started : memory.fresh with
  | true =>
      rw [if_pos rfl, begins started]
      rfl
  | false => rfl

theorem takeUp_of_lost (unsignalled : analyzer.signalled state = false)
    (first : memory.fresh = true) {error : ConfigError}
    (failed : analyzer.selection.discover (analyzer.tree state) = .error error) :
    analyzer.takeUp change memory state =
      (.error (.ofConfig error), analyzer.outset change memory) := by
  unfold takeUp outset gathered
  dsimp only
  rw [unsignalled, if_neg Bool.false_ne_true, first, if_pos rfl, failed]
  rfl

theorem report_of_signalled (signalled : analyzer.signalled state = true) :
    analyzer.report change memory state =
      (.error (.error .cancelled), { memory with pending := ⟨analyzer.gathered change memory⟩ },
        state) := by
  unfold report
  rw [takeUp_of_signalled signalled]
  rfl

theorem report_of_begins (unsignalled : analyzer.signalled state = false)
    (begins : analyzer.Begins memory state) :
    analyzer.report change memory state =
      let run := analyzer.work (analyzer.due change memory state)
        (analyzer.outset change memory) state
      ((conclude run.1 run.2.1).1, (conclude run.1 run.2.1).2, run.2.2) := by
  unfold report
  rw [takeUp_of_begins unsignalled begins]
  rfl

theorem report_of_lost (unsignalled : analyzer.signalled state = false)
    (first : memory.fresh = true) {error : ConfigError}
    (failed : analyzer.selection.discover (analyzer.tree state) = .error error) :
    analyzer.report change memory state =
      (.error (.error (.ofConfig error)), analyzer.outset change memory, state) := by
  unfold report
  rw [takeUp_of_lost unsignalled first failed]
  rfl

theorem begins_of_started (started : memory.fresh = false) (state : σ) :
    analyzer.Begins memory state :=
  fun first => by rw [started] at first; cases first

theorem begins_or_lost (analyzer : Analyzer σ) (memory : Memory) (state : σ) :
    analyzer.Begins memory state ∨ memory.fresh = true ∧
      ∃ error, analyzer.selection.discover (analyzer.tree state) = .error error := by
  cases started : memory.fresh with
  | false => exact Or.inl (begins_of_started started state)
  | true =>
      rcases Selection.discover_cases analyzer.selection (analyzer.tree state) with
        explorable | ⟨error, failed, _sighted⟩
      · exact Or.inl fun _ => explorable
      · exact Or.inr ⟨rfl, error, failed⟩

theorem report_ne_broke (unbroken : analyzer.Unbroken) (thrown : Thrown) :
    (analyzer.report change memory state).1 ≠ .error (.broke thrown) := by
  cases signalled : analyzer.signalled state with
  | true =>
      rw [report_of_signalled signalled]
      intro broke
      cases broke
  | false =>
      rcases begins_or_lost analyzer memory state with begins | ⟨first, error, failed⟩
      · rw [report_of_begins signalled begins]
        dsimp only
        intro broke
        cases stop : (analyzer.work (analyzer.due change memory state)
          (analyzer.outset change memory) state).1 with
        | none => rw [stop] at broke; cases broke
        | some failure =>
            rw [stop] at broke
            cases broke
            exact work_ne_broke unbroken _ _ _ _ stop
      · rw [report_of_lost signalled first failed]
        intro broke
        cases broke

/-- A call does one of these things, whatever happens while it runs. -/
theorem report_reported (steady : analyzer.Steady engine) (change : Change) (memory : Memory)
    (state : σ) :
    ∃ result last after, analyzer.report change memory state = (result, last, after) ∧
      Reported analyzer change memory state engine result last := by
  refine ⟨(analyzer.report change memory state).1, (analyzer.report change memory state).2.1,
    (analyzer.report change memory state).2.2, rfl, ?_⟩
  cases signalled : analyzer.signalled state with
  | true =>
      rw [report_of_signalled signalled]
      exact Reported.refused signalled
  | false =>
      rcases begins_or_lost analyzer memory state with begins | ⟨first, error, failed⟩
      · rw [report_of_begins signalled begins]
        dsimp only
        have worked := work_worked steady (analyzer.due change memory state)
          (analyzer.outset change memory) state
        revert worked
        generalize (analyzer.work _ _ state).1 = stop
        generalize (analyzer.work _ _ state).2.1 = last
        intro worked
        cases worked with
        | finished told => exact Reported.complete signalled told
        | halted done file rest cause cut told =>
            exact Reported.halted signalled done file rest cause cut told
        | broken done file rest thrown cut told broke =>
            exact Reported.broken signalled done file rest thrown cut told broke
      · rw [report_of_lost signalled first failed]
        exact Reported.lost signalled first error failed

/-! ### What a call takes up -/

theorem deleted_selected (key : SourcePath) :
    (analyzer.selected change).deleted.contains key = change.deleted.contains key := by
  unfold selected
  rw [Change.deleted_ofFiles, PathSet.any_same_files]

theorem changed_selected (key : SourcePath) :
    (analyzer.selected change).changed.contains key =
      (change.changed.contains key && analyzer.selection.selects key &&
        !change.deleted.contains key) := by
  unfold selected
  rw [Change.changed_ofFiles, PathSet.any_same_files]
  congr 1
  rw [Bool.eq_iff_iff, Bool.and_eq_true, PathSet.contains_iff, List.any_eq_true]
  constructor
  · rintro ⟨file, member, alike⟩
    obtain ⟨present, selected⟩ := List.mem_filter.mp member
    exact ⟨⟨file, present, alike⟩, by rw [← Selection.selects_of_same alike]; exact selected⟩
  · rintro ⟨⟨file, present, alike⟩, selected⟩
    refine ⟨file, List.mem_filter.mpr ⟨present, ?_⟩, alike⟩
    rw [Selection.selects_of_same alike]
    exact selected

theorem deleted_gathered (key : SourcePath) :
    (analyzer.gathered change memory).deleted.contains key =
      (memory.pending.pending.deleted.contains key || change.deleted.contains key) := by
  refine (Change.deleted_merge _ _ key).trans ?_
  rw [deleted_selected]

theorem changed_gathered (key : SourcePath) :
    (analyzer.gathered change memory).changed.contains key =
      ((memory.pending.pending.changed.contains key ||
        (change.changed.contains key && analyzer.selection.selects key)) &&
        !(memory.pending.pending.deleted.contains key || change.deleted.contains key)) := by
  refine (Change.changed_merge _ _ key).trans ?_
  rw [changed_selected]
  change (_ && !(analyzer.gathered change memory).deleted.contains key) = _
  rw [deleted_gathered]
  cases change.deleted.contains key <;> simp

theorem mem_gathered {file : SourcePath}
    (member : file ∈ (analyzer.gathered change memory).changed.files) :
    file ∈ memory.pending.pending.changed.files ∨
      (file ∈ change.changed.files ∧ analyzer.selection.selects file = true) := by
  rcases Change.mem_changed_merge member with before | given
  · exact Or.inl before
  · exact Or.inr (List.mem_filter.mp (Change.mem_changed_ofFiles given))

theorem due_apart (analyzer : Analyzer σ) (change : Change) (memory : Memory) (state : σ) :
    (analyzer.due change memory state).Pairwise
      (fun first second => first.same second = false) := by
  unfold due
  split
  · exact PathSet.files_apart _
  · exact PathSet.files_apart _

theorem get?_outset (started : memory.fresh = false) (key : SourcePath) :
    (analyzer.outset change memory).results.get? key =
      if (analyzer.gathered change memory).touches key then none
      else memory.results.get? key := by
  unfold outset
  dsimp only
  rw [started, if_neg Bool.false_ne_true]
  exact ResultCache.get?_invalidate _ _ key

theorem get?_outset_of_due {file key : SourcePath}
    (member : file ∈ analyzer.due change memory state) (alike : file.same key = true) :
    (analyzer.outset change memory).results.get? key = none := by
  cases started : memory.fresh with
  | true =>
      unfold outset
      rw [started, if_pos rfl]
      rfl
  | false =>
      unfold due at member
      rw [started, if_neg Bool.false_ne_true] at member
      rw [get?_outset started, if_pos]
      unfold Change.touches
      rw [← PathSet.contains_congr _ alike, PathSet.contains_of_mem member, Bool.true_or]

theorem get?_learned {done rest : List SourcePath} {file key : SourcePath}
    (cut : analyzer.due change memory state = done ++ rest) (member : file ∈ done)
    (alike : file.same key = true) :
    (analyzer.learned change memory state engine done).results.get? key =
      analyzer.selection.finding engine (analyzer.tree state) file := by
  have inDue : file ∈ analyzer.due change memory state := by
    rw [cut]
    exact List.mem_append_left rest member
  have apart := due_apart analyzer change memory state
  rw [cut] at apart
  unfold learned
  rw [Memory.get?_learnAll_of_mem (List.pairwise_append.mp apart).1 member alike,
    get?_outset_of_due inDue alike, Option.or_none]

theorem get?_learned_of_apart {done : List SourcePath} {key : SourcePath}
    (apart : ∀ file ∈ done, file.same key = false) :
    (analyzer.learned change memory state engine done).results.get? key =
      (analyzer.outset change memory).results.get? key :=
  Memory.get?_learnAll_of_apart apart

theorem learned_fields (done : List SourcePath) :
    (analyzer.learned change memory state engine done).pending = PendingChanges.empty ∧
      (analyzer.learned change memory state engine done).fresh = memory.fresh :=
  Memory.learnAll_fields

end Analyzer

namespace Memory

theorem snapshot_flatten (memory : Memory) :
    memory.results.snapshot.flatten = memory.results.results.entries.flatMap (·.2) := by
  unfold ResultCache.snapshot PathMap.values
  rw [← List.flatMap_id, List.flatMap_map]
  rfl

/-- What is reported is settled by the issues of each file as they are sorted; a file without
issues counts as absent. -/
theorem issues_eq_of_sort {left right : Memory}
    (agree : ∀ key, Issue.sort ((left.results.get? key).getD []) =
      Issue.sort ((right.results.get? key).getD [])) :
    left.issues = right.issues := by
  have partOf_beside (place : Issue) (entries : List (SourcePath × List Issue))
      (key : SourcePath) :
      PathMap.partOf place.beside entries key =
        place.beside ((PathMap.lookup entries key).getD []) := by
    unfold PathMap.partOf
    cases PathMap.lookup entries key <;> rfl
  unfold issues
  rw [Issue.sort_eq_iff]
  intro place
  rw [snapshot_flatten, snapshot_flatten, Issue.beside_flatMap, Issue.beside_flatMap]
  apply PathMap.flatMap_eq_of_partOf place.beside left.results.results.ascending
    right.results.results.ascending
  intro key
  rw [partOf_beside, partOf_beside]
  exact Issue.sort_eq_iff.mp (agree key) place

theorem issues_congr {left right : Memory}
    (agree : ∀ key, (left.results.get? key).getD [] = (right.results.get? key).getD []) :
    left.issues = right.issues :=
  issues_eq_of_sort (fun key => congrArg Issue.sort (agree key))

end Memory

/-- An engine that reports each issue under the file it was given. -/
def Filing (engine : SourcePath → String → List Issue) : Prop :=
  ∀ file text, ∀ issue ∈ engine file text, issue.file.same file = true

theorem Selection.filing_finding {engine : SourcePath → String → List Issue}
    (filing : Filing engine) {selection : Selection} {tree : FileTree} {file : SourcePath}
    {found : List Issue}
    (learned : selection.finding engine tree file = some found) :
    ∀ issue ∈ found, issue.file.same file = true := by
  unfold finding at learned
  split at learned
  · cases learned
    exact filing file _
  · cases learned

namespace Memory

/-- Whatever is remembered of a file stands under that file. -/
def Filed (memory : Memory) : Prop :=
  ∀ key found, memory.results.get? key = some found →
    ∀ issue ∈ found, issue.file.same key = true

theorem filed_new : Memory.new.Filed := by
  intro key found held
  cases held

theorem mem_issues {memory : Memory} {issue : Issue} (member : issue ∈ memory.issues) :
    ∃ file found, memory.results.get? file = some found ∧ issue ∈ found := by
  unfold issues Issue.sort at member
  rw [List.mem_mergeSort] at member
  obtain ⟨found, inSnapshot, inFound⟩ := List.mem_flatten.mp member
  obtain ⟨⟨file, held⟩, present, rfl⟩ := List.mem_map.mp inSnapshot
  exact ⟨file, held, PathMap.find?_of_mem _ present, inFound⟩

theorem subperm_issues {memory : Memory} {file : SourcePath} {found : List Issue}
    (held : memory.results.get? file = some found) : found.Subperm memory.issues := by
  obtain ⟨key, present, _alike⟩ := PathMap.exists_of_lookup held
  have inSnapshot : found ∈ memory.results.snapshot :=
    List.mem_map.mpr ⟨(key, found), present, rfl⟩
  have within : found.Subperm memory.results.snapshot.flatten :=
    (List.sublist_flatten_of_mem inSnapshot).subperm
  exact within.trans (List.mergeSort_perm _ _).symm.subperm

theorem Filed.beside_issues {memory : Memory} (filed : memory.Filed) (place : Issue) :
    place.beside memory.issues = place.beside ((memory.results.get? place.file).getD []) := by
  unfold issues
  rw [Issue.beside_sort, snapshot_flatten, Issue.beside_flatMap]
  let alone : List (SourcePath × List Issue) :=
    [(place.file, (memory.results.get? place.file).getD [])]
  have single : alone.flatMap (fun entry => place.beside entry.2) =
      place.beside ((memory.results.get? place.file).getD []) := List.flatMap_singleton ..
  rw [← single]
  apply PathMap.flatMap_eq_of_partOf place.beside memory.results.results.ascending
    (List.pairwise_singleton _ _)
  intro key
  unfold PathMap.partOf
  rw [PathMap.lookup_cons]
  cases alike : place.file.same key with
  | true =>
      rw [if_pos rfl]
      have atKey := PathMap.find?_congr memory.results.results alike
      unfold ResultCache.get?
      rw [atKey, PathMap.find?_eq_lookup]
      cases PathMap.lookup memory.results.results.entries key <;> rfl
  | false =>
      rw [if_neg Bool.false_ne_true]
      change _ = []
      cases held : PathMap.lookup memory.results.results.entries key with
      | none => rfl
      | some found =>
          change place.beside found = []
          rw [List.eq_nil_iff_forall_not_mem]
          intro issue member
          obtain ⟨inFound, equal⟩ := Issue.mem_beside.mp member
          have underKey := filed key found held issue inFound
          have underPlace := SourcePath.same_symm (Issue.same_file_of_order equal)
          rw [SourcePath.same_trans underPlace underKey] at alike
          cases alike

theorem Filed.issues_apart {memory : Memory} (filed : memory.Filed) {file : SourcePath}
    (absent : memory.results.get? file = none) :
    ∀ issue ∈ memory.issues, issue.file.same file = false := by
  intro issue member
  rw [Bool.eq_false_iff]
  intro alike
  obtain ⟨key, found, held, inFound⟩ := mem_issues member
  have underKey := filed key found held issue inFound
  have sameKey := SourcePath.same_trans (SourcePath.same_symm underKey) alike
  have heldFile := (PathMap.find?_congr memory.results.results sameKey).symm.trans held
  unfold ResultCache.get? at absent
  rw [absent] at heldFile
  cases heldFile

theorem Filed.learnAll {finding : SourcePath → Option (List Issue)} {files : List SourcePath}
    (filing : ∀ file found, finding file = some found →
      ∀ issue ∈ found, issue.file.same file = true)
    {memory : Memory} (filed : memory.Filed) : (memory.learnAll finding files).Filed := by
  induction files generalizing memory with
  | nil => exact filed
  | cons head rest ih =>
      apply ih
      intro key found held issue member
      rw [get?_learn] at held
      split at held
      · rename_i alike
        cases atHead : finding head with
        | none =>
            rw [atHead, Option.none_or] at held
            exact filed key found held issue member
        | some headIssues =>
            rw [atHead, Option.some_or] at held
            cases held
            exact SourcePath.same_trans (filing head found atHead issue member) alike
      · exact filed key found held issue member

end Memory

theorem Selection.filed_learnAll {selection : Selection}
    {engine : SourcePath → String → List Issue} (filing : Filing engine) {memory : Memory}
    (filed : memory.Filed) (tree : FileTree) (files : List SourcePath) :
    (memory.learnAll (selection.finding engine tree) files).Filed :=
  Memory.Filed.learnAll (fun _file _found learned => filing_finding filing learned) filed

namespace Analyzer

variable {σ : Type} {analyzer : Analyzer σ} {engine : SourcePath → String → List Issue}

theorem filed_learned (filing : Filing engine) {change : Change} {memory : Memory} {state : σ}
    (filed : memory.Filed) (done : List SourcePath) :
    (analyzer.learned change memory state engine done).Filed := by
  apply Selection.filed_learnAll filing
  intro key found held
  cases started : memory.fresh with
  | true =>
      unfold outset at held
      rw [started, if_pos rfl] at held
      cases held
  | false =>
      rw [get?_outset started] at held
      split at held
      · cases held
      · exact filed key found held

theorem filed_report (steady : analyzer.Steady engine) (filing : Filing engine)
    {change : Change} {memory : Memory} {state : σ} (filed : memory.Filed) :
    (analyzer.report change memory state).2.1.Filed := by
  obtain ⟨result, last, after, ran, reported⟩ := report_reported steady change memory state
  rw [ran]
  cases reported with
  | refused signalled => exact filed
  | lost unsignalled first error failed =>
      have kept : (analyzer.learned change memory state engine []).Filed :=
        filed_learned filing filed []
      exact kept
  | complete unsignalled told => exact filed_learned filing filed _
  | halted unsignalled done file rest cause cut told =>
      unfold Memory.Filed
      rw [(Memory.requeue_fields _ _).1]
      exact filed_learned filing filed done
  | broken unsignalled done file rest thrown cut told broke => exact filed_learned filing filed done

end Analyzer

end Reanalysis
