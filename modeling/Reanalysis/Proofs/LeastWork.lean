/-
One call of an analyzer, file by file: which files its engine is called on, what is remembered of
each file afterwards, and which files are put back. In front of each visit others may alter the
files and signal the token of the run.
-/

import Reanalysis.Proofs.IncrementalHistory

namespace Reanalysis

theorem Change.deletionWins_of_undeleted {change : Change}
    (undeleted : change.deleted = PathMap.empty) : change.deletionWins = change := by
  obtain ⟨changed, deleted⟩ := change
  cases undeleted
  unfold deletionWins
  congr 1
  apply PathMap.eq_of_entries
  exact List.filter_eq_self.mpr fun entry _member => rfl

namespace Memory

/-- A run that fails puts back what it has not finished; one that breaks off does not. -/
def leave (memory : Memory) (stop : Option Failure) (rest : List SourcePath) : Memory :=
  match stop with
  | some (.error _) => memory.requeue rest
  | _ => memory

theorem leave_fields (memory : Memory) (stop : Option Failure) (rest : List SourcePath) :
    (memory.leave stop rest).results = memory.results ∧
      (memory.leave stop rest).fresh = memory.fresh := by
  unfold leave
  split
  · exact memory.requeue_fields rest
  · exact ⟨rfl, rfl⟩

theorem learnAll_congr {found other : SourcePath → Option (List Issue)}
    {files : List SourcePath} (agree : ∀ file ∈ files, found file = other file) (memory : Memory) :
    memory.learnAll found files = memory.learnAll other files := by
  induction files generalizing memory with
  | nil => rfl
  | cons file rest ih =>
      have first : memory.learn found file = memory.learn other file := by
        unfold learn
        rw [agree file List.mem_cons_self]
      change (memory.learn found file).learnAll found rest = _
      rw [first]
      exact ih (fun later member => agree later (List.mem_cons_of_mem _ member)) _

theorem pending_requeue {memory : Memory} (started : memory.fresh = false)
    (drained : memory.pending = PendingChanges.empty) {files : List SourcePath}
    (ascending : files.Pairwise SourcePath.precedes) :
    (memory.requeue files).pending.pending.changed.files = files ∧
      (memory.requeue files).pending.pending.deleted.files = [] := by
  have merged : (memory.requeue files).pending.pending =
      ⟨PathSet.addAll PathMap.empty files, PathMap.empty⟩ := by
    unfold requeue
    rw [started, if_neg Bool.false_ne_true]
    dsimp only
    rw [drained, Change.accumulate_empty]
    unfold Change.withChanged
    rw [Change.deletionWins_of_undeleted rfl, Change.deletionWins_of_undeleted rfl]
    rfl
  have same : (files.map fun file => (file, ())).map Prod.fst = files := by
    rw [List.map_map]
    exact List.map_id files
  have taken : (PathSet.addAll PathMap.empty files).entries =
      files.map fun file => (file, ()) := by
    have later : ((PathMap.empty : PathSet).entries ++
        files.map fun file => (file, ())).Pairwise PathMap.Before :=
      List.pairwise_map.mpr ascending
    have added := PathSet.addAll_later PathMap.empty later
    rw [same] at added
    exact added
  rw [merged]
  unfold PathSet.files PathMap.keys
  rw [taken]
  exact ⟨same, rfl⟩

theorem pending_leave {memory : Memory} (started : memory.fresh = false)
    (drained : memory.pending = PendingChanges.empty) {rest : List SourcePath}
    (ascending : rest.Pairwise SourcePath.precedes) (stop : Option Failure) :
    (∃ cause, stop = some (.error cause)) ∧
        (memory.leave stop rest).pending.pending.changed.files = rest ∧
        (memory.leave stop rest).pending.pending.deleted.files = [] ∨
      (∀ cause, stop ≠ some (.error cause)) ∧
        (memory.leave stop rest).pending = PendingChanges.empty := by
  unfold leave
  cases stop with
  | none => exact Or.inr ⟨fun _cause same => (nomatch same), drained⟩
  | some failure =>
      cases failure with
      | error cause => exact Or.inl ⟨⟨cause, rfl⟩, pending_requeue started drained ascending⟩
      | broke thrown => exact Or.inr ⟨fun _cause same => (nomatch same), drained⟩

end Memory

namespace Analyzer

variable {σ : Type} (analyzer : Analyzer σ) (meanwhile : SourcePath → σ → σ)

/-- Visits files in their order. In front of each visit something may happen from outside. -/
def workAmid : List SourcePath → Memory → σ → Option Failure × Memory × σ
  | [], memory, state => (none, memory, state)
  | file :: rest, memory, state =>
      match analyzer.attempt file rest memory (meanwhile file state) with
      | (none, memory, after) => workAmid rest memory after
      | (some failure, memory, after) => (some failure, memory, after)

def reportAmid (change : Change) (memory : Memory) (state : σ) :
    Except Failure (List Issue) × Memory × σ :=
  match analyzer.takeUp change memory state with
  | (.error cause, memory) => (.error (.error cause), memory, state)
  | (.ok files, memory) =>
      let (stop, memory, after) := analyzer.workAmid meanwhile files memory state
      let (result, memory) := conclude stop memory
      (result, memory, after)

theorem work_eq (files : List SourcePath) (memory : Memory) (state : σ) :
    analyzer.work files memory state =
      analyzer.workAmid (fun _file state => state) files memory state := by
  induction files generalizing memory state with
  | nil => rfl
  | cons file rest ih =>
      unfold work workAmid
      cases analyzer.attempt file rest memory state with
      | mk stop later =>
          cases stop with
          | none => exact ih later.1 later.2
          | some failure => rfl

theorem report_eq (change : Change) (memory : Memory) (state : σ) :
    analyzer.report change memory state =
      analyzer.reportAmid (fun _file state => state) change memory state := by
  unfold report reportAmid finish
  cases analyzer.takeUp change memory state with
  | mk start memory =>
      cases start with
      | error cause => rfl
      | ok files =>
          dsimp only
          rw [work_eq]

/-- The analyzer beside a list of the files that its engine has been called on. -/
def listing : Analyzer (List SourcePath × σ) :=
  { name := analyzer.name
    selection := analyzer.selection
    tree := fun state => analyzer.tree state.2
    read := fun path state => analyzer.read path state.2
    signalled := fun state => analyzer.signalled state.2
    examine := fun file text state =>
      let (found, after) := analyzer.examine file text state.2
      (found, state.1 ++ [file], after) }

/-- The files that a call has its engine examine, one after another. -/
def called (change : Change) (memory : Memory) (state : σ) : List SourcePath :=
  (analyzer.listing.reportAmid (fun file state => (state.1, meanwhile file state.2)) change memory
    ([], state)).2.2.1

/-- A run gets past a file: it is gone, or it is there and the engine finds its issues. -/
inductive Passes (file : SourcePath) (around : σ) : Option (List Issue) → σ → Prop
  | gone (unsignalled : analyzer.signalled around = false)
      (read : analyzer.read (analyzer.selection.root.join file) around = .error .notFound) :
      Passes file around none around
  | examined (unsignalled : analyzer.signalled around = false) {bytes : List UInt8}
      (read : analyzer.read (analyzer.selection.root.join file) around = .ok bytes)
      {issues : List Issue} {after : σ}
      (found : analyzer.examine file (Utf8.lenient bytes) around = (.ok issues, after)) :
      Passes file around (some issues) after

/-- A run stops at a file, with its engine called on it or not. -/
inductive Stops (file : SourcePath) (around : σ) : Failure → List SourcePath → Prop
  | cancelled (signalled : analyzer.signalled around = true) :
      Stops file around (.error .cancelled) []
  | unreadable (unsignalled : analyzer.signalled around = false) {fault : FileFault}
      (read : analyzer.read (analyzer.selection.root.join file) around = .error fault)
      (present : fault ≠ .notFound) :
      Stops file around (.error (.engine analyzer.name ("failed to read " ++
        (analyzer.selection.root.join file).text ++ ": " ++ fault.message))) []
  | failed (unsignalled : analyzer.signalled around = false) {bytes : List UInt8}
      (read : analyzer.read (analyzer.selection.root.join file) around = .ok bytes)
      {failure : Failure} {after : σ}
      (failed : analyzer.examine file (Utf8.lenient bytes) around = (.error failure, after)) :
      Stops file around failure [file]

variable {analyzer meanwhile}

theorem visit_listing (file : SourcePath) (calls : List SourcePath) (around : σ) :
    analyzer.listing.visit file (calls, around) =
      ((analyzer.visit file around).1,
        match analyzer.read (analyzer.selection.root.join file) around with
        | .ok _ => calls ++ [file]
        | .error _ => calls,
        (analyzer.visit file around).2) := by
  unfold visit listing
  dsimp only
  cases analyzer.read (analyzer.selection.root.join file) around with
  | ok bytes => rfl
  | error fault => cases fault <;> rfl

theorem attempt_met (analyzer : Analyzer σ) (file : SourcePath) (rest : List SourcePath)
    (memory : Memory) (calls : List SourcePath) (around : σ) :
    (∃ found after, analyzer.Passes file around found after ∧
      analyzer.attempt file rest memory around = (none, memory.learn (fun _ => found) file, after) ∧
      analyzer.listing.attempt file rest memory (calls, around) =
        (none, memory.learn (fun _ => found) file,
          calls ++ [file].filter (fun _ => found.isSome), after)) ∨
    ∃ failure own after, analyzer.Stops file around failure own ∧
      analyzer.attempt file rest memory around =
        (some failure, memory.leave (some failure) (file :: rest), after) ∧
      analyzer.listing.attempt file rest memory (calls, around) =
        (some failure, memory.leave (some failure) (file :: rest), calls ++ own, after) := by
  have asked : analyzer.listing.signalled (calls, around) = analyzer.signalled around := rfl
  unfold attempt
  rw [asked, visit_listing]
  cases signalled : analyzer.signalled around with
  | true =>
      exact Or.inr ⟨_, _, _, Stops.cancelled signalled, rfl, by rw [List.append_nil]; rfl⟩
  | false =>
      rw [if_neg Bool.false_ne_true, if_neg Bool.false_ne_true]
      cases read : analyzer.read (analyzer.selection.root.join file) around with
      | ok bytes =>
          rw [visit_of_read read]
          cases examined : analyzer.examine file (Utf8.lenient bytes) around with
          | mk result after =>
              cases result with
              | ok issues =>
                  exact Or.inl ⟨_, _, Passes.examined signalled read examined, rfl, rfl⟩
              | error failure =>
                  refine Or.inr ⟨_, _, after, Stops.failed signalled read examined, ?_⟩
                  cases failure with
                  | error cause => exact ⟨rfl, rfl⟩
                  | broke thrown => exact ⟨rfl, rfl⟩
      | error fault =>
          unfold visit
          dsimp only
          rw [read]
          by_cases missing : fault = .notFound
          · subst missing
            exact Or.inl ⟨_, _, Passes.gone signalled read, rfl,
              congrArg (fun grown => (none, memory, grown, around)) (List.append_nil calls).symm⟩
          · refine Or.inr ⟨_, _, around, Stops.unreadable signalled read missing, ?_⟩
            cases fault with
            | notFound => exact absurd rfl missing
            | noSuchDevice | permissionDenied | notADirectory | isADirectory | nameTooLong
            | holdsNul | notUtf8 => exact ⟨rfl, by rw [List.append_nil]; rfl⟩

/-! ### Whole runs -/

variable (analyzer meanwhile)

/-- A run gets from one state of its surroundings to another, past files whose issues are those
that are found; a file that is gone has none. -/
inductive Through (found : SourcePath → Option (List Issue)) : σ → List SourcePath → σ → Prop
  | start {state : σ} : Through found state [] state
  | next {state after last : σ} {file : SourcePath} {rest : List SourcePath}
      (passes : analyzer.Passes file (meanwhile file state) (found file) after)
      (later : Through found after rest last) : Through found state (file :: rest) last

/-- Why a run goes no further, and the last calls of its engine: no file is left, or it stops at
the first that is. -/
inductive Ends (state : σ) : List SourcePath → Option Failure → List SourcePath → Prop
  | finished : Ends state [] none []
  | stopped {file : SourcePath} {rest own : List SourcePath} {failure : Failure}
      (stops : analyzer.Stops file (meanwhile file state) failure own) :
      Ends state (file :: rest) (some failure) own

variable {analyzer meanwhile}

theorem Through.congr {found other : SourcePath → Option (List Issue)} {state last : σ}
    {files : List SourcePath} (agree : ∀ file ∈ files, found file = other file)
    (through : analyzer.Through meanwhile found state files last) :
    analyzer.Through meanwhile other state files last := by
  induction through with
  | start => exact Through.start
  | next passes _later ih =>
      refine Through.next ?_ (ih fun file member => agree file (List.mem_cons_of_mem _ member))
      rw [← agree _ List.mem_cons_self]
      exact passes

theorem workAmid_goes (analyzer : Analyzer σ) (meanwhile : SourcePath → σ → σ)
    {files : List SourcePath} (distinct : files.Nodup) (memory : Memory)
    (calls : List SourcePath) (state : σ) :
    ∃ found done rest last stop own after,
      files = done ++ rest ∧ analyzer.Through meanwhile found state done last ∧
      analyzer.Ends meanwhile last rest stop own ∧
      analyzer.workAmid meanwhile files memory state =
        (stop, (memory.learnAll found done).leave stop rest, after) ∧
      analyzer.listing.workAmid (fun file state => (state.1, meanwhile file state.2)) files memory
          (calls, state) =
        (stop, (memory.learnAll found done).leave stop rest,
          calls ++ done.filter (fun file => (found file).isSome) ++ own, after) := by
  -- By induction on the files; a file that the run gets past goes in front of the others.
  induction files generalizing memory calls state with
  | nil =>
      refine ⟨fun _ => none, [], [], state, none, [], state, rfl, Through.start, Ends.finished,
        rfl, ?_⟩
      rw [List.filter_nil, List.append_nil, List.append_nil]
      rfl
  | cons file rest ih =>
      obtain ⟨fresh, distinct⟩ := List.nodup_cons.mp distinct
      unfold workAmid
      rcases attempt_met analyzer file rest memory calls (meanwhile file state) with
        ⟨issues, around, passes, attempted, listed⟩ |
        ⟨failure, own, after, stops, attempted, listed⟩
      · obtain ⟨found, done, left, last, stop, own, after, cut, through, ends, went, counted⟩ :=
          ih distinct (memory.learn (fun _ => issues) file)
            (calls ++ [file].filter (fun _ => issues.isSome)) around
        let known (other : SourcePath) := if other = file then issues else found other
        have here : known file = issues := if_pos rfl
        have agree : ∀ other ∈ done, found other = known other := by
          intro other member
          refine (if_neg fun same => fresh ?_).symm
          rw [← same, cut]
          exact List.mem_append_left left member
        have learned : (memory.learn (fun _ => issues) file).learnAll found done =
            memory.learnAll known (file :: done) := by
          rw [Memory.learnAll_congr agree]
          change _ = (memory.learn known file).learnAll known done
          unfold Memory.learn
          rw [here]
        have counts : (file :: done).filter (fun other => (known other).isSome) =
            [file].filter (fun _ => issues.isSome) ++
              done.filter (fun other => (found other).isSome) := by
          refine (List.filter_append [file] done).trans ?_
          congr 1
          · exact List.filter_congr fun other member => by rw [List.mem_singleton.mp member, here]
          · exact List.filter_congr fun other member => by rw [agree other member]
        refine ⟨known, file :: done, left, last, stop, own, after, by rw [cut]; rfl,
          Through.next (by rw [here]; exact passes) (through.congr agree), ends, ?_, ?_⟩
        · rw [attempted, ← learned]
          exact went
        · rw [listed, ← learned, counts, ← List.append_assoc]
          exact counted
      · refine ⟨fun _ => none, [], file :: rest, state, some failure, own, after, rfl,
          Through.start, Ends.stopped stops, ?_, ?_⟩
        · rw [attempted]
          rfl
        · rw [listed, List.filter_nil, List.append_nil]
          rfl

/-! ### Calls -/

section Calls

variable (analyzer meanwhile) (change : Change) (memory : Memory) (state : σ)

/-- The files that are named as deleted, by a change or by one before it that still waits. -/
def lost (file : SourcePath) : Bool :=
  memory.pending.pending.deleted.contains file || change.deleted.contains file

/-- The files that wait as changed or are named so and selected, without those that are lost. -/
def awaited (file : SourcePath) : Bool :=
  (memory.pending.pending.changed.contains file ||
    (change.changed.contains file && analyzer.selection.selects file)) && !lost change memory file

/-- What a call does that gets past the files `done`, finds their issues, and leaves `rest`. -/
structure Course (found : SourcePath → Option (List Issue)) (done rest : List SourcePath)
    (last : σ) (result : Except Failure (List Issue)) (later : Memory)
    (calls : List SourcePath) : Prop where
  ascending : (done ++ rest).Pairwise SourcePath.precedes
  awaited : ∀ file, (done ++ rest).any (·.same file) = analyzer.awaited change memory file
  through : analyzer.Through meanwhile found state done last
  ends : ∃ stop own, analyzer.Ends meanwhile last rest stop own ∧
    result = (conclude stop later).1 ∧
    calls = done.filter (fun file => (found file).isSome) ++ own
  passed : ∀ file ∈ done, later.results.get? file = found file
  left : ∀ file ∈ rest, later.results.get? file = none
  forgotten : ∀ file, lost change memory file = true → later.results.get? file = none
  kept : ∀ file, analyzer.awaited change memory file = false → lost change memory file = false →
    later.results.get? file = memory.results.get? file
  started : later.fresh = false
  finished : rest = [] → later.pending = PendingChanges.empty
  /-- A failure puts back the files that are left, and nothing else. -/
  putBack : ∀ cause, result = .error (.error cause) →
    later.pending.pending.changed.files = rest ∧ later.pending.pending.deleted.files = []
  /-- The next call has no file examined that this one got past, unless it is named again. -/
  spared : ∀ file ∈ done, ∀ (happening : SourcePath → σ → σ) (next : Change) (around : σ),
    next.changed.contains file = false →
      (analyzer.called happening next later around).any (·.same file) = false

variable {analyzer meanwhile change memory state}

theorem reportAmid_of_signalled (signalled : analyzer.signalled state = true) :
    analyzer.reportAmid meanwhile change memory state =
      (.error (.error .cancelled),
        { memory with pending := memory.pending.accumulate (analyzer.selected change) },
        state) := by
  unfold reportAmid
  rw [takeUp_of_signalled signalled]
  rfl

theorem called_of_signalled (signalled : analyzer.signalled state = true) :
    analyzer.called meanwhile change memory state = [] := by
  have heard : analyzer.listing.signalled ([], state) = true := signalled
  unfold called
  rw [reportAmid_of_signalled heard]

theorem reportAmid_of_begins (unsignalled : analyzer.signalled state = false)
    (begins : analyzer.Begins memory state) :
    analyzer.reportAmid meanwhile change memory state =
      let run := analyzer.workAmid meanwhile (analyzer.due change memory state)
        (analyzer.outset change memory) state
      ((conclude run.1 run.2.1).1, (conclude run.1 run.2.1).2, run.2.2) := by
  unfold reportAmid
  rw [takeUp_of_begins unsignalled begins]

theorem report_goes (meanwhile : SourcePath → σ → σ) (change : Change) (memory : Memory)
    (unsignalled : analyzer.signalled state = false) (begins : analyzer.Begins memory state) :
    ∃ found done rest last stop own after,
      analyzer.due change memory state = done ++ rest ∧
      analyzer.Through meanwhile found state done last ∧
      analyzer.Ends meanwhile last rest stop own ∧
      let later := ((analyzer.outset change memory).learnAll found done).leave stop rest
      analyzer.reportAmid meanwhile change memory state =
        ((conclude stop later).1, (conclude stop later).2, after) ∧
      analyzer.listing.reportAmid (fun file state => (state.1, meanwhile file state.2)) change
          memory ([], state) =
        ((conclude stop later).1, (conclude stop later).2,
          done.filter (fun file => (found file).isSome) ++ own, after) := by
  have unheard : analyzer.listing.signalled ([], state) = false := unsignalled
  have distinct : (analyzer.due change memory state).Nodup :=
    (due_apart analyzer change memory state).imp fun apart same => by
      rw [same, SourcePath.same_refl] at apart
      cases apart
  obtain ⟨found, done, rest, last, stop, own, after, cut, through, ends, went, listed⟩ :=
    workAmid_goes analyzer meanwhile distinct (analyzer.outset change memory) [] state
  refine ⟨found, done, rest, last, stop, own, after, cut, through, ends, ?_, ?_⟩
  · rw [reportAmid_of_begins unsignalled begins, went]
  · rw [reportAmid_of_begins unheard begins]
    exact congrArg (fun run => ((conclude run.1 run.2.1).1, (conclude run.1 run.2.1).2, run.2.2))
      listed

theorem gathered_awaited (file : SourcePath) :
    (analyzer.gathered change memory).changed.contains file =
      analyzer.awaited change memory file :=
  changed_gathered file

theorem gathered_lost (file : SourcePath) :
    (analyzer.gathered change memory).deleted.contains file = lost change memory file :=
  deleted_gathered file

theorem get?_past {found : SourcePath → Option (List Issue)} {done rest : List SourcePath}
    (started : memory.fresh = false)
    (cut : (analyzer.gathered change memory).changed.files = done ++ rest) {file : SourcePath}
    (member : file ∈ done) :
    ((analyzer.outset change memory).learnAll found done).results.get? file = found file := by
  have apart := PathSet.files_apart (analyzer.gathered change memory).changed
  have inDue : file ∈ (analyzer.gathered change memory).changed.files := by
    rw [cut]
    exact List.mem_append_left rest member
  have forgotten : (analyzer.outset change memory).results.get? file = none := by
    rw [get?_outset started, if_pos]
    unfold Change.touches
    rw [PathSet.contains_of_mem inDue, Bool.true_or]
  rw [cut] at apart
  rw [Memory.get?_learnAll_of_mem (List.pairwise_append.mp apart).1 member
    (SourcePath.same_refl file), forgotten, Option.or_none]

theorem get?_apart {found : SourcePath → Option (List Issue)} {done : List SourcePath}
    (started : memory.fresh = false) {file : SourcePath}
    (apart : ∀ other ∈ done, other.same file = false) :
    ((analyzer.outset change memory).learnAll found done).results.get? file =
      if analyzer.awaited change memory file || lost change memory file then none
      else memory.results.get? file := by
  rw [Memory.get?_learnAll_of_apart apart, get?_outset started]
  unfold Change.touches
  rw [gathered_awaited, gathered_lost]

theorem conclude_fields (stop : Option Failure) (memory : Memory) :
    (conclude stop memory).2.results = memory.results ∧
      (conclude stop memory).2.pending = memory.pending ∧
      (memory.fresh = false → (conclude stop memory).2.fresh = false) ∧
      (conclude stop (conclude stop memory).2).1 = (conclude stop memory).1 := by
  cases stop with
  | none => exact ⟨rfl, rfl, fun _ => rfl, rfl⟩
  | some failure => exact ⟨rfl, rfl, id, rfl⟩

theorem Ends.own_subset {rest own : List SourcePath} {stop : Option Failure}
    (ends : analyzer.Ends meanwhile state rest stop own) : own ⊆ rest := by
  cases ends with
  | finished => exact List.nil_subset []
  | stopped stops =>
      cases stops with
      | cancelled signalled => exact List.nil_subset _
      | unreadable unsignalled read present => exact List.nil_subset _
      | failed unsignalled read failed =>
          exact List.cons_subset.mpr ⟨List.mem_cons_self, List.nil_subset _⟩

/-- The engine is called on files that are awaited, and on no others. -/
theorem awaited_of_called (started : memory.fresh = false) {file : SourcePath}
    (member : file ∈ analyzer.called meanwhile change memory state) :
    analyzer.awaited change memory file = true := by
  cases signalled : analyzer.signalled state with
  | true =>
      rw [called_of_signalled signalled] at member
      cases member
  | false =>
      obtain ⟨found, done, rest, last, stop, own, after, cut, _through, ends, _went, listed⟩ :=
        report_goes meanwhile change memory signalled (begins_of_started started state)
      unfold called at member
      rw [listed] at member
      rw [← gathered_awaited, PathSet.contains_of_mem]
      rw [← due_of_started started, cut]
      rcases List.mem_append.mp member with passed | last
      · exact List.mem_append_left rest (List.mem_of_mem_filter passed)
      · exact List.mem_append_right done (ends.own_subset last)

/-- A file that neither waits nor is named as changed is not examined. -/
theorem called_apart (started : memory.fresh = false) {file : SourcePath}
    (idle : memory.pending.pending.changed.contains file = false)
    (unnamed : change.changed.contains file = false) :
    (analyzer.called meanwhile change memory state).any (·.same file) = false := by
  rw [List.any_eq_false]
  intro other member alike
  have due := awaited_of_called started member
  unfold awaited at due
  rw [PathSet.contains_congr _ alike, PathSet.contains_congr change.changed alike, idle, unnamed]
    at due
  cases due

theorem any_cut {done rest : List SourcePath}
    (cut : (analyzer.gathered change memory).changed.files = done ++ rest) (file : SourcePath) :
    (done ++ rest).any (·.same file) = analyzer.awaited change memory file := by
  rw [← cut, PathSet.any_same_files, gathered_awaited]

theorem apart_of_unawaited {done rest : List SourcePath}
    (cut : (analyzer.gathered change memory).changed.files = done ++ rest) {file : SourcePath}
    (unawaited : analyzer.awaited change memory file = false) :
    ∀ other ∈ done, other.same file = false := by
  intro other member
  rw [← any_cut cut, List.any_append, Bool.or_eq_false_iff, List.any_eq_false] at unawaited
  exact Bool.eq_false_iff.mpr (unawaited.1 other member)

theorem apart_of_cut {done rest : List SourcePath}
    (cut : (analyzer.gathered change memory).changed.files = done ++ rest) :
    ∀ file ∈ done, ∀ other ∈ rest, file.same other = false := by
  have apart := PathSet.files_apart (analyzer.gathered change memory).changed
  rw [cut] at apart
  exact (List.pairwise_append.mp apart).2.2

/-- What is remembered of each file, once a run has got past some of them. -/
theorem results_past (found : SourcePath → Option (List Issue)) {done rest : List SourcePath}
    (started : memory.fresh = false)
    (cut : (analyzer.gathered change memory).changed.files = done ++ rest) :
    let past := (analyzer.outset change memory).learnAll found done
    (∀ file ∈ done, past.results.get? file = found file) ∧
    (∀ file ∈ rest, past.results.get? file = none) ∧
    (∀ file, lost change memory file = true → past.results.get? file = none) ∧
    ∀ file, analyzer.awaited change memory file = false → lost change memory file = false →
      past.results.get? file = memory.results.get? file := by
  intro past
  refine ⟨fun file member => get?_past started cut member, ?_, ?_, ?_⟩
  · intro file member
    have due : analyzer.awaited change memory file = true := by
      rw [← any_cut cut, List.any_eq_true]
      exact ⟨file, List.mem_append_right done member, SourcePath.same_refl file⟩
    rw [get?_apart started fun other before => apart_of_cut cut other before file member, due,
      Bool.true_or, if_pos rfl]
  · intro file named
    have unawaited : analyzer.awaited change memory file = false := by
      unfold awaited
      rw [named, Bool.not_true, Bool.and_false]
    rw [get?_apart started (apart_of_unawaited cut unawaited), named, Bool.or_true, if_pos rfl]
  · intro file unawaited unnamed
    rw [get?_apart started (apart_of_unawaited cut unawaited), unawaited, unnamed, Bool.or_false,
      if_neg Bool.false_ne_true]

theorem report_course (unsignalled : analyzer.signalled state = false)
    (started : memory.fresh = false) :
    ∃ found done rest last, analyzer.Course meanwhile change memory state found done rest last
      (analyzer.reportAmid meanwhile change memory state).1
      (analyzer.reportAmid meanwhile change memory state).2.1
      (analyzer.called meanwhile change memory state) := by
  obtain ⟨found, done, rest, last, stop, own, after, cut, through, ends, went, listed⟩ :=
    report_goes meanwhile change memory unsignalled (begins_of_started started state)
  rw [due_of_started started] at cut
  have calls : analyzer.called meanwhile change memory state =
      done.filter (fun file => (found file).isSome) ++ own := congrArg (·.2.2.1) listed
  have ascending : (done ++ rest).Pairwise SourcePath.precedes := by
    rw [← cut]
    exact List.pairwise_map.mpr (analyzer.gathered change memory).changed.ascending
  have fields : ((analyzer.outset change memory).learnAll found done).pending = .empty ∧
      ((analyzer.outset change memory).learnAll found done).fresh = memory.fresh :=
    Memory.learnAll_fields
  obtain ⟨drained, begun⟩ := fields
  replace begun := begun.trans started
  obtain ⟨sameResults, samePending, stays, sameResult⟩ := conclude_fields stop
    (((analyzer.outset change memory).learnAll found done).leave stop rest)
  have laterStarted := stays ((Memory.leave_fields _ stop rest).2.trans begun)
  obtain ⟨passed, left, forgotten, kept⟩ := results_past found started cut
  have waiting := Memory.pending_leave begun drained (List.pairwise_append.mp ascending).2.1 stop
  refine ⟨found, done, rest, last, ?_⟩
  rw [went, calls]
  unfold ResultCache.get? at passed left forgotten kept
  rw [← (Memory.leave_fields _ stop rest).1, ← sameResults] at passed left forgotten kept
  constructor
  case ascending => exact ascending
  case awaited => exact any_cut cut
  case through => exact through
  case ends => exact ⟨stop, own, ends, sameResult.symm, rfl⟩
  case passed => exact passed
  case left => exact left
  case forgotten => exact forgotten
  case kept => exact kept
  case started => exact laterStarted
  case finished =>
    intro none
    subst none
    cases ends
    exact drained
  case putBack =>
    intro cause failed
    rw [samePending]
    rcases waiting with ⟨_stopped, put⟩ | ⟨unstopped, _empty⟩
    · exact put
    · cases stop with
      | none => cases failed
      | some failure => cases failed; exact absurd rfl (unstopped cause)
  case spared =>
    intro file member happening next around unnamed
    refine called_apart laterStarted ?_ unnamed
    rw [samePending]
    rcases waiting with ⟨_stopped, put, _undeleted⟩ | ⟨_unstopped, empty⟩
    · rw [← PathSet.any_same_files, put, List.any_eq_false]
      intro other behind alike
      have clash := apart_of_cut cut file member other behind
      rw [SourcePath.same_symm alike] at clash
      cases clash
    · rw [empty]
      rfl

end Calls

/-- Once an analyzer has come to the end of a first run, a call whose token is not signalled yet
has the engine examine those of the awaited files that are there, in their order, up to the one
that it stops at; it changes what is remembered of awaited and of lost files only, and what it
leaves waits for the next call. A call whose token is signalled takes in the change, and does
nothing if it is for a share. -/
theorem report_works_least (analyzer : Analyzer σ) (meanwhile : SourcePath → σ → σ)
    (change : Change) (memory : Memory) (state : σ) :
    let run := analyzer.reportAmid meanwhile change memory state
    let calls := analyzer.called meanwhile change memory state
    (memory.fresh = false → analyzer.signalled state = false →
      ∃ found done rest last, analyzer.Course meanwhile change memory state found done rest last
        run.1 run.2.1 calls) ∧
    (analyzer.signalled state = true →
      run = (.error (.error .cancelled),
        { memory with pending := memory.pending.accumulate (analyzer.selected change) }, state) ∧
      calls = [] ∧ ∀ share, analyzer.reportShare share memory state =
        (.error (.error .cancelled), memory, state)) ∧
    analyzer.report change memory state =
      analyzer.reportAmid (fun _file state => state) change memory state := by
  intro run calls
  refine ⟨?_, ?_, analyzer.report_eq change memory state⟩
  · exact fun started unsignalled => report_course unsignalled started
  · intro signalled
    refine ⟨reportAmid_of_signalled signalled, called_of_signalled signalled, fun share => ?_⟩
    unfold reportShare finish takeUpShare
    rw [signalled, if_pos rfl]

/-! A run that passes a file that is gone, and is cancelled in front of the next one. -/
namespace Halted

def reporter : Analyzer Rehearsal :=
  rehearsing sourceSelection Delimiters.analyze (fun _ => false)

def before : Memory :=
  (reporter.report Change.empty Memory.new
    ⟨sources [("a.ts", "("), ("k.ts", "["), ("o.ts", "x")], none⟩).2.1

def change : Change :=
  Change.ofFiles [⟨"src/c.ts"⟩, ⟨"src/a.ts"⟩, ⟨"src/b.ts"⟩] [⟨"src/o.ts"⟩]

def state : Rehearsal := ⟨sources [("a.ts", "call"), ("c.ts", "\x7d"), ("k.ts", "[")], none⟩

def signals (file : SourcePath) (state : Rehearsal) : Rehearsal :=
  if file = ⟨"src/c.ts"⟩ then { state with lasts := some 0 } else state

end Halted

/-- One file is examined and one is gone; the third waits, and what is known of another stays. A
call for a share that finds its token signalled leaves everything as it is. -/
theorem report_works_least_of_halted :
    let last := (Halted.reporter.reportAmid Halted.signals Halted.change Halted.before
      Halted.state).2.1
    let unheard : Rehearsal := { Halted.state with lasts := some 0 }
    Halted.before.fresh = false ∧ Halted.reporter.signalled Halted.state = false ∧
      Halted.reporter.called Halted.signals Halted.change Halted.before Halted.state =
        [⟨"src/a.ts"⟩] ∧
      last.pending.pending.changed.files = [⟨"src/c.ts"⟩] ∧
      last.results.get? ⟨"src/k.ts"⟩ = Halted.before.results.get? ⟨"src/k.ts"⟩ ∧
      last.results.get? ⟨"src/o.ts"⟩ = none ∧
      Halted.reporter.signalled unheard = true ∧
      Halted.reporter.reportShare ⟨0, 2⟩ Halted.before unheard =
        (.error (.error .cancelled), Halted.before, unheard) := by
  intro last unheard
  obtain ⟨started, calls, waits, unawaited, unnamed, named⟩ :
      Halted.before.fresh = false ∧
        Halted.reporter.called Halted.signals Halted.change Halted.before Halted.state =
          [⟨"src/a.ts"⟩] ∧
        last.pending.pending.changed.files = [⟨"src/c.ts"⟩] ∧
        Halted.reporter.awaited Halted.change Halted.before ⟨"src/k.ts"⟩ = false ∧
        lost Halted.change Halted.before ⟨"src/k.ts"⟩ = false ∧
        lost Halted.change Halted.before ⟨"src/o.ts"⟩ = true := by decide +kernel
  have signalled : Halted.reporter.signalled unheard = true := by decide
  obtain ⟨_found, _done, _rest, _last, course⟩ := (report_works_least Halted.reporter
    Halted.signals Halted.change Halted.before Halted.state).1 started (by decide)
  obtain ⟨_gathers, _silent, shares⟩ := (report_works_least Halted.reporter
    Halted.signals Halted.change Halted.before unheard).2.1 signalled
  exact ⟨started, by decide, calls, waits, course.kept _ unawaited unnamed,
    course.forgotten _ named, signalled, shares ⟨0, 2⟩⟩

end Analyzer

end Reanalysis
