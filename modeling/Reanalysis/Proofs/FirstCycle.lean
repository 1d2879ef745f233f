/-
One cycle of a session that nothing interferes with. All reporters are connected, then each of
them is asked once, in the order of their numbers; the report settles with what they answer,
and tearing the session down leaves it so.
-/

import Reanalysis.Proofs.LifecycleSteps
import Reanalysis.Session

namespace Reanalysis

namespace Session

variable {σ : Type} (reporters : Reporters σ)

/-- Reporters that are asked in this order give these answers, and leave their surroundings like
that. -/
inductive Answer (change : Change) :
    List Nat → σ → List (Except Failure (List Issue)) → σ → Prop
  | none (state : σ) : Answer change [] state [] state
  | next (reporter : Nat) (rest : List Nat) (state middle after : σ)
      (answer : Except Failure (List Issue)) (answers : List (Except Failure (List Issue)))
      (first : reporters.ask 1 reporter change false state = (some answer, middle))
      (later : Answer change rest middle answers after) :
      Answer change (reporter :: rest) state (answer :: answers) after

def once (engines : List String) (filter : IssueFilter) (change : Change) (phase : Phase) :
    Session :=
  { new engines filter with
    life := ⟨engines, filter, PendingChanges.empty, [⟨change, false, phase⟩], []⟩ }

variable {reporters} {engines : List String} {filter : IssueFilter} {change : Change}

theorem cycle?_once (phase : Phase) :
    (once engines filter change phase).life.cycle? 1 = some ⟨change, false, phase⟩ := rfl

theorem setPhase_once (phase next : Phase) :
    { once engines filter change phase with
      life := (once engines filter change phase).life.setPhase 1 next } =
        once engines filter change next := rfl

def outcomeOf (engines : List String) (filter : IssueFilter)
    (answers : List (Except Failure (List Issue))) : Outcome :=
  Outcome.of filter false
    (engines.zipWith (fun engine answer => (engine, answer.mapError (Failure.toError engine)))
      answers)

theorem answers_of_reports {engines : List String} {reports : List (List Issue)}
    (all : engines.length = reports.length) :
    let answers := engines.zipWith
      (fun engine answer => (engine, answer.mapError (Failure.toError engine)))
      (reports.map Except.ok)
    Outcome.firstError answers = none ∧ Outcome.allIssues answers = some reports.flatten := by
  induction engines generalizing reports with
  | nil =>
      rw [List.length_nil, eq_comm, List.length_eq_zero_iff] at all
      subst all
      exact ⟨rfl, rfl⟩
  | cons engine rest ih =>
      cases reports with
      | nil => cases all
      | cons report others =>
          obtain ⟨sound, gathered⟩ := ih (Nat.succ.inj all)
          refine ⟨sound, ?_⟩
          change (Outcome.allIssues _).map (report ++ ·) = _
          rw [gathered]
          rfl

theorem outcomeOf_reports {reports : List (List Issue)} (filter : IssueFilter)
    (all : engines.length = reports.length) :
    outcomeOf engines filter (reports.map .ok) = .resolved (filter.apply reports.flatten) := by
  obtain ⟨sound, gathered⟩ := answers_of_reports all
  unfold outcomeOf Outcome.of
  rw [if_neg Bool.false_ne_true, sound, gathered]

theorem set_first_none {α : Type} (given : List α) (left : Nat) (item : α) :
    (given.map some ++ List.replicate (left + 1) none)[given.length]? = some none ∧
      (given.map some ++ List.replicate (left + 1) none).set given.length (some item) =
        (given ++ [item]).map some ++ List.replicate left none := by
  have length : (given.map some).length = given.length := List.length_map _
  rw [List.replicate_succ]
  constructor
  · rw [← length, List.getElem?_append_right (Nat.le_refl _), Nat.sub_self]
    rfl
  · rw [← length, List.set_append_right _ _ (Nat.le_refl _), Nat.sub_self, List.map_append,
      List.append_assoc]
    rfl

theorem mapM_id_open {α : Type} (given : List α) (left : Nat) :
    (given.map some ++ List.replicate (left + 1) none).mapM id = none := by
  rw [mapM_id_eq_none, List.mem_append, List.mem_replicate]
  exact Or.inr ⟨Nat.succ_ne_zero left, rfl⟩

theorem note_answered (given : List (Except Failure (List Issue))) (left : Nat)
    (answer : Except Failure (List Issue)) :
    (once engines filter change
      (.reporting (given.map some ++ List.replicate (left + 1) none))).note
        (.answered 1 given.length answer) =
      once engines filter change
        (match left with
        | 0 => .settled (outcomeOf engines filter (given ++ [answer]))
        | left + 1 =>
            .reporting ((given ++ [answer]).map some ++ List.replicate (left + 1) none)) := by
  obtain ⟨waits, filled⟩ := set_first_none given left answer
  unfold note Lifecycle.step Lifecycle.answered
  dsimp only
  rw [cycle?_once]
  dsimp only
  rw [waits, filled]
  dsimp only
  rw [if_pos rfl, Lifecycle.settle_eq, setPhase_once]
  congr 1
  unfold Lifecycle.judged
  cases left with
  | zero =>
      rw [List.replicate_zero, List.append_nil, mapM_id_eq_some.mpr rfl]
      rfl
  | succ left => rw [mapM_id_open]

theorem performLast_asks {numbers : List Nat} {state after : σ}
    {answers : List (Except Failure (List Issue))}
    (asked : Answer reporters change numbers state answers after)
    (given : List (Except Failure (List Issue)))
    (inOrder : numbers = List.range' given.length numbers.length) (anyone : numbers ≠ []) :
    (once engines filter change
      (.reporting (given.map some ++ List.replicate numbers.length none))).performLast reporters
        state (numbers.map fun reporter => .ask 1 reporter change false) =
      (once engines filter change (.settled (outcomeOf engines filter (given ++ answers))),
        after) := by
  induction asked generalizing given with
  | none state => exact absurd rfl anyone
  | next reporter rest state middle after answer answers first later ih =>
      rw [List.length_cons, List.range'_succ, List.cons.injEq] at inOrder
      obtain ⟨rfl, others⟩ := inOrder
      rw [List.map_cons, performLast]
      dsimp only
      rw [first]
      dsimp only
      rw [List.length_cons, note_answered]
      cases rest with
      | nil =>
          cases later
          rfl
      | cons second more =>
          have next := ih (given ++ [answer])
            (by rw [List.length_append, List.length_singleton]; exact others)
            (List.cons_ne_nil _ _)
          rw [List.append_assoc] at next
          exact next

/-! ### Connecting -/

theorem zipIdx_replicate {α : Type} (count : Nat) (item : α) :
    (List.replicate count item).zipIdx = (List.range count).map fun index => (item, index) := by
  apply List.ext_getElem?
  intro index
  rw [List.getElem?_zipIdx, List.getElem?_map, List.getElem?_replicate]
  by_cases within : index < count <;> simp [within]

def asks (change : Change) (count : Nat) : List Command :=
  (List.range count).map fun reporter => .ask 1 reporter change false

theorem asked_links (cycle : Cycle) (count : Nat) :
    Lifecycle.asked 1 cycle ((List.replicate count (.ok ())).map some) =
      (List.range count).map fun reporter => .ask 1 reporter cycle.change cycle.signalled := by
  have nobody : (List.replicate count (.ok ())).map Lifecycle.answerOf =
      List.replicate count none := List.map_replicate
  unfold Lifecycle.asked
  rw [mapM_id_eq_some.mpr rfl]
  dsimp only
  rw [nobody, zipIdx_replicate, List.filterMap_map]
  exact congrFun (List.filterMap_eq_map (f := fun reporter : Nat =>
    Command.ask 1 reporter cycle.change cycle.signalled)) (List.range count)

theorem tried_links (life : Lifecycle) (cycle : Cycle) (count : Nat) :
    life.tried cycle ((List.replicate (count + 1) (.ok ())).map some) =
      .reporting (List.replicate (count + 1) none) := by
  have nobody : (List.replicate (count + 1) (.ok ())).map Lifecycle.answerOf =
      List.replicate (count + 1) none := List.map_replicate
  unfold Lifecycle.tried
  rw [mapM_id_eq_some.mpr rfl]
  dsimp only
  rw [nobody]
  unfold Lifecycle.judged
  have unanswered := mapM_id_open ([] : List (Except Failure (List Issue))) count
  rw [List.map_nil, List.nil_append] at unanswered
  rw [unanswered]

theorem step_connected (done left : Nat) :
    let session := once engines filter change
      (.connecting ((List.replicate done (.ok ())).map some ++ List.replicate (left + 1) none))
    ({ session with life := (session.life.step (.connected 1 done (.ok ()))).1 },
        (session.life.step (.connected 1 done (.ok ()))).2) =
      match left with
      | 0 => (once engines filter change (.reporting (List.replicate (done + 1) none)),
          asks change (done + 1))
      | left + 1 => (once engines filter change (.connecting
          ((List.replicate (done + 1) (.ok ())).map some ++ List.replicate (left + 1) none)),
          []) := by
  intro session
  obtain ⟨waits, filled⟩ := set_first_none (List.replicate done (Except.ok ())) left
    (.ok () : Except Failure Unit)
  rw [List.length_replicate] at waits filled
  rw [← List.replicate_succ'] at filled
  have stepped : session.life.step (.connected 1 done (.ok ())) =
      session.life.handOut 1 ⟨change, false, .connecting
        ((List.replicate done (.ok ())).map some ++ List.replicate (left + 1) none)⟩
        ((List.replicate (done + 1) (.ok ())).map some ++ List.replicate left none) := by
    unfold Lifecycle.step Lifecycle.connected
    dsimp only
    rw [cycle?_once]
    dsimp only
    rw [waits, filled]
    rfl
  rw [stepped, Lifecycle.handOut_eq]
  dsimp only
  rw [setPhase_once]
  cases left with
  | zero =>
      rw [List.replicate_zero, List.append_nil, tried_links, asked_links]
      rfl
  | succ left =>
      unfold Lifecycle.tried Lifecycle.asked
      rw [mapM_id_open]

theorem perform_connects {state : σ}
    (connects : ∀ reporter, reporters.connect reporter state = (.ok (), state)) (left done : Nat) :
    (once engines filter change (.connecting
      ((List.replicate done (.ok ())).map some ++ List.replicate (left + 1) none))).perform
        reporters state ((List.range' done (left + 1)).map (.connect 1)) =
      (once engines filter change (.reporting (List.replicate (done + left + 1) none))).performLast
        reporters state (asks change (done + left + 1)) := by
  induction left generalizing done with
  | zero =>
      have stepped := @step_connected engines filter change done 0
      rw [Prod.mk.injEq] at stepped
      rw [List.range'_succ, List.map_cons, perform, connects]
      dsimp only
      rw [stepped.1, stepped.2]
      rfl
  | succ left ih =>
      have stepped := @step_connected engines filter change done (left + 1)
      rw [Prod.mk.injEq] at stepped
      rw [List.range'_succ, List.map_cons, perform, connects]
      dsimp only
      rw [stepped.1, stepped.2, performLast]
      dsimp only
      rw [ih, show done + 1 + left + 1 = done + (left + 1) + 1 by omega]

theorem trigger_new (state : σ) :
    (new engines filter).trigger reporters change state =
      ({ once engines filter (PendingChanges.empty.accumulate change).pending .queued with
          tasks := [.cycle 1] }, state) := rfl

/-- A cycle that is started runs to its end. -/
theorem happen_start {state after : σ} {answers : List (Except Failure (List Issue))}
    (connects : ∀ reporter, reporters.connect reporter state = (.ok (), state))
    (asked : Answer reporters change (List.range engines.length) state answers after) :
    (once engines filter change .queued).happen reporters (.start 1) state =
      (once engines filter change (.settled (outcomeOf engines filter answers)), after) := by
  have stepped : (once engines filter change .queued).life.step (.start 1) =
      ((once engines filter change .queued).life.setPhase 1
          ((once engines filter change .queued).life.tried ⟨change, false, .queued⟩
            (List.replicate engines.length none)),
        (List.range engines.length).map (.connect 1) ++
          Lifecycle.asked 1 ⟨change, false, .queued⟩ (List.replicate engines.length none)) := by
    unfold Lifecycle.step Lifecycle.start
    dsimp only
    have first : (once engines filter change .queued).life.mayStart 1 = true := rfl
    rw [if_pos first, Lifecycle.launch_of_queued (cycle?_once ..) rfl]
    rfl
  unfold happen
  rw [stepped]
  dsimp only
  rw [setPhase_once]
  cases count : engines.length with
  | zero =>
      rw [count] at asked
      cases asked
      rw [List.length_eq_zero_iff.mp count]
      rfl
  | succ left =>
      have unlinked := mapM_id_open ([] : List (Except Failure Unit)) left
      rw [List.map_nil, List.nil_append] at unlinked
      have waiting : (once engines filter change .queued).life.tried ⟨change, false, .queued⟩
          (List.replicate (left + 1) none) = .connecting (List.replicate (left + 1) none) := by
        unfold Lifecycle.tried
        rw [unlinked]
      have nobody : Lifecycle.asked 1 ⟨change, false, .queued⟩
          (List.replicate (left + 1) none) = [] := by
        unfold Lifecycle.asked
        rw [unlinked]
      rw [waiting, nobody, List.append_nil, List.range_eq_range']
      refine (@perform_connects σ reporters engines filter change state connects left 0).trans ?_
      rw [count] at asked
      have all := @performLast_asks σ reporters engines filter change _ state after answers asked []
        (by rw [List.length_range]; exact List.range_eq_range') (by simp)
      rw [List.length_range] at all
      rw [Nat.zero_add]
      exact all

theorem idle_of_ran {session ran : Session} {state after : σ} (silent : session.inbox = [])
    (runs : { session with tasks := [] }.runTasks reporters state session.tasks = (ran, after))
    (undelivered : ran.life.deliveries = []) (listening : ran.stage = .listening) :
    session.idle reporters state = (ran, after) := by
  obtain ⟨life, tasks, owned, stage, inbox⟩ := session
  cases silent
  unfold idle hearAll
  dsimp only at runs ⊢
  rw [runs]
  dsimp only
  rw [undelivered, List.length_nil, List.range_zero, wakeAll]
  unfold finish
  rw [listening, if_neg (fun closing => by cases closing.1)]

/-- The first cycle of a session settles with the outcome of what its reporters answer. -/
theorem idle_first {state after : σ} {answers : List (Except Failure (List Issue))}
    (connects : ∀ reporter, reporters.connect reporter state = (.ok (), state))
    (asked : Answer reporters change (List.range engines.length) state answers after) :
    { once engines filter change .queued with tasks := [.cycle 1] }.idle reporters state =
      (once engines filter change (.settled (outcomeOf engines filter answers)), after) := by
  have started := @happen_start σ reporters engines filter change state after answers connects asked
  refine idle_of_ran rfl ?_ rfl rfl
  change (once engines filter change .queued).runTasks reporters state [.cycle 1] = _
  rw [runTasks, started]
  rfl

theorem performTeardown_silent (silent : ∀ report state, (reporters.signal report state).1 = [])
    (session : Session) (state : σ) {commands : List Command}
    (last : ∀ command ∈ commands, (∃ report, command = .signal report) ∨
      ∃ reporter, command = .disconnect reporter) :
    (session.performTeardown reporters state commands).2.1 = session := by
  induction commands generalizing state with
  | nil => rfl
  | cons command rest ih =>
      have later := fun other member => last other (List.mem_cons_of_mem _ member)
      rcases last command List.mem_cons_self with ⟨report, rfl⟩ | ⟨reporter, rfl⟩
      · simp only [performTeardown, performLast, silent, List.map_nil, List.append_nil]
        exact ih _ later
      · rw [performTeardown]
        split
        · rfl
        · exact ih _ later

theorem outcome?_ended (silent : ∀ report state, (reporters.signal report state).1 = [])
    {outcome : Outcome} (state : σ) :
    let session := once engines filter change (.settled outcome)
    let torn := session.teardown reporters state
    (torn.2.1.idle reporters torn.2.2).1.life.outcome? 1 = some outcome := by
  intro session torn
  have ended : torn.2.1 = { session with life := (session.life.step .teardown).1 } := by
    apply performTeardown_silent silent
    intro command member
    rcases List.mem_append.mp member with signal | disconnect
    · exact Or.inl ⟨_, List.mem_singleton.mp signal⟩
    · obtain ⟨reporter, _, rfl⟩ := List.mem_map.mp disconnect
      exact Or.inr ⟨reporter, rfl⟩
  have idle : torn.2.1.idle reporters torn.2.2 = (torn.2.1, torn.2.2) := by
    rw [ended]
    exact idle_of_ran rfl rfl rfl rfl
  rw [idle, ended]
  rfl

end Session

end Reanalysis
