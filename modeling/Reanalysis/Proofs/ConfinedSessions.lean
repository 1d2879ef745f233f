/-
Sessions whose reporters are confined: each of them keeps a property of the surroundings and has
only some failures. Then whatever the session does keeps that property, and a cycle comes to an
error only because of such a failure.
-/

import Reanalysis.Proofs.ConfinedCalls
import Reanalysis.Proofs.ReplyVerdict
import Reanalysis.Session

namespace Reanalysis

variable {may : Failure → Prop}

/-- There are no failures in a cycle but these, and its error tells one of them. -/
def Phase.Within (may : Failure → Prop) : Phase → Prop
  | .queued => True
  | .connecting links => ∀ link, some link ∈ links → FailsAs may link
  | .reporting answers => ∀ answer, some answer ∈ answers → FailsAs may answer
  | .settled outcome => ∀ error, outcome = .errored error →
      ∃ failure, may failure ∧ error.source = failure.toError error.engine

def Event.Within (may : Failure → Prop) : Event → Prop
  | .connected _ _ result => FailsAs may result
  | .answered _ _ result => FailsAs may result
  | _ => True

theorem Event.Within.mono {wider : Failure → Prop} {event : Event} (within : event.Within may)
    (weaken : ∀ failure, may failure → wider failure) : event.Within wider := by
  cases event with
  | connected | answered => exact fun failure failed => weaken failure (within failure failed)
  | _ => trivial

namespace Lifecycle

variable {life : Lifecycle} {cycle : Cycle}

def Within (may : Failure → Prop) (life : Lifecycle) : Prop :=
  ∀ report cycle, life.cycle? report = some cycle → cycle.phase.Within may

theorem judged_within {answers : List (Option (Except Failure (List Issue)))}
    (fits : ∀ answer, some answer ∈ answers → FailsAs may answer) :
    (life.judged cycle answers).Within may := by
  rcases life.judged_cases cycle answers with going | ⟨complete, outcome, all, comes, verdict⟩
  · rw [going]
    exact fits
  · rw [comes]
    intro error failed
    subst failed
    obtain ⟨failure, replied, source⟩ := verdict.source
    have given : some (.error failure) ∈ answers := by
      rw [all]
      exact List.mem_map_of_mem (List.of_mem_zip replied).2
    exact ⟨failure, fits _ given failure rfl, source⟩

theorem tried_within {links : List (Option (Except Failure Unit))}
    (fits : ∀ link, some link ∈ links → FailsAs may link) : (life.tried cycle links).Within may := by
  unfold tried
  split
  · exact fits
  · rename_i complete all
    refine judged_within fun answer member => ?_
    obtain ⟨link, made, is⟩ := List.mem_map.mp member
    cases link with
    | ok => cases is
    | error failure =>
        cases is
        have given : some (.error failure) ∈ links := by
          rw [mapM_id_eq_some.mp all]
          exact List.mem_map_of_mem made
        exact failsAs_error (fits _ given failure rfl)

theorem Within.setPhase (within : life.Within may) {report : Nat}
    (found : life.cycle? report = some cycle) {phase : Phase} (fits : phase.Within may) :
    (life.setPhase report phase).Within may := by
  intro number other here
  rw [cycle?_setPhase (ne_zero_of_cycle? found).1] at here
  split at here
  · obtain ⟨held, _, rfl⟩ := Option.map_eq_some_iff.mp here
    exact fits
  · exact within number other here

theorem Within.signalCurrent (within : life.Within may) : life.signalCurrent.1.Within may := by
  intro number other here
  rw [cycle?_signalCurrent] at here
  split at here
  · obtain ⟨held, before, rfl⟩ := Option.map_eq_some_iff.mp here
    exact within number held before
  · exact within number other here

theorem Within.step (within : life.Within may) {event : Event} (fits : event.Within may) :
    (life.step event).1.Within may := by
  have stepped := step_stepped life event
  generalize (life.step event).1 = next, (life.step event).2 = commands at stepped ⊢
  cases stepped with
  | triggered change =>
      intro number other here
      rw [cycle?_append] at here
      split at here
      · cases here
        trivial
      · exact within.signalCurrent number other here
  | started report held found queued next =>
      refine within.setPhase found (tried_within fun link member => ?_)
      cases List.eq_of_mem_replicate member
  | linked report reporter result held links found connecting opened =>
      have before : held.phase.Within may := within report held found
      rw [connecting] at before
      refine within.setPhase found (tried_within fun link member => ?_)
      rcases List.mem_or_eq_of_mem_set member with old | new
      · exact before link old
      · cases new
        exact fits
  | answered report reporter result held answers found reporting opened =>
      have before : held.phase.Within may := within report held found
      rw [reporting] at before
      refine within.setPhase found (judged_within fun answer member => ?_)
      rcases List.mem_or_eq_of_mem_set member with old | new
      · exact before answer old
      · cases new
        exact fits
  | tornDown => exact within.signalCurrent
  | _ => exact within

theorem Within.source (within : life.Within may) {report : Nat} {error : CycleError}
    (failed : life.outcome? report = some (.errored error)) :
    ∃ failure, may failure ∧ error.source = failure.toError error.engine := by
  obtain ⟨cycle, here, settled⟩ := Option.bind_eq_some_iff.mp failed
  have fits := within report cycle here
  rw [outcome?_eq_some.mp settled] at fits
  exact fits error rfl

theorem within_new (engines : List String) (filter : IssueFilter) :
    (new engines filter).Within may := by
  intro number cycle here
  cases number <;> cases here

theorem within_any (life : Lifecycle) : life.Within fun _ => True := by
  intro number cycle _
  cases cycle.phase with
  | queued => trivial
  | connecting links | reporting answers => exact fun _ _ _ _ => trivial
  | settled outcome => exact fun error _ => ⟨.error error.source, trivial, rfl⟩

end Lifecycle

/-! ### Sessions -/

def Task.Within (may : Failure → Prop) : Task → Prop
  | .answer _ _ result => FailsAs may result
  | _ => True

variable {σ : Type} {holds : σ → Prop}

/-- Reporters that keep a property of their surroundings, and have only these failures. -/
structure Reporters.Confined (reporters : Reporters σ) (holds : σ → Prop) (may : Failure → Prop) :
    Prop where
  connect : ∀ reporter, Call.Confined holds may (reporters.connect reporter)
  ask : ∀ report reporter change signalled state, holds state →
    (∀ answer, (reporters.ask report reporter change signalled state).1 = some answer →
      FailsAs may answer) ∧
      holds (reporters.ask report reporter change signalled state).2
  disconnect : ∀ reporter, Call.Confined holds may (reporters.disconnect reporter)
  signal : ∀ report state, holds state →
    (∀ entry ∈ (reporters.signal report state).1, FailsAs may entry.2) ∧
      holds (reporters.signal report state).2
  announce : ∀ announcement state, holds state → holds (reporters.announce announcement state)

namespace Session

/-- A session in surroundings with this property, that has met no failures but these. -/
structure Confined (holds : σ → Prop) (may : Failure → Prop) (place : Session × σ) : Prop where
  life : place.1.life.Within may
  tasks : ∀ task ∈ place.1.tasks, task.Within may
  around : holds place.2

namespace Confined

variable {reporters : Reporters σ} {session : Session} {state after : σ}

theorem within (confined : Confined holds may (session, state)) (kept : holds after) :
    Confined holds may (session, after) := ⟨confined.life, confined.tasks, kept⟩

theorem note (confined : Confined holds may (session, state)) (event : Event)
    (fits : event.Within may) : Confined holds may (session.note event, state) :=
  ⟨confined.life.step fits, confined.tasks, confined.around⟩

theorem emptied (confined : Confined holds may (session, state)) :
    Confined holds may ({ session with tasks := [] }, state) :=
  ⟨confined.life, List.forall_mem_nil _, confined.around⟩

theorem begun (confined : Confined holds may (session, state)) {tasks : List Task}
    (fit : ∀ task ∈ tasks, task.Within may) :
    Confined holds may ({ session with tasks := session.tasks ++ tasks }, state) :=
  ⟨confined.life, List.forall_mem_append.mpr ⟨confined.tasks, fit⟩, confined.around⟩

theorem performLast (confined : Confined holds may (session, state))
    (able : reporters.Confined holds may) (commands : List Command) :
    Confined holds may (session.performLast reporters state commands) := by
  induction commands generalizing session state with
  | nil => exact confined
  | cons command rest ih =>
      cases command with
      | connect report reporter => exact ih confined
      | ask report reporter change signalled =>
          obtain ⟨fits, kept⟩ := able.ask report reporter change signalled state confined.around
          rw [Session.performLast]
          dsimp only
          rcases asked : reporters.ask report reporter change signalled state with
            ⟨_ | answer, after⟩
          all_goals rw [asked] at fits kept
          · exact ih (confined.within kept)
          · exact ih ((confined.within kept).note (.answered report reporter answer)
              (fits answer rfl))
      | disconnect reporter =>
          exact ih (confined.within (able.disconnect reporter state confined.around).2)
      | signal report =>
          obtain ⟨fit, kept⟩ := able.signal report state confined.around
          refine ih ((confined.within kept).begun fun task member => ?_)
          obtain ⟨entry, answered, rfl⟩ := List.mem_map.mp member
          exact fit entry answered
      | announce report announcement =>
          exact ih (confined.within (able.announce announcement state confined.around))

theorem perform (confined : Confined holds may (session, state))
    (able : reporters.Confined holds may) (commands : List Command) :
    Confined holds may (session.perform reporters state commands) := by
  induction commands generalizing session state with
  | nil => exact confined
  | cons command rest ih =>
      have single := confined.performLast able [command]
      cases command with
      | connect report reporter =>
          obtain ⟨fits, kept⟩ := able.connect reporter state confined.around
          exact ih (((confined.within kept).note (.connected report reporter _) fits).performLast
            able _)
      | ask | disconnect | signal | announce => exact ih single

theorem performTeardown (confined : Confined holds may (session, state))
    (able : reporters.Confined holds may) (commands : List Command) :
    Confined holds may (session.performTeardown reporters state commands).2 := by
  induction commands generalizing session state with
  | nil => exact confined
  | cons command rest ih =>
      have single := confined.performLast able [command]
      cases command with
      | disconnect reporter =>
          have kept := (able.disconnect reporter state confined.around).2
          rw [Session.performTeardown]
          rcases left : reporters.disconnect reporter state with ⟨(cause | thrown) | done, after⟩
          all_goals rw [left] at kept
          · exact ih (confined.within kept)
          · exact confined.within kept
          · exact ih (confined.within kept)
      | ask | connect | signal | announce => exact ih single

theorem happen (confined : Confined holds may (session, state))
    (able : reporters.Confined holds may) (event : Event) (fits : event.Within may) :
    Confined holds may (session.happen reporters event state) :=
  (confined.note event fits).perform able _

theorem of_any (session : Session) (held : holds state) :
    Confined holds (fun _ => True) (session, state) := by
  refine ⟨session.life.within_any, fun task _ => ?_, held⟩
  cases task with
  | answer => exact fun _ _ => trivial
  | cycle | delivery => trivial

theorem trigger (confined : Confined holds may (session, state))
    (able : reporters.Confined holds may) (change : Change) :
    Confined holds may (session.trigger reporters change state) :=
  (confined.happen able (.trigger change) trivial).begun
    (List.forall_mem_singleton.mpr trivial)

theorem teardown (confined : Confined holds may (session, state))
    (able : reporters.Confined holds may) :
    Confined holds may (session.teardown reporters state).2 :=
  (confined.note .teardown trivial).performTeardown able _

theorem giveUp (confined : Confined holds may (session, state)) :
    Confined holds may (session.giveUp, state) := by
  have left : Confined holds may (session.owned.foldl
      (fun left delivery => left.note (.abandon delivery)) session, state) := by
    generalize session.owned = deliveries
    induction deliveries generalizing session with
    | nil => exact confined
    | cons delivery rest ih => exact ih (confined.note (.abandon delivery) trivial)
  exact ⟨left.life, fun task member => left.tasks task (List.mem_filter.mp member).1, left.around⟩

theorem windUp (confined : Confined holds may (session, state))
    (able : reporters.Confined holds may) :
    Confined holds may (session.windUp reporters state) := by
  have torn := confined.teardown able
  unfold Session.windUp
  rcases ended : session.teardown reporters state with ⟨complete, next, after⟩
  rw [ended] at torn
  cases complete with
  | true => exact ⟨torn.life, torn.tasks, torn.around⟩
  | false => exact giveUp torn

theorem hear (confined : Confined holds may (session, state))
    (able : reporters.Confined holds may) (event : HostEvent) :
    Confined holds may (session.hear reporters event state) := by
  have served (change : Change) : Confined holds may (session.serve reporters change state) :=
    (confined.trigger able change).begun (List.forall_mem_singleton.mpr trivial)
  unfold Session.hear
  cases session.stage with
  | listening =>
      cases event with
      | initial => exact served Change.empty
      | incremental change => exact served change
      | teardown | hangUp => exact confined.windUp able
  | closing | finished => exact confined

theorem hearAll (confined : Confined holds may (session, state))
    (able : reporters.Confined holds may) (events : List HostEvent) :
    Confined holds may (session.hearAll reporters state events) := by
  induction events generalizing session state with
  | nil => exact confined
  | cons event rest ih => exact ih (confined.hear able event)

theorem runTasks (confined : Confined holds may (session, state))
    (able : reporters.Confined holds may) {tasks : List Task}
    (fit : ∀ task ∈ tasks, task.Within may) :
    Confined holds may (session.runTasks reporters state tasks) := by
  induction tasks generalizing session state with
  | nil => exact confined
  | cons task rest ih =>
      obtain ⟨first, others⟩ := List.forall_mem_cons.mp fit
      cases task with
      | cycle report => exact ih (confined.happen able (.start report) trivial) others
      | delivery report owned =>
          have delivered := confined.happen able (.deliver report) trivial
          exact ih ⟨delivered.life, delivered.tasks, delivered.around⟩ others
      | answer report reporter result =>
          exact ih (confined.note (.answered report reporter result) first) others

theorem wakeAll (confined : Confined holds may (session, state))
    (able : reporters.Confined holds may) (deliveries : List Nat) :
    Confined holds may (session.wakeAll reporters state deliveries) := by
  induction deliveries generalizing session state with
  | nil => exact confined
  | cons delivery rest ih => exact ih (confined.happen able (.wake delivery) trivial)

theorem finish (confined : Confined holds may (session, state)) :
    Confined holds may (session.finish, state) := by
  unfold Session.finish
  split
  · exact ⟨confined.life, confined.tasks, confined.around⟩
  · exact confined

theorem idle (confined : Confined holds may (session, state))
    (able : reporters.Confined holds may) :
    Confined holds may (session.idle reporters state) := by
  have silent : Confined holds may ({ session with inbox := [] }, state) :=
    ⟨confined.life, confined.tasks, confined.around⟩
  have heard := silent.hearAll able session.inbox
  have ran := (emptied heard).runTasks able heard.tasks
  exact (ran.wakeAll able _).finish

end Confined

end Session

end Reanalysis
