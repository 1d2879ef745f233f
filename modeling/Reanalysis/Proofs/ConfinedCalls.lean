/-
How calls may fail, and what they leave as it is. A pool whose workers all keep a property of
their surroundings keeps it, and fails only as they do, unless it is cancelled or has no workers.
-/

import Reanalysis.Pool

namespace Reanalysis

/-- If this is a failure at all, it is one of these. -/
def FailsAs {α : Type} (may : Failure → Prop) (result : Except Failure α) : Prop :=
  ∀ failure, result = .error failure → may failure

/-- The call keeps a property of its surroundings, and has only these failures. -/
def Call.Confined {σ α : Type} (holds : σ → Prop) (may : Failure → Prop) (call : Call σ α) : Prop :=
  ∀ state, holds state → FailsAs may (call state).1 ∧ holds (call state).2

variable {σ α : Type} {holds : σ → Prop} {may : Failure → Prop}

theorem failsAs_ok (value : α) : FailsAs may (.ok value) := fun _ failed => by cases failed

theorem failsAs_error {failure : Failure} (allowed : may failure) :
    FailsAs may (.error failure : Except Failure α) := by
  intro other failed
  cases failed
  exact allowed

theorem FailsAs.map {β : Type} {result : Except Failure α} (fits : FailsAs may result) (f : α → β) :
    FailsAs may (result.map f) := by
  cases result with
  | ok value => exact failsAs_ok _
  | error failure => exact failsAs_error (fits failure rfl)

structure Worker.Confined (worker : Worker σ) (holds : σ → Prop) (may : Failure → Prop) : Prop where
  connect : Call.Confined holds may worker.connect
  report : ∀ change, Call.Confined holds may (worker.report change)
  reportShare : ∀ share, Call.Confined holds may (worker.reportShare share)
  seed : ∀ issues, Call.Confined holds may (worker.seed issues)
  disconnect : Call.Confined holds may worker.disconnect

namespace Pool

theorem askEach_confined {ask : Nat → Worker σ → Call σ α} {workers : List (Worker σ)}
    (confined : ∀ index, ∀ worker ∈ workers, Call.Confined holds may (ask index worker))
    (index : Nat) {state : σ} (held : holds state) :
    (∀ answer ∈ (askEach ask index workers state).1, FailsAs may answer) ∧
      holds (askEach ask index workers state).2 := by
  induction workers generalizing index state with
  | nil => exact ⟨List.forall_mem_nil _, held⟩
  | cons worker rest ih =>
      obtain ⟨first, middle⟩ := confined index worker List.mem_cons_self state held
      obtain ⟨others, last⟩ := ih
        (fun index other member => confined index other (List.mem_cons_of_mem _ member))
        (index + 1) middle
      refine ⟨fun answer member => ?_, last⟩
      rcases List.mem_cons.mp member with rfl | member
      · exact first
      · exact others answer member

theorem release_confined {workers : List (Worker σ)}
    (confined : ∀ worker ∈ workers, worker.Confined holds may) {state : σ} (held : holds state) :
    holds (release workers state) := by
  unfold release
  induction workers generalizing state with
  | nil => exact held
  | cons worker rest ih =>
      exact ih (fun other member => confined other (List.mem_cons_of_mem _ member))
        ((confined worker List.mem_cons_self).disconnect state held).2

theorem combine_failsAs (cancelled : may (.error .cancelled)) {answers : List (Except Failure α)}
    (fit : ∀ answer ∈ answers, FailsAs may answer) (signalled : Bool) :
    FailsAs may (combine signalled answers) := by
  unfold combine
  split
  · rename_i thrown _ broke
    obtain ⟨answer, member, is⟩ := List.exists_of_findSome?_eq_some broke
    split at is
    · cases is
      exact failsAs_error (fit _ member _ rfl)
    · cases is
  · rename_i cause _ failed
    obtain ⟨answer, member, is⟩ := List.exists_of_findSome?_eq_some failed
    split at is
    · cases is
      cases signalled with
      | true => exact failsAs_error cancelled
      | false => exact failsAs_error (fit _ member _ rfl)
    · cases is
  · exact failsAs_ok _

/-- A pool of confined workers, some of which there are unless it may be without. -/
structure Confined (pool : Pool σ) (holds : σ → Prop) (may : Failure → Prop) : Prop where
  workers : ∀ worker ∈ pool.workers, worker.Confined holds may
  crewed : pool.workers = [] → may pool.noWorkers
  cancelled : may (.error .cancelled)

namespace Confined

variable {pool : Pool σ}

theorem fullRun (confined : pool.Confined holds may) : Call.Confined holds may pool.fullRun := by
  intro state held
  obtain ⟨linking, linked⟩ := askEach_confined (fun _ worker member =>
    (confined.workers worker member).connect) 0 held
  unfold Pool.fullRun
  rcases links : askEach (fun _ worker => worker.connect) 0 pool.workers state with
    ⟨attempts, middle⟩
  rw [links] at linking linked
  dsimp only
  split
  · rename_i failure failed
    exact ⟨failsAs_error (combine_failsAs confined.cancelled linking false failure failed), linked⟩
  · obtain ⟨sharing, dealt⟩ := askEach_confined (fun index worker member =>
      (confined.workers worker member).reportShare (Partition.of index pool.workers.length)) 0 linked
    rcases asked : askEach (fun index worker =>
      worker.reportShare (Partition.of index pool.workers.length)) 0 pool.workers middle with
        ⟨answers, after⟩
    rw [asked] at sharing dealt
    dsimp only
    split
    · rename_i _ failure failed
      exact ⟨failsAs_error (combine_failsAs confined.cancelled sharing _ failure failed), dealt⟩
    · rename_i none
      exact ⟨failsAs_error (confined.crewed none), dealt⟩
    · rename_i shares first others _ crew
      have members := crew ▸ confined.workers
      obtain ⟨seeding, seeded⟩ := (members first List.mem_cons_self).seed (shares.drop 1).flatten
        after dealt
      rcases took : first.seed (shares.drop 1).flatten after with ⟨failure | _, last⟩
      all_goals rw [took] at seeding seeded
      · exact ⟨failsAs_error (seeding failure rfl), seeded⟩
      · exact ⟨failsAs_ok _, release_confined
          (fun other member => members other (List.mem_cons_of_mem _ member)) seeded⟩

theorem first (confined : pool.Confined holds may) {call : Worker σ → Call σ α}
    (each : ∀ worker : Worker σ, worker.Confined holds may → Call.Confined holds may (call worker))
    {state : σ} (held : holds state) (done : Bool) :
    let asked : Except Failure α × Pooled σ :=
      match pool.workers with
      | [] => (.error pool.noWorkers, ⟨done, state⟩)
      | first :: _ => ((call first state).1, ⟨done, (call first state).2⟩)
    FailsAs may asked.1 ∧ holds asked.2.around := by
  cases crew : pool.workers with
  | nil => exact ⟨failsAs_error (confined.crewed crew), held⟩
  | cons first others =>
      exact each first (confined.workers first (crew ▸ List.mem_cons_self)) state held

theorem connect (confined : pool.Confined holds may) :
    Call.Confined (fun pooled : Pooled σ => holds pooled.around) may pool.connect :=
  fun ⟨done, _⟩ held => confined.first (fun _ member => member.connect) held done

theorem report (confined : pool.Confined holds may) (change : Change) :
    Call.Confined (fun pooled : Pooled σ => holds pooled.around) may (pool.report change) := by
  intro ⟨done, state⟩ held
  unfold Pool.report
  dsimp only
  split
  · exact confined.first (fun _ member => member.report change) held true
  · split
    · exact ⟨failsAs_error confined.cancelled, held⟩
    · obtain ⟨fits, kept⟩ := confined.fullRun state held
      rcases ran : pool.fullRun state with ⟨failure | issues, after⟩
      all_goals rw [ran] at fits kept
      · exact ⟨failsAs_error (fits failure rfl), kept⟩
      · exact ⟨failsAs_ok issues, kept⟩

theorem disconnect (confined : pool.Confined holds may) :
    Call.Confined (fun pooled : Pooled σ => holds pooled.around) may pool.disconnect := by
  intro ⟨_, state⟩ held
  obtain ⟨answers, kept⟩ := askEach_confined (fun _ worker member =>
    (confined.workers worker member).disconnect) 0 held
  exact ⟨(combine_failsAs confined.cancelled answers false).map _, kept⟩

end Confined

end Pool

end Reanalysis
