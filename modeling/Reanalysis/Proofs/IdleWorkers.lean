/-
A worker that is left to itself. A run visits fewer files with each unit of work, and a job that
waits is taken up in its turn; so in the end all jobs are done, and nobody is left whose turn it
is but the writer.
-/

import Reanalysis.Proofs.RunLedger

namespace Reanalysis

def Channel.handlersDue (channel : Channel) : List Request :=
  channel.turns.filterMap fun turn =>
    match turn with
    | .handler request => some request
    | .writer => none

namespace Channel

theorem handlersDue_wakeWriter (channel : Channel) :
    channel.wakeWriter.handlersDue = channel.handlersDue := by
  unfold wakeWriter handlersDue
  dsimp only
  split
  · rfl
  · simp

theorem handlersDue_perform (channel : Channel) {effects : List Effect}
    (silent : ∀ request, .serve request ∉ effects) :
    (channel.perform effects).1.handlersDue = channel.handlersDue := by
  induction effects generalizing channel with
  | nil => rfl
  | cons effect rest ih =>
      have later (next : Channel) := ih next fun request member =>
        silent request (List.mem_cons_of_mem effect member)
      unfold perform
      cases effect with
      | send message =>
          dsimp only
          split
          · exact later channel
          · exact (later _).trans (handlersDue_wakeWriter _)
      | settle call outcome => exact later channel
      | serve request => exact absurd List.mem_cons_self (silent request)
      | hear notice => exact later channel

theorem handlersDue_answer (channel : Channel) (request : Request) (ending : Ending) :
    (channel.answer request ending).1.handlersDue = channel.handlersDue := by
  refine handlersDue_perform channel fun other member => ?_
  unfold Endpoint.answer Endpoint.emit at member
  split at member
  · cases List.mem_singleton.mp member
  · cases member

theorem handlersDue_close (channel : Channel) (reason : String) :
    (channel.close reason).1.handlersDue = channel.handlersDue := by
  unfold close
  split
  · rfl
  · refine (handlersDue_perform _ fun other member => ?_).trans (handlersDue_wakeWriter _)
    split at member
    · cases member
    · obtain ⟨id, _waits, same⟩ := List.mem_map.mp member
      cases same

theorem handlersDue_write (channel : Channel) :
    channel.write.1.handlersDue = channel.handlersDue := by
  unfold write
  split
  · rfl
  · rfl
  · dsimp only
    split <;> rfl
  · exact handlersDue_close _ _
  · dsimp only
    split <;> rfl

end Channel

namespace Service

variable {σ : Type} (analyzer : Analyzer σ)

theorem start_waiting (service : Service) (request : Request) (state : σ) (job : Job) :
    (service.start analyzer request state job).waiting = service.waiting := by
  cases job with
  | seed issues => exact (answer_jobs _ _ _).2
  | run change share token =>
      unfold start
      dsimp only
      split
      · exact (endRun_jobs _ _ _ _).2
      · exact (endRun_jobs _ _ _ _).2
      · rfl

theorem advance_active (service : Service) (state : σ) (run : ActiveRun)
    (busy : service.active = some run) :
    ((service.advance analyzer state).1.active = none ∨
      ∃ next, (service.advance analyzer state).1.active = some next ∧
        next.files.length < run.files.length) ∧
      (service.advance analyzer state).1.waiting = service.waiting := by
  obtain ⟨request, token, files⟩ := run
  unfold advance
  cases files with
  | nil =>
      rw [busy]
      exact ⟨Or.inl (endRun_jobs _ _ _ _).1, (endRun_jobs _ _ _ _).2⟩
  | cons file rest =>
      rw [busy]
      dsimp only
      split
      · exact ⟨Or.inr ⟨_, rfl, Nat.lt_succ_self _⟩, rfl⟩
      · exact ⟨Or.inl (endRun_jobs _ _ _ _).1, (endRun_jobs _ _ _ _).2⟩

theorem advance_waiting (service : Service) (state : σ) (free : service.active = none) :
    (service.advance analyzer state).1.waiting = service.waiting.tail := by
  unfold advance
  rw [free]
  dsimp only
  split
  · rename_i empty
    rw [empty]
    rfl
  · rename_i first job others queued
    rw [queued]
    exact start_waiting analyzer _ _ _ _

theorem advanceActive_jobs (count : Nat) (service : Service) (state : σ)
    (enough : ∀ run, service.active = some run → run.files.length < count) :
    (service.advanceActive analyzer count state).1.active = none ∧
      (service.advanceActive analyzer count state).1.waiting = service.waiting := by
  induction count generalizing service state with
  | zero =>
      cases busy : service.active with
      | none => exact ⟨busy, rfl⟩
      | some run => exact absurd (enough run busy) (Nat.not_lt_zero _)
  | succ count ih =>
      unfold advanceActive
      cases busy : service.active with
      | none => exact ⟨busy, rfl⟩
      | some run =>
          have bound := enough run busy
          obtain ⟨ending, sameWaiting⟩ := advance_active analyzer service state run busy
          have rest := ih (service.advance analyzer state).1 (service.advance analyzer state).2
            (by
              intro next going
              rcases ending with free | ⟨other, same, fewer⟩
              · rw [free] at going
                cases going
              · rw [same] at going
                cases going
                omega)
          exact ⟨rest.1, rest.2.trans sameWaiting⟩

theorem finishActive_jobs (service : Service) (state : σ) :
    (service.finishActive analyzer state).1.active = none ∧
      (service.finishActive analyzer state).1.waiting = service.waiting := by
  unfold finishActive
  split
  · rename_i free
    exact ⟨free, rfl⟩
  · rename_i run busy
    apply advanceActive_jobs
    intro other same
    rw [busy] at same
    cases same
    exact Nat.lt_succ_self _

/-- With an entry for each job that waits, all of them are done. -/
theorem finishWaiting_jobs (service : Service) (state : σ) (jobs : List (Request × Job))
    (free : service.active = none) (all : service.waiting.length = jobs.length) :
    (service.finishWaiting analyzer state jobs).1.active = none ∧
      (service.finishWaiting analyzer state jobs).1.waiting = [] := by
  induction jobs generalizing service state with
  | nil => exact ⟨free, List.eq_nil_of_length_eq_zero all⟩
  | cons job rest ih =>
      have started := advance_waiting analyzer service state free
      have finished := finishActive_jobs analyzer (service.advance analyzer state).1
        (service.advance analyzer state).2
      apply ih _ _ finished.1
      rw [finished.2, started, List.length_tail, all]
      rfl

/-! ### Nobody becomes due -/

theorem handlersDue_answer (service : Service) (request : Request) (ending : Ending) :
    (service.answer request ending).channel.handlersDue = service.channel.handlersDue := by
  rw [answer_eq]
  exact Channel.handlersDue_answer service.channel request ending

theorem handlersDue_endRun (service : Service) (request : Request) (token : Token)
    (stop : Option Failure) :
    (service.endRun request token stop).channel.handlersDue = service.channel.handlersDue := by
  rw [endRun_eq]
  exact Channel.handlersDue_answer service.channel request _

theorem handlersDue_start (service : Service) (request : Request) (state : σ) (job : Job) :
    (service.start analyzer request state job).channel.handlersDue =
      service.channel.handlersDue := by
  cases job with
  | seed issues => exact handlersDue_answer _ request _
  | run change share token =>
      unfold start
      dsimp only
      split
      · exact handlersDue_endRun _ request token _
      · exact handlersDue_endRun _ request token _
      · rfl

theorem handlersDue_handlerTurn (service : Service) (request : Request) (state : σ) :
    (service.handlerTurn analyzer request state).channel.handlersDue =
      service.channel.handlersDue := by
  unfold handlerTurn
  split
  · rfl
  · exact handlersDue_answer _ request _
  · dsimp only
    split
    · exact handlersDue_start analyzer _ request state _
    · rfl

theorem handlersDue_advance (service : Service) (state : σ) :
    (service.advance analyzer state).1.channel.handlersDue = service.channel.handlersDue := by
  unfold advance
  split
  · split
    · rfl
    · exact handlersDue_endRun _ _ _ _
  · exact handlersDue_endRun _ _ _ _
  · split
    · rfl
    · exact handlersDue_start analyzer _ _ state _

theorem handlersDue_advanceActive (count : Nat) (service : Service) (state : σ) :
    (service.advanceActive analyzer count state).1.channel.handlersDue =
      service.channel.handlersDue := by
  induction count generalizing service state with
  | zero => rfl
  | succ count ih =>
      unfold advanceActive
      split
      · rfl
      · exact (ih _ _).trans (handlersDue_advance analyzer service state)

theorem handlersDue_finishActive (service : Service) (state : σ) :
    (service.finishActive analyzer state).1.channel.handlersDue =
      service.channel.handlersDue := by
  unfold finishActive
  split
  · rfl
  · exact handlersDue_advanceActive analyzer _ service state

theorem handlersDue_finishWaiting (service : Service) (state : σ) (jobs : List (Request × Job)) :
    (service.finishWaiting analyzer state jobs).1.channel.handlersDue =
      service.channel.handlersDue := by
  induction jobs generalizing service state with
  | nil => rfl
  | cons job rest ih =>
      exact (ih _ _).trans ((handlersDue_finishActive analyzer _ _).trans
        (handlersDue_advance analyzer service state))

theorem carryOut_channel (service : Service) (effects : List ChannelEffect) :
    (service.carryOut effects).channel = service.channel := by
  induction effects generalizing service with
  | nil => rfl
  | cons effect rest ih =>
      unfold carryOut
      rw [ih]
      cases effect with
      | accept request =>
          dsimp only [accept]
          repeat' split
          all_goals rfl
      | hear notice =>
          dsimp only [hear]
          repeat' split
          all_goals rfl
      | _ => rfl

theorem handlersDue_writerTurn (service : Service) :
    (service.act service.channel.write).channel.handlersDue = service.channel.handlersDue := by
  unfold act
  rw [carryOut_channel]
  exact Channel.handlersDue_write service.channel

theorem handlersDue_takeTurns (turns : List Turn) (service : Service) (state : σ) :
    (service.takeTurns analyzer state turns).channel.handlersDue =
      service.channel.handlersDue := by
  induction turns generalizing service with
  | nil => rfl
  | cons turn rest ih =>
      cases turn with
      | writer => exact (ih _).trans (handlersDue_writerTurn service)
      | handler request =>
          exact (ih _).trans (handlersDue_handlerTurn analyzer service request state)

theorem handlersDue_round (service : Service) (state : σ) :
    (service.round analyzer state).channel.handlersDue = [] :=
  handlersDue_takeTurns analyzer service.channel.turns _ state

theorem takeTurns_jobs {turns : List Turn} (writers : ∀ request, Turn.handler request ∉ turns)
    (service : Service) (state : σ) :
    (service.takeTurns analyzer state turns).active = service.active ∧
      (service.takeTurns analyzer state turns).waiting = service.waiting := by
  induction turns generalizing service with
  | nil => exact ⟨rfl, rfl⟩
  | cons turn rest ih =>
      cases turn with
      | writer =>
          have written := carryOut_jobs { service with channel := service.channel.write.1 }
            service.channel.write.2
          have later := ih (fun request member => writers request (List.mem_cons_of_mem _ member))
            (service.act service.channel.write)
          exact ⟨later.1.trans written.1, later.2.trans written.2⟩
      | handler request => exact absurd List.mem_cons_self (writers request)

/-- A worker that is left idle has no active run, no job that waits, and no handler that is due. -/
theorem idle_jobs (service : Service) (state : σ) :
    (service.idle analyzer state).1.active = none ∧
      (service.idle analyzer state).1.waiting = [] ∧
      (service.idle analyzer state).1.channel.handlersDue = [] := by
  unfold idle
  dsimp only
  have free := finishActive_jobs analyzer (service.round analyzer state) state
  have nobody := handlersDue_finishActive analyzer (service.round analyzer state) state
  rw [handlersDue_round] at nobody
  generalize (service.round analyzer state).finishActive analyzer state = rested at free nobody ⊢
  have done := finishWaiting_jobs analyzer rested.1 rested.2 rested.1.waiting free.1 rfl
  have still := handlersDue_finishWaiting analyzer rested.1 rested.2 rested.1.waiting
  generalize rested.1.finishWaiting analyzer rested.2 rested.1.waiting = ended at done still ⊢
  have writers (request : Request) : Turn.handler request ∉ ended.1.channel.turns := fun due => by
    have listed : request ∈ ended.1.channel.handlersDue :=
      List.mem_filterMap.mpr ⟨.handler request, due, rfl⟩
    rw [still, nobody] at listed
    cases listed
  have last := takeTurns_jobs analyzer writers
    { ended.1 with channel := { ended.1.channel with turns := [] } } ended.2
  exact ⟨last.1.trans done.1, last.2.trans done.2, handlersDue_round analyzer ended.1 ended.2⟩

end Service

end Reanalysis
