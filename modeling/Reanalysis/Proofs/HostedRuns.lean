/-
Life cycles that hear a host. A hosting hears its host, orders a delivery for each report
that it begins so, and has left when the host has asked for the end and all deliveries are
over. Everything else happens at any time. Each report that it begins is delivered once, and
after it has left its deliveries say nothing. A session with its reporters is a hosting.
-/

import Reanalysis.Proofs.ReportDelivery
import Reanalysis.Session

namespace Reanalysis

structure Hosting where
  life : Lifecycle
  stage : Stage
  /-- The reports whose deliveries have been ordered and have not begun. -/
  due : List Nat
  /-- The deliveries that have begun of those ordered. -/
  begun : List Nat

/-- What a hosting does, and what is done to its life cycle by others. -/
inductive Move where
  /-- The host wants a change to be looked at. -/
  | serve (change : Change)
  /-- The host asks for the end, or hangs up. -/
  | close
  /-- A delivery that has been ordered begins. -/
  | attend (report : Nat)
  | other (event : Event)
  | leave
  /-- Tearing down breaks off, and all deliveries are given up. -/
  | breakOff

namespace Hosting

def new (engines : List String) (filter : IssueFilter) : Hosting :=
  ⟨Lifecycle.new engines filter, .listening, [], []⟩

def allOver (host : Hosting) : Bool :=
  host.begun.all fun number => (host.life.deliveries[number]?).all Delivery.finished

/-- What a move does to the life cycle. Others do not give up deliveries. -/
def events (host : Hosting) : Move → List Event
  | .serve change => if host.stage = .listening then [.trigger change] else []
  | .close => if host.stage = .listening then [.teardown] else []
  | .attend report => if report ∈ host.due then [.deliver report] else []
  | .other (.abandon _) => []
  | .other event => [event]
  | .leave => []
  | .breakOff => if host.stage = .closing then host.begun.map .abandon else []

def processed (host : Hosting) : Move → List Nat
  | .serve _ => if host.stage = .listening then [host.life.current + 1] else []
  | _ => []

def move (host : Hosting) (step : Move) : Hosting :=
  let next := { host with life := (host.life.run (host.events step)).1 }
  match step with
  | .serve _ =>
      if host.stage = .listening then { next with due := host.due ++ [next.life.current] }
      else next
  | .close => if host.stage = .listening then { next with stage := .closing } else next
  | .attend report =>
      if report ∈ host.due then
        { next with
          due := host.due.erase report
          begun := host.begun ++ [host.life.deliveries.length] }
      else next
  | .other _ => next
  | .leave =>
      if host.stage = .closing ∧ host.due = [] ∧ host.allOver = true then
        { next with stage := .finished }
      else next
  | .breakOff =>
      if host.stage = .closing then { next with due := [], stage := .finished } else next

def run (host : Hosting) (moves : List Move) : Hosting := moves.foldl move host

def history (host : Hosting) : List Move → List Event
  | [] => []
  | step :: rest => host.events step ++ (host.move step).history rest

def processedAll (host : Hosting) : List Move → List Nat
  | [] => []
  | step :: rest => host.processed step ++ (host.move step).processedAll rest

variable {host : Hosting}

theorem life_move (host : Hosting) (step : Move) :
    (host.move step).life = (host.life.run (host.events step)).1 := by
  cases step <;> simp only [move, apply_ite life, ite_self]

theorem life_run (host : Hosting) (moves : List Move) :
    (host.run moves).life = (host.life.run (host.history moves)).1 := by
  induction moves generalizing host with
  | nil => rfl
  | cons step rest ih =>
      rw [history, Lifecycle.run_append, ← life_move]
      exact ih (host.move step)

def reportOf (life : Lifecycle) (delivery : Nat) : Option Nat :=
  life.deliveries[delivery]?.map Delivery.report

/-- Ordered deliveries have not begun, or have; those of a hosting that has left are over. -/
structure Sound (host : Hosting) (processed : List Nat) (broke : Prop) : Prop where
  known : ∀ number ∈ host.begun, ∃ report finished,
    host.life.deliveries[number]? = some ⟨report, finished⟩
  account : ¬broke →
    (host.due.map some ++ host.begun.map (reportOf host.life)).Perm (processed.map some)
  ended : host.stage = .finished → host.due = [] ∧
    ∀ number ∈ host.begun, ∃ report, host.life.deliveries[number]? = some ⟨report, true⟩

variable {processed : List Nat} {broke : Prop}

theorem Sound.known_run (sound : host.Sound processed broke) (events : List Event) :
    ∀ number ∈ host.begun, ∃ report finished,
      (host.life.run events).1.deliveries[number]? = some ⟨report, finished⟩ := by
  intro number member
  obtain ⟨report, finished, here⟩ := sound.known number member
  exact ⟨report, Lifecycle.exists_delivery_run here events⟩

theorem Sound.reportOf_run (sound : host.Sound processed broke) (events : List Event) :
    host.begun.map (reportOf (host.life.run events).1) = host.begun.map (reportOf host.life) := by
  apply List.map_congr_left
  intro number member
  obtain ⟨report, finished, here⟩ := sound.known number member
  obtain ⟨later, still⟩ := Lifecycle.exists_delivery_run here events
  simp [reportOf, here, still]

theorem Sound.ended_run (sound : host.Sound processed broke) (events : List Event)
    (left : host.stage = .finished) :
    host.due = [] ∧ ∀ number ∈ host.begun, ∃ report,
      (host.life.run events).1.deliveries[number]? = some ⟨report, true⟩ := by
  obtain ⟨empty, each⟩ := sound.ended left
  refine ⟨empty, fun number member => ?_⟩
  obtain ⟨report, here⟩ := each number member
  exact ⟨report, (Lifecycle.finished_run here events).1⟩

theorem abandoned_run {life : Lifecycle} {number report : Nat} {finished : Bool}
    (here : life.deliveries[number]? = some ⟨report, finished⟩) {numbers : List Nat}
    (member : number ∈ numbers) :
    (life.run (numbers.map .abandon)).1.deliveries[number]? = some ⟨report, true⟩ := by
  induction numbers generalizing life finished with
  | nil => cases member
  | cons first rest ih =>
      rw [List.map_cons, Lifecycle.run_cons]
      by_cases same : number = first
      · subst same
        have now : (life.step (.abandon number)).1.deliveries[number]? = some ⟨report, true⟩ := by
          simp [Lifecycle.step, Lifecycle.abandon, here]
        exact (Lifecycle.finished_run now _).1
      · obtain ⟨later, still⟩ := Lifecycle.exists_delivery_run here [.abandon first]
        exact ih still ((List.mem_cons.mp member).resolve_left same)

theorem Sound.carry (sound : host.Sound processed broke) (events : List Event) :
    { host with life := (host.life.run events).1 : Hosting }.Sound processed broke := by
  refine ⟨sound.known_run events, fun whole => ?_, sound.ended_run events⟩
  exact (sound.reportOf_run events).symm ▸ sound.account whole

theorem Sound.serve (sound : host.Sound processed broke) (change : Change) :
    (host.move (.serve change)).Sound (processed ++ host.processed (.serve change)) broke := by
  have carried := sound.carry (host.events (.serve change))
  unfold move Hosting.processed
  dsimp only
  by_cases listening : host.stage = .listening
  · rw [if_pos listening, if_pos listening]
    refine ⟨carried.known, fun whole => ?_, fun left => ?_⟩
    · have current : (host.life.run (host.events (.serve change))).1.current =
          host.life.current + 1 := by
        simpa [events, listening, Lifecycle.run] using
          Lifecycle.current_step host.life (.trigger change)
      rw [current, List.map_append, List.map_append, List.append_assoc]
      refine (List.perm_append_comm.append_left _).trans ?_
      rw [← List.append_assoc]
      exact (carried.account whole).append_right _
    · rw [listening] at left
      cases left
  · rw [if_neg listening, if_neg listening, List.append_nil]
    exact carried

theorem Sound.close (sound : host.Sound processed broke) :
    (host.move .close).Sound processed broke := by
  have carried := sound.carry (host.events .close)
  unfold move
  dsimp only
  split
  · exact ⟨carried.known, carried.account, nofun⟩
  · exact carried

theorem Sound.attend (sound : host.Sound processed broke) (report : Nat) :
    (host.move (.attend report)).Sound processed broke := by
  have carried := sound.carry (host.events (.attend report))
  unfold move
  dsimp only
  by_cases member : report ∈ host.due
  · have begins := Lifecycle.attended_deliver host.life report
    have happens : (host.life.run (host.events (.attend report))).1 =
        (host.life.step (.deliver report)).1 := by
      simp [events, member, Lifecycle.run]
    rw [happens] at carried ⊢
    rw [if_pos member]
    refine ⟨fun number begun => ?_, fun whole => ?_, fun left => ?_⟩
    · rcases List.mem_append.mp begun with before | now
      · exact carried.known number before
      · cases List.mem_singleton.mp now
        exact ⟨report, begins.exists_finished⟩
    · obtain ⟨finished, here⟩ := begins.exists_finished
      have about : reportOf (host.life.step (.deliver report)).1 host.life.deliveries.length =
          some report := by
        simp [reportOf, here]
      rw [List.map_append, List.map_singleton, about, ← List.append_assoc]
      refine List.Perm.trans ?_ (carried.account whole)
      refine List.perm_append_comm.trans ?_
      exact ((List.perm_cons_erase member).map some).symm.append_right _
    · rw [(sound.ended left).1] at member
      cases member
  · rw [if_neg member]
    exact carried

theorem Sound.leave (sound : host.Sound processed broke) :
    (host.move .leave).Sound processed broke := by
  unfold move
  dsimp only
  split
  · rename_i may
    refine ⟨sound.known, sound.account, fun _ => ⟨may.2.1, fun number member => ?_⟩⟩
    obtain ⟨report, finished, here⟩ := sound.known number member
    have ended := List.all_eq_true.mp may.2.2 number member
    simp only [here, Option.all_some] at ended
    exact ⟨report, by rw [← ended]; exact here⟩
  · exact sound

theorem Sound.breakOff (sound : host.Sound processed broke) :
    (host.move .breakOff).Sound processed True := by
  have carried := sound.carry (host.events .breakOff)
  unfold move
  dsimp only
  split
  · rename_i closing
    refine ⟨carried.known, fun whole => absurd trivial whole,
      fun _ => ⟨rfl, fun number member => ?_⟩⟩
    obtain ⟨report, finished, here⟩ := sound.known number member
    refine ⟨report, ?_⟩
    rw [events, if_pos closing]
    exact abandoned_run here member
  · exact ⟨carried.known, fun whole => absurd trivial whole, carried.ended⟩

theorem Sound.move (sound : host.Sound processed broke) (step : Move) :
    (host.move step).Sound (processed ++ host.processed step) (broke ∨ step = .breakOff) := by
  cases step with
  | serve change => simpa using sound.serve change
  | close => simpa [Hosting.processed] using sound.close
  | attend report => simpa [Hosting.processed] using sound.attend report
  | other event =>
      have carried : (host.move (.other event)).Sound processed broke := sound.carry _
      simpa [Hosting.processed] using carried
  | leave => simpa [Hosting.processed] using sound.leave
  | breakOff => simpa [Hosting.processed] using sound.breakOff

theorem sound_run (engines : List String) (filter : IssueFilter) (moves : List Move) :
    ((new engines filter).run moves).Sound ((new engines filter).processedAll moves)
      (.breakOff ∈ moves) := by
  have along (host : Hosting) (processed : List Nat) (broke : Prop)
      (sound : host.Sound processed broke) :
      (host.run moves).Sound (processed ++ host.processedAll moves)
        (broke ∨ .breakOff ∈ moves) := by
    induction moves generalizing host processed broke with
    | nil => simpa [run, processedAll] using sound
    | cons step rest ih =>
        have next := ih _ _ _ (sound.move step)
        simpa [run, processedAll, or_assoc, eq_comm] using next
  have start : (new engines filter).Sound [] False :=
    ⟨nofun, fun _ => .refl _, nofun⟩
  simpa using along _ _ _ start

theorem processed_sublist (host : Hosting) (step : Move) :
    (host.processed step).Sublist (host.life.issued (host.events step)) := by
  cases step with
  | serve change =>
      rw [processed, events]
      split
      · simp [Lifecycle.issued, Lifecycle.current_step]
      · exact .slnil
  | _ => exact List.nil_sublist _

theorem processedAll_sublist (host : Hosting) (moves : List Move) :
    (host.processedAll moves).Sublist (host.life.issued (host.history moves)) := by
  induction moves generalizing host with
  | nil => exact .slnil
  | cons step rest ih =>
      rw [history, Lifecycle.issued_append, ← life_move]
      exact (host.processed_sublist step).append (ih (host.move step))

theorem events_other {event : Event} (kept : ∀ delivery, event ≠ .abandon delivery) :
    host.events (.other event) = [event] := by
  cases event with
  | abandon delivery => exact absurd rfl (kept delivery)
  | _ => rfl

theorem run_append (host : Hosting) (moves others : List Move) :
    host.run (moves ++ others) = (host.run moves).run others := List.foldl_append

theorem processedAll_append (host : Hosting) (moves others : List Move) :
    host.processedAll (moves ++ others) =
      host.processedAll moves ++ (host.run moves).processedAll others := by
  induction moves generalizing host with
  | nil => rfl
  | cons step rest ih =>
      rw [List.cons_append, processedAll, ih, ← List.append_assoc]
      rfl

theorem run_others {events : List Event}
    (kept : ∀ event ∈ events, ∀ delivery, event ≠ .abandon delivery) (host : Hosting) :
    host.run (events.map .other) = { host with life := (host.life.run events).1 } ∧
      host.processedAll (events.map .other) = [] := by
  induction events generalizing host with
  | nil => exact ⟨rfl, rfl⟩
  | cons event rest ih =>
      obtain ⟨same, none⟩ := ih (fun other member => kept other (List.mem_cons_of_mem event member))
        (host.move (.other event))
      have first : host.move (.other event) = { host with life := (host.life.step event).1 } := by
        rw [move, events_other (kept event List.mem_cons_self)]
        rfl
      rw [first] at same none
      refine ⟨?_, ?_⟩
      · change (host.move (.other event)).run (rest.map .other) = _
        rw [first, same]
        rfl
      · rw [List.map_cons, processedAll, first, none]
        rfl

theorem abandon_not_mem_events {step : Move} (whole : step ≠ .breakOff) (host : Hosting)
    (delivery : Nat) : .abandon delivery ∉ host.events step := by
  cases step with
  | serve change =>
      rw [events]
      split <;> simp
  | close =>
      rw [events]
      split <;> simp
  | attend report =>
      rw [events]
      split <;> simp
  | other event => cases event <;> simp [events]
  | leave => exact List.not_mem_nil
  | breakOff => exact absurd rfl whole

theorem abandon_not_mem_history {moves : List Move} (whole : .breakOff ∉ moves)
    (host : Hosting) (delivery : Nat) : .abandon delivery ∉ host.history moves := by
  induction moves generalizing host with
  | nil => exact List.not_mem_nil
  | cons step rest ih =>
      rw [List.mem_cons, not_or] at whole
      rw [history, List.mem_append, not_or]
      exact ⟨abandon_not_mem_events (Ne.symm whole.1) host delivery, ih whole.2 _⟩

theorem begun_run (left : host.stage = .finished) (empty : host.due = []) (moves : List Move) :
    (host.run moves).begun = host.begun ∧ (host.run moves).due = [] := by
  induction moves generalizing host with
  | nil => exact ⟨rfl, empty⟩
  | cons step rest ih =>
      have still : (host.move step).begun = host.begun ∧ (host.move step).due = [] ∧
          (host.move step).stage = .finished := by
        cases step <;> simp [move, left, empty]
      have later := ih still.2.2 still.2.1
      exact ⟨later.1.trans still.1, later.2⟩

end Hosting

/-! ### Sessions are hostings -/

namespace Session

variable {σ : Type} (reporters : Reporters σ)

/-- The reports whose deliveries have been ordered by the session itself. -/
def ordered (tasks : List Task) : List Nat :=
  tasks.filterMap fun task =>
    match task with
    | .delivery report true => some report
    | _ => none

inductive Call where
  | trigger (change : Change)
  | deliver (report : Nat)
  | teardown
  | answered (report reporter : Nat) (answer : Except Failure (List Issue))
  | post (word : HostEvent)
  | idle

def call (session : Session) (state : σ) : Call → Session × σ
  | .trigger change => session.trigger reporters change state
  | .deliver report => (session.deliver report, state)
  | .teardown => (session.teardown reporters state).2
  | .answered report reporter answer => (session.answered report reporter answer, state)
  | .post word => (session.post word, state)
  | .idle => session.idle reporters state

def calls (session : Session) (state : σ) : List Call → Session × σ
  | [] => (session, state)
  | first :: rest =>
      let (next, after) := session.call reporters state first
      next.calls after rest

def served (session : Session) (state : σ) : List HostEvent → List Nat
  | [] => []
  | word :: rest =>
      (match session.stage, word with
        | .listening, .initial => [session.life.current + 1]
        | .listening, .incremental _ => [session.life.current + 1]
        | _, _ => []) ++
      (session.hear reporters word state).1.served (session.hear reporters word state).2 rest

def servedAll (session : Session) (state : σ) : List Call → List Nat
  | [] => []
  | first :: rest =>
      (match first with
        | .idle => { session with inbox := [] }.served reporters state session.inbox
        | _ => []) ++
      (session.call reporters state first).1.servedAll (session.call reporters state first).2 rest

/-- A session is where a hosting is. -/
structure Hosts (session : Session) (host : Hosting) : Prop where
  life : host.life = session.life
  stage : host.stage = session.stage
  due : host.due = ordered session.tasks
  begun : session.stage ≠ .finished → host.begun = session.owned

def isReply : Event → Bool
  | .connected _ _ _ => true
  | .answered _ _ _ => true
  | _ => false

/-- Reporters may have replied; tasks may have been begun, but no delivery. -/
structure Follows (session later : Session) : Prop where
  replies : ∃ events, (∀ event ∈ events, isReply event = true) ∧
    later.life = (session.life.run events).1
  stage : later.stage = session.stage
  ordered : ordered later.tasks = ordered session.tasks
  owned : later.owned = session.owned

variable {session middle later : Session} {state : σ}

theorem Follows.refl (session : Session) : session.Follows session :=
  ⟨⟨[], nofun, rfl⟩, rfl, rfl, rfl⟩

theorem Follows.trans (first : session.Follows middle) (second : middle.Follows later) :
    session.Follows later := by
  obtain ⟨events, replies, life⟩ := first.replies
  obtain ⟨more, others, last⟩ := second.replies
  refine ⟨⟨events ++ more, ?_, ?_⟩, second.stage.trans first.stage,
    second.ordered.trans first.ordered, second.owned.trans first.owned⟩
  · intro event member
    exact (List.mem_append.mp member).elim (replies event) (others event)
  · rw [last, life, Lifecycle.run_append]

theorem follows_note {event : Event} (reply : isReply event = true) :
    session.Follows (session.note event) :=
  ⟨⟨[event], fun _ member => List.mem_singleton.mp member ▸ reply, rfl⟩, rfl, rfl, rfl⟩

theorem ordered_append (tasks more : List Task) :
    ordered (tasks ++ more) = ordered tasks ++ ordered more := List.filterMap_append

theorem performLast_follows (session : Session) (state : σ) (commands : List Command) :
    session.Follows (session.performLast reporters state commands).1 := by
  induction commands generalizing session state with
  | nil => exact .refl session
  | cons command rest ih =>
      refine Follows.trans ?_ (ih _ _)
      cases command with
      | connect report reporter => exact .refl session
      | ask report reporter change signalled =>
          dsimp only
          split
          · exact .refl session
          · exact follows_note rfl
      | disconnect reporter => exact .refl session
      | signal report =>
          refine ⟨⟨[], nofun, rfl⟩, rfl, ?_, rfl⟩
          have none : ordered ((reporters.signal report state).1.map fun entry =>
              Task.answer report entry.1 entry.2) = [] := by
            simp [ordered, List.filterMap_map]
          simpa [ordered_append] using none
      | announce report announcement => exact .refl session

theorem perform_follows (session : Session) (state : σ) (commands : List Command) :
    session.Follows (session.perform reporters state commands).1 := by
  induction commands generalizing session state with
  | nil => exact .refl session
  | cons command rest ih =>
      cases command with
      | connect report reporter =>
          simp only [perform]
          exact (follows_note rfl).trans ((performLast_follows reporters _ _ _).trans (ih _ _))
      | _ =>
          simp only [perform]
          exact (performLast_follows reporters session state _).trans (ih _ _)

theorem performTeardown_follows (session : Session) (state : σ) (commands : List Command) :
    session.Follows (session.performTeardown reporters state commands).2.1 := by
  induction commands generalizing session state with
  | nil => exact .refl session
  | cons command rest ih =>
      cases command with
      | disconnect reporter =>
          rw [performTeardown]
          split
          · exact .refl session
          · exact ih _ _
      | _ =>
          simp only [performTeardown]
          exact (performLast_follows reporters session state _).trans (ih _ _)

def MayBreak (reporters : Reporters σ) : Prop :=
  ∃ reporter state thrown, (reporters.disconnect reporter state).1 = .error (.broke thrown)

theorem mayBreak_of_performTeardown {session : Session} {state : σ} {commands : List Command}
    (incomplete : (session.performTeardown reporters state commands).1 = false) :
    MayBreak reporters := by
  induction commands generalizing session state with
  | nil => cases incomplete
  | cons command rest ih =>
      cases command with
      | disconnect reporter =>
          rw [performTeardown] at incomplete
          split at incomplete
          · rename_i thrown after broke
            exact ⟨reporter, state, thrown, by rw [broke]⟩
          · exact ih incomplete
      | _ => exact ih incomplete

def Simulated (session later : Session) (served : List Nat) (broke : Prop) : Prop :=
  ∀ host, session.Hosts host → ∃ moves, later.Hosts (host.run moves) ∧
    host.processedAll moves = served ∧ (.breakOff ∈ moves → broke)

variable {broke : Prop} {served more : List Nat}

theorem Simulated.refl (session : Session) : Simulated session session [] broke :=
  fun _host hosts => ⟨[], hosts, rfl, nofun⟩

theorem Simulated.trans (first : Simulated session middle served broke)
    (second : Simulated middle later more broke) :
    Simulated session later (served ++ more) broke := by
  intro host hosts
  obtain ⟨moves, there, begun, whole⟩ := first host hosts
  obtain ⟨others, beyond, last, still⟩ := second _ there
  refine ⟨moves ++ others, ?_, ?_, fun member => ?_⟩
  · rwa [Hosting.run_append]
  · rw [Hosting.processedAll_append, begun, last]
  · exact (List.mem_append.mp member).elim whole still

theorem Simulated.then (first : Simulated session middle [] broke)
    (second : Simulated middle later served broke) : Simulated session later served broke :=
  first.trans second

theorem simulated_others {events : List Event}
    (kept : ∀ event ∈ events, ∀ delivery, event ≠ .abandon delivery)
    (life : later.life = (session.life.run events).1) (stage : later.stage = session.stage)
    (same : ordered later.tasks = ordered session.tasks)
    (owned : later.owned = session.owned) : Simulated session later [] broke := by
  intro host hosts
  obtain ⟨goes, none⟩ := Hosting.run_others kept host
  refine ⟨events.map .other, ?_, none, by simp⟩
  rw [goes]
  refine ⟨?_, hosts.stage.trans stage.symm, hosts.due.trans same.symm, fun still => ?_⟩
  · rw [life, ← hosts.life]
  · rw [owned]
    exact hosts.begun (stage ▸ still)

theorem simulated_same (life : later.life = session.life) (stage : later.stage = session.stage)
    (same : ordered later.tasks = ordered session.tasks)
    (owned : later.owned = session.owned) : Simulated session later [] broke :=
  simulated_others (nofun : ∀ event ∈ [], _) life stage same owned

theorem Follows.simulated (follows : session.Follows later) :
    Simulated session later [] broke := by
  obtain ⟨events, replies, life⟩ := follows.replies
  refine simulated_others (fun event member delivery same => ?_) life follows.stage
    follows.ordered follows.owned
  subst same
  cases replies _ member

theorem simulated_step (event : Event) (kept : ∀ delivery, event ≠ .abandon delivery)
    (session : Session) : Simulated session (session.note event) [] broke :=
  simulated_others (fun _ member => List.mem_singleton.mp member ▸ kept) rfl rfl rfl rfl

theorem happen_follows (session : Session) (event : Event) (state : σ) :
    (session.note event).Follows (session.happen reporters event state).1 :=
  perform_follows reporters _ _ _

theorem simulated_happen (event : Event) (kept : ∀ delivery, event ≠ .abandon delivery)
    (session : Session) (state : σ) :
    Simulated session (session.happen reporters event state).1 [] broke :=
  (simulated_step event kept session).then (happen_follows reporters session event state).simulated

/-! ### Hearing the host -/

theorem Follows.current (follows : session.Follows later) :
    later.life.current = session.life.current := by
  obtain ⟨events, replies, life⟩ := follows.replies
  have kept (start : Lifecycle) : (start.run events).1.current = start.current := by
    clear life
    induction events generalizing start with
    | nil => rfl
    | cons event rest ih =>
        rw [Lifecycle.run_cons, ih fun other member => replies other (.tail _ member),
          Lifecycle.current_step]
        have reply := replies event List.mem_cons_self
        cases event <;> first | rfl | cases reply
  rw [life, kept]

theorem simulated_serve (listening : session.stage = .listening) (change : Change) (state : σ) :
    Simulated session (session.serve reporters change state).1 [session.life.current + 1]
      broke := by
  let begun := session.note (.trigger change)
  have current : begun.life.current = session.life.current + 1 :=
    Lifecycle.current_step session.life (.trigger change)
  have first : Simulated session
      { begun with tasks := session.tasks ++ [.delivery begun.life.current true] }
      [session.life.current + 1] broke := by
    intro host hosts
    have hears : host.stage = .listening := hosts.stage.trans listening
    have life : (host.life.run (host.events (.serve change))).1 = begun.life := by
      rw [Hosting.events, if_pos hears, hosts.life]
      rfl
    refine ⟨[.serve change], ?_, ?_, by simp⟩
    · change Hosts _ (host.move (.serve change))
      simp only [Hosting.move, if_pos hears, life]
      refine ⟨rfl, hosts.stage, ?_, hosts.begun⟩
      rw [ordered_append, hosts.due]
      rfl
    · simp [Hosting.processedAll, Hosting.processed, hears, hosts.life]
  have follows := happen_follows reporters session (.trigger change) state
  have rest : Follows
      { begun with tasks := session.tasks ++ [.delivery begun.life.current true] }
      (session.serve reporters change state).1 := by
    refine ⟨follows.replies, follows.stage, ?_, follows.owned⟩
    simp only [serve, trigger, ordered_append, follows.ordered]
    rw [follows.current, List.append_assoc]
    rfl
  exact first.trans rest.simulated

theorem note_foldl (session : Session) (numbers : List Nat) :
    numbers.foldl (fun left delivery => left.note (.abandon delivery)) session =
      { session with life := (session.life.run (numbers.map .abandon)).1 } := by
  induction numbers generalizing session with
  | nil => rfl
  | cons number rest ih =>
      rw [List.foldl_cons, ih]
      rfl

theorem ordered_filter (tasks : List Task) :
    ordered (tasks.filter fun task => !task.isOwned) = [] := by
  rw [ordered, List.filterMap_eq_nil_iff]
  intro task member
  have other := (List.mem_filter.mp member).2
  cases task with
  | delivery report owned =>
      cases owned with
      | false => rfl
      | true => cases other
  | _ => rfl

theorem simulated_giveUp (session : Session) (broken : broke) :
    Simulated { session with stage := .closing } session.giveUp [] broke := by
  intro host hosts
  have closing : host.stage = .closing := hosts.stage
  have begun : host.begun = session.owned := hosts.begun nofun
  refine ⟨[.breakOff], ?_, rfl, fun _ => broken⟩
  change Hosts _ (host.move .breakOff)
  simp only [Hosting.move, Hosting.events, if_pos closing, begun]
  unfold giveUp
  rw [note_foldl]
  refine ⟨?_, rfl, (ordered_filter _).symm, fun still => absurd rfl still⟩
  rw [hosts.life]

theorem simulated_windUp (listening : session.stage = .listening) (state : σ) :
    Simulated session (session.windUp reporters state).1 [] (MayBreak reporters) := by
  have first : Simulated session { session.note .teardown with stage := .closing } []
      (MayBreak reporters) := by
    intro host hosts
    have hears : host.stage = .listening := hosts.stage.trans listening
    refine ⟨[.close], ?_, rfl, by simp⟩
    change Hosts _ (host.move .close)
    simp only [Hosting.move, Hosting.events, if_pos hears]
    refine ⟨?_, rfl, hosts.due, fun _ => hosts.begun (by simp [listening])⟩
    rw [hosts.life]
    rfl
  refine first.then ?_
  have follows := performTeardown_follows reporters (session.note .teardown) state
    (session.life.step .teardown).2
  have closed : Follows { session.note .teardown with stage := .closing }
      { ((session.note .teardown).performTeardown reporters state
        (session.life.step .teardown).2).2.1 with stage := .closing } :=
    ⟨follows.replies, rfl, follows.ordered, follows.owned⟩
  change Simulated _ (if ((session.note .teardown).performTeardown reporters state
    (session.life.step .teardown).2).1 = true then _ else _) [] _
  split
  · exact closed.simulated
  · rename_i incomplete
    have breaks : MayBreak reporters :=
      mayBreak_of_performTeardown reporters (Bool.eq_false_iff.mpr incomplete)
    exact closed.simulated.then (simulated_giveUp _ breaks)

theorem simulated_hearAll (session : Session) (state : σ) (words : List HostEvent) :
    Simulated session (session.hearAll reporters state words).1
      (session.served reporters state words) (MayBreak reporters) := by
  induction words generalizing session state with
  | nil => exact .refl session
  | cons word rest ih =>
      refine Simulated.trans ?_ (ih _ _)
      cases stage : session.stage with
      | listening =>
          cases word with
          | initial => simpa [hear, stage] using simulated_serve reporters stage Change.empty state
          | incremental change =>
              simpa [hear, stage] using simulated_serve reporters stage change state
          | teardown => simpa [hear, stage] using simulated_windUp reporters stage state
          | hangUp => simpa [hear, stage] using simulated_windUp reporters stage state
      | closing => simpa [hear, stage] using Simulated.refl session
      | finished => simpa [hear, stage] using Simulated.refl session

theorem happen_ordered (session : Session) (event : Event) (state : σ) :
    ordered (session.happen reporters event state).1.tasks = ordered session.tasks :=
  (happen_follows reporters session event state).ordered

theorem runTasks_ordered (session : Session) (state : σ) (tasks : List Task) :
    ordered (session.runTasks reporters state tasks).1.tasks = ordered session.tasks := by
  induction tasks generalizing session state with
  | nil => rfl
  | cons task rest ih =>
      cases task with
      | cycle report =>
          exact (ih _ _).trans (happen_ordered reporters session (.start report) state)
      | delivery report owned =>
          exact (ih _ _).trans (happen_ordered reporters session (.deliver report) state)
      | answer report reporter result => exact ih _ _

theorem wakeAll_ordered (session : Session) (state : σ) (deliveries : List Nat) :
    ordered (session.wakeAll reporters state deliveries).1.tasks = ordered session.tasks := by
  induction deliveries generalizing session state with
  | nil => rfl
  | cons delivery rest ih =>
      exact (ih _ _).trans (happen_ordered reporters session (.wake delivery) state)

theorem simulated_wakeAll (session : Session) (state : σ) (deliveries : List Nat) :
    Simulated session (session.wakeAll reporters state deliveries).1 [] broke := by
  induction deliveries generalizing session state with
  | nil => exact .refl session
  | cons delivery rest ih =>
      refine (simulated_happen reporters (.wake delivery) (by simp) session state).then ?_
      exact ih (session.happen reporters (.wake delivery) state).1 _

theorem simulated_attend (session : Session) (report : Nat) (rest : List Task) :
    Simulated { session with tasks := .delivery report true :: rest }
      { session.note (.deliver report) with
        tasks := rest
        owned := session.owned ++ [session.life.deliveries.length] } [] broke := by
  intro host hosts
  have due : host.due = report :: ordered rest := hosts.due
  have member : report ∈ host.due := due ▸ List.mem_cons_self
  refine ⟨[.attend report], ?_, rfl, by simp⟩
  change Hosts _ (host.move (.attend report))
  simp only [Hosting.move, Hosting.events, if_pos member]
  refine ⟨?_, hosts.stage, ?_, fun still => ?_⟩
  · rw [hosts.life]
    rfl
  · rw [due, List.erase_cons_head]
  · rw [hosts.begun still, hosts.life]

theorem Follows.hold (follows : session.Follows later) (tasks : List Task) :
    Follows { session with tasks := tasks ++ session.tasks }
      { later with tasks := tasks ++ later.tasks } := by
  refine ⟨follows.replies, follows.stage, ?_, follows.owned⟩
  simp only [ordered_append, follows.ordered]

/-- Tasks that are being run stand in front of those that have been begun meanwhile. -/
theorem simulated_runTasks (session : Session) (state : σ) (tasks : List Task) :
    Simulated { session with tasks := tasks ++ session.tasks }
      (session.runTasks reporters state tasks).1 [] broke := by
  induction tasks generalizing session state with
  | nil => exact .refl session
  | cons task rest ih =>
      have drop (event : Event) (kept : ∀ delivery, event ≠ .abandon delivery)
          (none : ordered (task :: rest ++ session.tasks) = ordered (rest ++ session.tasks)) :
          Simulated { session with tasks := task :: rest ++ session.tasks }
            { session.note event with tasks := rest ++ session.tasks } [] broke :=
        simulated_others (fun _ member => List.mem_singleton.mp member ▸ kept) rfl rfl none.symm
          rfl
      cases task with
      | cycle report =>
          have follows := happen_follows reporters session (.start report) state
          rw [runTasks]
          refine ((drop (.start report) (by simp) rfl).then ?_).then (ih _ _)
          exact (follows.hold rest).simulated
      | delivery report owned =>
          have follows := happen_follows reporters session (.deliver report) state
          rw [runTasks]
          cases owned with
          | false =>
              refine ((drop (.deliver report) (by simp) rfl).then ?_).then (ih _ _)
              exact (follows.hold rest).simulated
          | true =>
              refine ((simulated_attend session report _).then ?_).then (ih _ _)
              have held := follows.hold rest
              refine Follows.simulated ⟨held.replies, held.stage, held.ordered, ?_⟩
              exact congrArg (· ++ _) follows.owned
      | answer report reporter result =>
          rw [runTasks]
          exact (drop (.answered report reporter result) (by simp) rfl).then (ih _ _)

theorem simulated_finish (empty : ordered session.tasks = []) :
    Simulated session session.finish [] broke := by
  unfold finish
  split
  · rename_i may
    intro host hosts
    have begun := hosts.begun (by rw [may.1]; nofun)
    refine ⟨[.leave], ?_, rfl, by simp⟩
    have leaves : host.stage = .closing ∧ host.due = [] ∧ host.allOver = true := by
      refine ⟨hosts.stage.trans may.1, hosts.due.trans empty, ?_⟩
      rw [Hosting.allOver, begun, hosts.life]
      exact may.2
    change Hosts _ (host.move .leave)
    simp only [Hosting.move, if_pos leaves]
    exact ⟨hosts.life, rfl, hosts.due, nofun⟩
  · exact .refl session

theorem simulated_idle (session : Session) (state : σ) :
    Simulated session (session.idle reporters state).1
      ({ session with inbox := [] }.served reporters state session.inbox)
      (MayBreak reporters) := by
  let quiet : Session := { session with inbox := [] }
  let heard := quiet.hearAll reporters state session.inbox
  let ran := { heard.1 with tasks := [] }.runTasks reporters heard.2 heard.1.tasks
  let woken := List.range ran.1.life.deliveries.length
  have hears : Simulated quiet heard.1 _ (MayBreak reporters) :=
    simulated_hearAll reporters quiet state session.inbox
  have runs : Simulated heard.1 ran.1 [] (MayBreak reporters) := by
    have held : Simulated { heard.1 with tasks := heard.1.tasks ++ [] } ran.1 []
        (MayBreak reporters) :=
      simulated_runTasks reporters { heard.1 with tasks := [] } heard.2 heard.1.tasks
    rwa [List.append_nil] at held
  have wakes : Simulated ran.1 (ran.1.wakeAll reporters ran.2 woken).1 [] (MayBreak reporters) :=
    simulated_wakeAll reporters ran.1 ran.2 woken
  have ends : Simulated (ran.1.wakeAll reporters ran.2 woken).1
      (ran.1.wakeAll reporters ran.2 woken).1.finish [] (MayBreak reporters) := by
    apply simulated_finish
    rw [wakeAll_ordered]
    exact runTasks_ordered reporters _ _ _
  have all := hears.trans (runs.then (wakes.then ends))
  rw [List.append_nil] at all
  exact fun host hosts => all host ⟨hosts.life, hosts.stage, hosts.due, hosts.begun⟩

theorem simulated_call (session : Session) (state : σ) (call : Call) :
    Simulated session (session.call reporters state call).1
      (match call with
        | .idle => { session with inbox := [] }.served reporters state session.inbox
        | _ => []) (MayBreak reporters) := by
  cases call with
  | trigger change =>
      have first := happen_follows reporters session (.trigger change) state
      refine (simulated_step (.trigger change) (by simp) session).then ?_
      refine Follows.simulated ⟨first.replies, first.stage, ?_, first.owned⟩
      have none (number : Nat) : ordered [.cycle number] = [] := rfl
      simp only [Session.call, Session.trigger, ordered_append, none, List.append_nil]
      exact first.ordered
  | deliver report =>
      refine simulated_same rfl rfl ?_ rfl
      exact (ordered_append _ _).trans (List.append_nil _)
  | teardown =>
      refine (simulated_step .teardown (by simp) session).then ?_
      exact (performTeardown_follows reporters _ _ _).simulated
  | answered report reporter answer => exact simulated_step _ (by simp) session
  | post word => exact simulated_same rfl rfl rfl rfl
  | idle => exact simulated_idle reporters session state

theorem simulated_calls (session : Session) (state : σ) (calls : List Call) :
    Simulated session (session.calls reporters state calls).1
      (session.servedAll reporters state calls) (MayBreak reporters) := by
  induction calls generalizing session state with
  | nil => exact .refl session
  | cons call rest ih => exact (simulated_call reporters session state call).trans (ih _ _)

theorem hosts_new (engines : List String) (filter : IssueFilter) :
    (new engines filter).Hosts (Hosting.new engines filter) :=
  ⟨rfl, rfl, rfl, fun _ => rfl⟩

end Session

structure Hosted (engines : List String) (filter : IssueFilter) (moves : List Move) : Prop where
  history : ((Hosting.new engines filter).run moves).life =
    ((Lifecycle.new engines filter).run ((Hosting.new engines filter).history moves)).1
  distinct : ((Hosting.new engines filter).processedAll moves).Pairwise (· < ·)
  /-- Each report begun for the host has one delivery, ordered or begun, and nobody gives it
  up. -/
  once : .breakOff ∉ moves →
    (((Hosting.new engines filter).run moves).due.map some ++
      ((Hosting.new engines filter).run moves).begun.map
        (Hosting.reportOf ((Hosting.new engines filter).run moves).life)).Perm
      (((Hosting.new engines filter).processedAll moves).map some) ∧
    ∀ delivery, .abandon delivery ∉ (Hosting.new engines filter).history moves
  /-- After it has left no delivery begins, and those that it has begun say nothing. -/
  left : ((Hosting.new engines filter).run moves).stage = .finished →
    ((Hosting.new engines filter).run moves).due = [] ∧
    ∀ later, (((Hosting.new engines filter).run moves).run later).begun =
        ((Hosting.new engines filter).run moves).begun ∧
      ∀ delivery ∈ ((Hosting.new engines filter).run moves).begun,
        ((Hosting.new engines filter).run moves).life.said delivery
          (((Hosting.new engines filter).run moves).history later) = []

theorem hosted (engines : List String) (filter : IssueFilter) (moves : List Move) :
    Hosted engines filter moves := by
  have sound := Hosting.sound_run engines filter moves
  refine ⟨Hosting.life_run _ _, ?_, fun whole => ⟨sound.account whole, ?_⟩, fun left => ?_⟩
  · exact (Lifecycle.issued_pairwise _ _).sublist (Hosting.processedAll_sublist _ moves)
  · exact Hosting.abandon_not_mem_history whole _
  · obtain ⟨empty, ended⟩ := sound.ended left
    refine ⟨empty, fun later => ⟨(Hosting.begun_run left empty later).1, fun delivery begun => ?_⟩⟩
    obtain ⟨report, here⟩ := ended delivery begun
    exact (Lifecycle.finished_run here _).2

/-- In every order of events reports are published while they are current, each delivery says
at most one word of waiting and one closing word, a hosting delivers each report of its host
once and is silent when it has left, and a session is where a hosting is that has begun the
same reports, whatever its reporters do. -/
theorem reports_published_while_current (engines : List String) (filter : IssueFilter) :
    (∀ start events, Lifecycle.Published start events) ∧
    (∀ moves, Hosted engines filter moves) ∧
    ∀ (σ : Type) (reporters : Reporters σ) (state : σ) (calls : List Session.Call),
      ∃ moves,
        ((Session.new engines filter).calls reporters state calls).1.Hosts
          ((Hosting.new engines filter).run moves) ∧
        (Hosting.new engines filter).processedAll moves =
          (Session.new engines filter).servedAll reporters state calls ∧
        (.breakOff ∈ moves → Session.MayBreak reporters) :=
  ⟨Lifecycle.published, hosted engines filter, fun _ reporters state calls =>
    Session.simulated_calls reporters _ state calls _ (Session.hosts_new engines filter)⟩

namespace Hosting.Trial

/-- The second trigger comes before the first report has settled. -/
def front : List Event :=
  [.trigger Change.empty, .deliver 1, .trigger Change.empty, .start 1, .wake 0]

def history : List Event := front ++ [.deliver 2, .start 2]

def moves : List Move :=
  [.serve Change.empty, .attend 1, .close, .other (.start 1), .other (.wake 0), .leave]

end Hosting.Trial

/-- The first report is not heard of after the second trigger; the second one is announced as
waiting, and closes. A hosting that has left has delivered the report it was asked for. -/
theorem reports_published_of_superseded :
    let start := Lifecycle.new [] IssueFilter.keepAll
    let host := Hosting.new [] IssueFilter.keepAll
    start.said 1 (Hosting.Trial.history ++ [.wake 1]) =
        [(2, .waiting), (2, .final (.resolved []))] ∧
      (∀ announcement, .announce 1 announcement ∉
        ((start.run (Hosting.Trial.front.take 2 ++ [.trigger Change.empty])).1.run
          (Hosting.Trial.history.drop 3)).2) ∧
      ((host.run Hosting.Trial.moves).due.map some ++
        (host.run Hosting.Trial.moves).begun.map
          (Hosting.reportOf (host.run Hosting.Trial.moves).life)).Perm [some 1] ∧
      ∀ later, ∀ delivery ∈ (host.run Hosting.Trial.moves).begun,
        (host.run Hosting.Trial.moves).life.said delivery
          ((host.run Hosting.Trial.moves).history later) = [] := by
  obtain ⟨published, hosted, _sessions⟩ :=
    reports_published_while_current [] IssueFilter.keepAll
  have along := published (Lifecycle.new [] IssueFilter.keepAll) Hosting.Trial.history
  have served := hosted Hosting.Trial.moves
  refine ⟨?_, ?_, (served.once (by simp [Hosting.Trial.moves])).1, fun later => ?_⟩
  · exact along.closes Hosting.Trial.front 2 [.start 2] (.resolved []) rfl (by decide)
      (by simp) rfl rfl
  · exact along.superseded (Hosting.Trial.front.take 2) Change.empty _ rfl 1 (by decide)
  · exact ((served.left rfl).2 later).2

end Reanalysis
