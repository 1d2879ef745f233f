/-
How a cycle comes to wait for the one in front of it. The task of a cycle holds the sending half
of a channel; the receiving half is kept with the cycle while it is current, and the task of the
next cycle takes it over. A task goes on once something has been sent to it, and sends once it has
handed out its change. In whatever order tasks get to run, they do what a life cycle does for some
of the same events.
-/

import Reanalysis.Proofs.HandOver

namespace Reanalysis

/-- The half of a channel by the number of the cycle that sends. -/
abbrev Receiver := Nat

structure CycleTask where
  after : Option Receiver
  sent : Bool

/-- A life cycle whose tasks wait for each other. -/
structure Relay where
  life : Lifecycle
  kept : Option Receiver
  tasks : List CycleTask

inductive Relay.Move where
  | occur (event : Event)
  /-- A task sends, if it has handed out its change. -/
  | send (report : Nat)

def Relay.Move.event? : Relay.Move → Option Event
  | .occur event => some event
  | .send _ => none

namespace Relay

def new (engines : List String) (filter : IssueFilter) : Relay :=
  ⟨Lifecycle.new engines filter, none, []⟩

def task? (relay : Relay) (report : Nat) : Option CycleTask :=
  if report = 0 then none else relay.tasks[report - 1]?

def hasSent (relay : Relay) (report : Nat) : Bool := (relay.task? report).any CycleTask.sent

/-- Whether a task has nothing to wait for any more. -/
def mayGo (relay : Relay) (report : Nat) : Bool :=
  (relay.task? report).any fun task => task.after.all relay.hasSent

def trigger (relay : Relay) (change : Change) : Relay × List Command :=
  let (life, commands) := relay.life.trigger change
  (⟨life, some life.current, relay.tasks ++ [⟨relay.kept, false⟩]⟩, commands)

def start (relay : Relay) (report : Nat) : Relay × List Command :=
  if relay.mayGo report then
    let (life, commands) := relay.life.launch report
    ({ relay with life := life }, commands)
  else (relay, [])

def send (relay : Relay) (report : Nat) : Relay :=
  if (relay.life.cycle? report).any Cycle.handedOut then
    { relay with tasks := relay.tasks.modify (report - 1) ({ · with sent := true }) }
  else relay

def follow (relay : Relay) (event : Event) : Relay :=
  { relay with life := (relay.life.step event).1 }

def occur (relay : Relay) : Event → Relay × List Command
  | .trigger change => relay.trigger change
  | .start report => relay.start report
  | event => (relay.follow event, (relay.life.step event).2)

def step (relay : Relay) : Move → Relay × List Command
  | .occur event => relay.occur event
  | .send report => (relay.send report, [])

def run (relay : Relay) : List Move → Relay × List Command
  | [] => (relay, [])
  | move :: rest =>
      let (next, commands) := relay.step move
      let (last, later) := run next rest
      (last, commands ++ later)

/-- Whether a task has handed out its change and not sent yet. -/
def owes (relay : Relay) (report : Nat) : Bool :=
  (relay.life.cycle? report).any Cycle.handedOut && !relay.hasSent report

/-- The cycle whose change may be handed out by an event. -/
def handsOut? : Event → Option Nat
  | .start report => some report
  | .connected report _ _ => some report
  | _ => none

def promptly (event : Event) : List Move :=
  .occur event :: ((handsOut? event).map Move.send).toList

def ahead (report : Nat) : Option Receiver := if report ≤ 1 then none else some (report - 1)

/-- There is a task for each cycle, it waits for the cycle in front of it, and it has sent only
what it has handed out. -/
structure Sound (relay : Relay) : Prop where
  kept : relay.kept = ahead (relay.life.current + 1)
  tasks : relay.tasks.length = relay.life.current
  after : ∀ report task, relay.task? report = some task → task.after = ahead report
  sent : ∀ report, relay.hasSent report = true →
    ∃ cycle, relay.life.cycle? report = some cycle ∧ cycle.handedOut = true

variable {relay : Relay}

@[simp] theorem task?_zero (relay : Relay) : relay.task? 0 = none := rfl

@[simp] theorem task?_succ (relay : Relay) (index : Nat) :
    relay.task? (index + 1) = relay.tasks[index]? := rfl

theorem sound_new (engines : List String) (filter : IssueFilter) : (new engines filter).Sound where
  kept := rfl
  tasks := rfl
  after := fun report task found => by cases report <;> cases found
  sent := fun report sent => by cases report <;> cases sent

theorem Sound.task?_isSome (sound : relay.Sound) {report : Nat} :
    (relay.task? report).isSome ↔ report ≠ 0 ∧ report ≤ relay.life.current := by
  rw [← sound.tasks]
  cases report with
  | zero => simp
  | succ index =>
      rw [task?_succ, isSome_getElem?]
      omega

theorem hasSent_iff {report : Nat} :
    relay.hasSent report = true ↔ ∃ task, relay.task? report = some task ∧ task.sent = true := by
  unfold hasSent
  simp [Option.any_eq_true]

theorem Sound.mayGo_iff (sound : relay.Sound) {report : Nat} :
    relay.mayGo report = true ↔ report ≠ 0 ∧ report ≤ relay.life.current ∧
      (report ≤ 1 ∨ relay.hasSent (report - 1) = true) := by
  rw [← and_assoc, ← sound.task?_isSome]
  unfold mayGo
  cases found : relay.task? report with
  | none => simp
  | some task =>
      rw [Option.any_some, sound.after report task found]
      unfold ahead
      by_cases first : report ≤ 1
      · simp [first]
      · simp [first]

theorem Sound.mayStart (sound : relay.Sound) {report : Nat} (goes : relay.mayGo report = true) :
    relay.life.mayStart report = true := by
  obtain ⟨positive, within, received⟩ := sound.mayGo_iff.mp goes
  unfold Lifecycle.mayStart
  rcases received with first | sent
  · rw [show report - 1 = 0 by omega]
    rfl
  · obtain ⟨before, found, out⟩ := sound.sent (report - 1) sent
    rw [found]
    exact out

theorem owes_iff {report : Nat} :
    relay.owes report = true ↔ (∃ cycle, relay.life.cycle? report = some cycle ∧
      cycle.handedOut = true) ∧ relay.hasSent report = false := by
  unfold owes
  rw [Bool.and_eq_true, Option.any_eq_true, Bool.not_eq_true']

/-- The channels come to the guard of the life cycle, but for sends that are still due. -/
theorem Sound.mayGo_iff_mayStart (sound : relay.Sound) {report : Nat} (positive : report ≠ 0)
    (within : report ≤ relay.life.current) :
    relay.mayGo report = true ↔
      relay.life.mayStart report = true ∧ relay.owes (report - 1) = false := by
  constructor
  · intro goes
    refine ⟨sound.mayStart goes, Bool.eq_false_iff.mpr fun owes => ?_⟩
    obtain ⟨⟨before, found, _out⟩, unsent⟩ := owes_iff.mp owes
    obtain ⟨_positive, _within, first | sent⟩ := sound.mayGo_iff.mp goes
    · exact (Lifecycle.ne_zero_of_cycle? found).1 (by omega)
    · exact absurd (sent.symm.trans unsent) (by simp)
  · rintro ⟨next, clear⟩
    refine sound.mayGo_iff.mpr ⟨positive, within, ?_⟩
    by_cases first : report ≤ 1
    · exact .inl first
    · have earlier : (relay.life.cycle? (report - 1)).isSome :=
        Lifecycle.cycle?_isSome.mpr ⟨by omega, by omega⟩
      obtain ⟨before, found⟩ := Option.isSome_iff_exists.mp earlier
      have out : before.handedOut = true := by simpa [Lifecycle.mayStart, found] using next
      cases sent : relay.hasSent (report - 1) with
      | true => exact .inr rfl
      | false =>
          have owes := owes_iff.mpr ⟨⟨before, found, out⟩, sent⟩
          exact absurd (owes.symm.trans clear) (by simp)

theorem current_follow (relay : Relay) {event : Event} (other : ∀ change, event ≠ .trigger change) :
    (relay.follow event).life.current = relay.life.current := by
  refine (Lifecycle.current_step relay.life event).trans ?_
  split
  · exact absurd rfl (other _)
  · rfl

theorem Sound.follow (sound : relay.Sound) {event : Event}
    (other : ∀ change, event ≠ .trigger change) : (relay.follow event).Sound where
  kept := by
    rw [current_follow relay other]
    exact sound.kept
  tasks := sound.tasks.trans (current_follow relay other).symm
  after := sound.after
  sent := fun report sent => by
    obtain ⟨cycle, found, out⟩ := sound.sent report sent
    obtain ⟨later, here, follows⟩ := Lifecycle.exists_cycle?_step found event
    exact ⟨later, here, follows.handedOut out⟩

theorem Sound.occur_cases (sound : relay.Sound) (event : Event) :
    (∃ change, event = .trigger change) ∨
      ((∀ change, event ≠ .trigger change) ∧
        relay.occur event = (relay.follow event, (relay.life.step event).2)) ∨
      ∃ report, event = .start report ∧ relay.mayGo report = false ∧
        relay.occur event = (relay, []) := by
  cases event with
  | trigger change => exact .inl ⟨change, rfl⟩
  | start report =>
      unfold Relay.occur start Relay.follow
      dsimp only
      split
      · rename_i goes
        have launched : relay.life.step (.start report) = relay.life.launch report :=
          if_pos (sound.mayStart goes)
        rw [launched]
        exact .inr (.inl ⟨fun _ same => (nomatch same), rfl⟩)
      · rename_i waits
        exact .inr (.inr ⟨report, rfl, Bool.eq_false_iff.mpr waits, rfl⟩)
  | _ => exact .inr (.inl ⟨fun _ same => (nomatch same), rfl⟩)

theorem current_trigger (relay : Relay) (change : Change) :
    (relay.trigger change).1.life.current = relay.life.current + 1 :=
  Lifecycle.current_step relay.life (.trigger change)

theorem task?_trigger (sound : relay.Sound) (change : Change) (report : Nat) :
    (relay.trigger change).1.task? report =
      if report = relay.life.current + 1 then some ⟨relay.kept, false⟩ else relay.task? report := by
  unfold trigger
  cases report with
  | zero => simp
  | succ index =>
      rw [task?_succ, task?_succ, ← sound.tasks, List.getElem?_append]
      by_cases within : index < relay.tasks.length
      · rw [if_pos within, if_neg (by omega)]
      · rw [if_neg within, List.getElem?_eq_none (Nat.le_of_not_lt within)]
        by_cases here : index = relay.tasks.length
        · simp [here]
        · rw [if_neg (by omega), List.getElem?_eq_none]
          simp only [List.length_singleton]
          omega

theorem Sound.trigger (sound : relay.Sound) (change : Change) :
    (relay.trigger change).1.Sound where
  kept := by
    change some (relay.trigger change).1.life.current = _
    rw [current_trigger]
    rfl
  tasks := by
    change (relay.tasks ++ [_]).length = (relay.trigger change).1.life.current
    rw [current_trigger, List.length_append, sound.tasks]
    rfl
  after := fun report task found => by
    rw [task?_trigger sound] at found
    split at found
    · rename_i fresh
      cases found
      rw [fresh]
      exact sound.kept
    · exact sound.after report task found
  sent := fun report sent => by
    obtain ⟨task, found, sent⟩ := hasSent_iff.mp sent
    rw [task?_trigger sound] at found
    split at found
    · cases found
      cases sent
    · obtain ⟨cycle, held, out⟩ := sound.sent report (hasSent_iff.mpr ⟨task, found, sent⟩)
      obtain ⟨later, here, follows⟩ := Lifecycle.exists_cycle?_step held (.trigger change)
      exact ⟨later, here, follows.handedOut out⟩

theorem task?_send (report number : Nat) :
    (relay.send report).task? number =
      if number = report ∧ (relay.life.cycle? report).any Cycle.handedOut then
        (relay.task? number).map ({ · with sent := true })
      else relay.task? number := by
  unfold send
  split
  · rename_i out
    have positive : report ≠ 0 := by
      rintro rfl
      cases out
    obtain ⟨index, rfl⟩ := Nat.exists_eq_succ_of_ne_zero positive
    cases number with
    | zero => simp
    | succ other =>
        by_cases here : other = index
        · subst here
          rw [if_pos ⟨rfl, out⟩]
          simp
        · simp [here, Ne.symm here]
  · rename_i kept
    rw [if_neg fun both => kept both.2]

theorem life_send (relay : Relay) (report : Nat) : (relay.send report).life = relay.life := by
  unfold send
  split <;> rfl

theorem Sound.send (sound : relay.Sound) (report : Nat) : (relay.send report).Sound := by
  refine ⟨?_, ?_, fun number task found => ?_, fun number sent => ?_⟩
  · rw [life_send, ← sound.kept]
    unfold Relay.send
    split <;> rfl
  · rw [life_send, ← sound.tasks]
    unfold Relay.send
    split <;> simp
  · rw [task?_send] at found
    split at found
    · obtain ⟨earlier, here, rfl⟩ := Option.map_eq_some_iff.mp found
      exact sound.after number earlier here
    · exact sound.after number task found
  · rw [life_send]
    obtain ⟨task, found, sent⟩ := hasSent_iff.mp sent
    rw [task?_send] at found
    split at found
    · rename_i own
      obtain ⟨rfl, out⟩ := own
      exact (Option.any_eq_true _ _).mp out
    · exact sound.sent number (hasSent_iff.mpr ⟨task, found, sent⟩)

theorem Sound.occur (sound : relay.Sound) (event : Event) : (relay.occur event).1.Sound := by
  rcases sound.occur_cases event with ⟨change, rfl⟩ | ⟨other, same⟩ | ⟨report, rfl, _waits, same⟩
  · exact sound.trigger change
  · rw [same]
    exact sound.follow other
  · rw [same]
    exact sound

/-! ### Any order -/

theorem Sound.step_cases (sound : relay.Sound) (move : Move) :
    (∃ event, move.event? = some event ∧
      (relay.step move).1.life = (relay.life.step event).1 ∧
      (relay.step move).2 = (relay.life.step event).2) ∨
    (relay.step move).1.life = relay.life ∧ (relay.step move).2 = [] := by
  cases move with
  | send report => exact .inr ⟨life_send relay report, rfl⟩
  | occur event =>
      unfold Relay.step
      dsimp only
      rcases sound.occur_cases event with ⟨change, rfl⟩ | ⟨_other, same⟩ | ⟨report, rfl, _waits, same⟩
      · exact .inl ⟨.trigger change, rfl, rfl, rfl⟩
      · rw [same]
        exact .inl ⟨event, rfl, rfl, rfl⟩
      · rw [same]
        exact .inr ⟨rfl, rfl⟩

theorem Sound.step (sound : relay.Sound) (move : Move) : (relay.step move).1.Sound := by
  cases move with
  | send report => exact sound.send report
  | occur event => exact sound.occur event

theorem Sound.run (sound : relay.Sound) (moves : List Move) : (relay.run moves).1.Sound := by
  induction moves generalizing relay with
  | nil => exact sound
  | cons move rest ih => exact ih (sound.step move)

theorem run_cons (move : Move) (rest : List Move) :
    relay.run (move :: rest) =
      (((relay.step move).1.run rest).1,
        (relay.step move).2 ++ ((relay.step move).1.run rest).2) := rfl

theorem Sound.exists_events (sound : relay.Sound) (moves : List Move) :
    ∃ events, events.Sublist (moves.filterMap Move.event?) ∧
      (relay.run moves).1.life = (relay.life.run events).1 ∧
      (relay.run moves).2 = (relay.life.run events).2 := by
  induction moves generalizing relay with
  | nil => exact ⟨[], .slnil, rfl, rfl⟩
  | cons move rest ih =>
      obtain ⟨events, among, last, later⟩ := ih (sound.step move)
      rw [run_cons]
      dsimp only
      rw [last, later]
      rcases sound.step_cases move with ⟨event, own, life, commands⟩ | ⟨life, commands⟩
      · refine ⟨event :: events, ?_, ?_⟩
        · rw [List.filterMap_cons_some own]
          exact among.cons_cons event
        · rw [Lifecycle.run_cons, life, commands]
          exact ⟨rfl, rfl⟩
      · refine ⟨events, ?_, ?_⟩
        · exact among.trans ((List.sublist_cons_self move rest).filterMap Move.event?)
        · rw [life, commands]
          exact ⟨rfl, rfl⟩

theorem handedOut_setPhase {life : Lifecycle} {report number : Nat} {held later : Cycle}
    {phase : Phase} (here : life.cycle? report = some held)
    (found : (life.setPhase report phase).cycle? number = some later)
    (out : later.handedOut = true) :
    (∃ cycle, life.cycle? number = some cycle ∧ cycle.handedOut = true) ∨ number = report := by
  rw [Lifecycle.cycle?_setPhase (Lifecycle.ne_zero_of_cycle? here).1] at found
  split at found
  · rename_i own
    exact .inr own
  · exact .inl ⟨later, found, out⟩

theorem handedOut_signalCurrent {life : Lifecycle} {number : Nat} {later : Cycle}
    (found : life.signalCurrent.1.cycle? number = some later) (out : later.handedOut = true) :
    ∃ cycle, life.cycle? number = some cycle ∧ cycle.handedOut = true := by
  rw [Lifecycle.cycle?_signalCurrent] at found
  split at found
  · obtain ⟨cycle, held, rfl⟩ := Option.map_eq_some_iff.mp found
    exact ⟨cycle, held, out⟩
  · exact ⟨later, found, out⟩

theorem handedOut_step {life : Lifecycle} {event : Event} {number : Nat} {later : Cycle}
    (found : (life.step event).1.cycle? number = some later) (out : later.handedOut = true) :
    (∃ cycle, life.cycle? number = some cycle ∧ cycle.handedOut = true) ∨
      handsOut? event = some number := by
  have stepped := Lifecycle.step_stepped life event
  generalize (life.step event).1 = next, (life.step event).2 = commands at stepped found
  cases stepped with
  | triggered change =>
      rw [Lifecycle.cycle?_append] at found
      split at found
      · cases found
        cases out
      · exact .inl (handedOut_signalCurrent found out)
  | started report cycle here queued next =>
      exact (handedOut_setPhase here found out).imp_right fun own => congrArg some own.symm
  | linked report reporter result cycle links here connecting opened =>
      exact (handedOut_setPhase here found out).imp_right fun own => congrArg some own.symm
  | answered report reporter result cycle answers here reporting opened =>
      rcases handedOut_setPhase here found out with before | rfl
      · exact .inl before
      · exact .inl ⟨cycle, here, by simp [Cycle.handedOut, reporting]⟩
  | tornDown => exact .inl (handedOut_signalCurrent found out)
  | _ => exact .inl ⟨later, found, out⟩

theorem Sound.owes_send (sound : relay.Sound) {report number : Nat}
    (owes : (relay.send report).owes number = true) :
    relay.owes number = true ∧ number ≠ report := by
  obtain ⟨⟨cycle, found, out⟩, unsent⟩ := owes_iff.mp owes
  rw [life_send] at found
  unfold hasSent at unsent
  rw [task?_send] at unsent
  split at unsent
  · have there : (relay.task? number).isSome :=
      sound.task?_isSome.mpr (Lifecycle.ne_zero_of_cycle? found)
    obtain ⟨task, held⟩ := Option.isSome_iff_exists.mp there
    rw [held] at unsent
    cases unsent
  · rename_i other
    refine ⟨owes_iff.mpr ⟨⟨cycle, found, out⟩, unsent⟩, ?_⟩
    rintro rfl
    exact other ⟨rfl, (Option.any_eq_true _ _).mpr ⟨cycle, found, out⟩⟩

theorem Sound.occur_eq (sound : relay.Sound) (clear : ∀ report, relay.owes report = false)
    (event : Event) :
    (relay.occur event).1.life = (relay.life.step event).1 ∧
      (relay.occur event).2 = (relay.life.step event).2 := by
  rcases sound.occur_cases event with ⟨change, rfl⟩ | ⟨_other, same⟩ | ⟨report, rfl, waits, same⟩
  · exact ⟨rfl, rfl⟩
  · rw [same]
    exact ⟨rfl, rfl⟩
  · have idle : relay.life.step (.start report) = (relay.life, []) := by
      unfold Lifecycle.step Lifecycle.start
      dsimp only
      split
      · rename_i next
        refine Lifecycle.launch_of_begun fun cycle found => ?_
        have inside := Lifecycle.ne_zero_of_cycle? found
        have goes := (sound.mayGo_iff_mayStart inside.1 inside.2).mpr ⟨next, clear _⟩
        exact absurd (goes.symm.trans waits) (by simp)
      · rfl
    rw [same, idle]
    exact ⟨rfl, rfl⟩

theorem Sound.hasSent_occur (sound : relay.Sound) (event : Event) {report : Nat}
    (sent : relay.hasSent report = true) : (relay.occur event).1.hasSent report = true := by
  rcases sound.occur_cases event with ⟨change, rfl⟩ | ⟨_other, same⟩ | ⟨_report, rfl, _waits, same⟩
  · obtain ⟨task, found, sent⟩ := hasSent_iff.mp sent
    have inside := sound.task?_isSome.mp (Option.isSome_iff_exists.mpr ⟨task, found⟩)
    refine hasSent_iff.mpr ⟨task, ?_, sent⟩
    change (relay.trigger change).1.task? report = some task
    rw [task?_trigger sound, if_neg (by omega), found]
  · rw [same]
    exact sent
  · rw [same]
    exact sent

theorem Sound.handsOut?_of_owes (sound : relay.Sound)
    (clear : ∀ report, relay.owes report = false) {event : Event} {number : Nat}
    (owes : (relay.occur event).1.owes number = true) : handsOut? event = some number := by
  obtain ⟨⟨later, found, out⟩, unsent⟩ := owes_iff.mp owes
  rw [(sound.occur_eq clear event).1] at found
  refine (handedOut_step found out).resolve_left fun before => ?_
  cases sent : relay.hasSent number with
  | true => exact absurd ((sound.hasSent_occur event sent).symm.trans unsent) (by simp)
  | false => exact absurd ((owes_iff.mpr ⟨before, sent⟩).symm.trans (clear number)) (by simp)

theorem Sound.run_promptly_one (sound : relay.Sound)
    (clear : ∀ report, relay.owes report = false) (event : Event) :
    (relay.run (promptly event)).1.life = (relay.life.step event).1 ∧
      (relay.run (promptly event)).2 = (relay.life.step event).2 ∧
      ∀ report, (relay.run (promptly event)).1.owes report = false := by
  have same := sound.occur_eq clear event
  unfold promptly
  rw [run_cons]
  change (((relay.occur event).1.run _).1.life = _ ∧ (relay.occur event).2 ++ _ = _ ∧ _)
  cases hands : handsOut? event with
  | none =>
      refine ⟨same.1, (List.append_nil _).trans same.2, fun number => ?_⟩
      refine Bool.eq_false_iff.mpr fun owes => ?_
      exact absurd (hands.symm.trans (sound.handsOut?_of_owes clear owes)) (by simp)
  | some report =>
      refine ⟨(life_send _ report).trans same.1, (List.append_nil _).trans same.2, fun number => ?_⟩
      refine Bool.eq_false_iff.mpr fun owes => ?_
      obtain ⟨still, other⟩ := (sound.occur event).owes_send owes
      have own := hands.symm.trans (sound.handsOut?_of_owes clear still)
      exact other (Option.some.inj own).symm

theorem run_append (front rest : List Move) :
    relay.run (front ++ rest) =
      (((relay.run front).1.run rest).1,
        (relay.run front).2 ++ ((relay.run front).1.run rest).2) := by
  induction front generalizing relay with
  | nil => rfl
  | cons move front ih => simp [run_cons, ih]

theorem Sound.run_promptly (sound : relay.Sound) (clear : ∀ report, relay.owes report = false)
    (events : List Event) :
    (relay.run (events.flatMap promptly)).1.life = (relay.life.run events).1 ∧
      (relay.run (events.flatMap promptly)).2 = (relay.life.run events).2 := by
  induction events generalizing relay with
  | nil => exact ⟨rfl, rfl⟩
  | cons event rest ih =>
      obtain ⟨life, commands, nothing⟩ := sound.run_promptly_one clear event
      obtain ⟨last, later⟩ := ih (sound.run (promptly event)) nothing
      rw [List.flatMap_cons, run_append, Lifecycle.run_cons]
      dsimp only
      rw [last, later, life, commands]
      exact ⟨rfl, rfl⟩

theorem owes_new (engines : List String) (filter : IssueFilter) (report : Nat) :
    (new engines filter).owes report = false := by
  cases report <;> rfl

/-- Whatever the order of moves, the tasks do what the life cycle does for some of the same
events. -/
theorem run_eq_of_events (engines : List String) (filter : IssueFilter) (moves : List Move) :
    ∃ events, events.Sublist (moves.filterMap Move.event?) ∧
      ((new engines filter).run moves).1.life = ((Lifecycle.new engines filter).run events).1 ∧
      ((new engines filter).run moves).2 = ((Lifecycle.new engines filter).run events).2 :=
  (sound_new engines filter).exists_events moves

/-- With tasks that send at once, they do what the life cycle does for all events. -/
theorem run_eq_of_promptly (engines : List String) (filter : IssueFilter)
    (events : List Event) :
    ((new engines filter).run (events.flatMap promptly)).1.life =
        ((Lifecycle.new engines filter).run events).1 ∧
      ((new engines filter).run (events.flatMap promptly)).2 =
        ((Lifecycle.new engines filter).run events).2 :=
  (sound_new engines filter).run_promptly (owes_new engines filter) events

/-- As long as a cycle has not handed out its change, a task may go, or has to send, or a
connection has to come out. -/
theorem exists_goes_or_owes (engines : List String) (filter : IssueFilter) (moves : List Move)
    {report : Nat} {cycle : Cycle}
    (found : ((new engines filter).run moves).1.life.cycle? report = some cycle)
    (kept : cycle.handedOut = false) :
    ∃ earlier ≤ report,
      (((new engines filter).run moves).1.life.due earlier = true ∧
        ((new engines filter).run moves).1.mayGo earlier = true) ∨
      ((new engines filter).run moves).1.owes (earlier - 1) = true ∨
      ∃ reporter < engines.length,
        ((new engines filter).run moves).1.life.awaits earlier reporter = true := by
  obtain ⟨events, _among, life, _commands⟩ := run_eq_of_events engines filter moves
  have sound := (sound_new engines filter).run moves
  generalize ((new engines filter).run moves).1 = relay at sound life found ⊢
  have balanced (number : Nat) := Lifecycle.balanced_run engines filter number events
  rw [← life] at balanced
  obtain ⟨earlier, within, due | waits⟩ := Lifecycle.exists_due_or_awaits balanced found kept
  · refine ⟨earlier, within, ?_⟩
    obtain ⟨⟨held, here⟩, next⟩ := Lifecycle.mayStart_of_due due
    have inside := Lifecycle.ne_zero_of_cycle? here
    cases clear : relay.owes (earlier - 1) with
    | true => exact .inr (.inl rfl)
    | false =>
        exact .inl ⟨due, (sound.mayGo_iff_mayStart inside.1 inside.2).mpr ⟨next, clear⟩⟩
  · rw [life, Lifecycle.engines_run, ← life] at waits
    exact ⟨earlier, within, .inr (.inr waits)⟩

end Relay

end Reanalysis
