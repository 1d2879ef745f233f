/-
What one event does to a life cycle. Each event that applies begins a cycle, moves one cycle
on, signals the current token, or moves one delivery on. Cycles keep their changes, go
through their phases in one direction, and start in the order of their numbers.
-/

import Mathlib.Data.List.Basic
import Reanalysis.Lifecycle

namespace Reanalysis

theorem mapM_id_cons {α : Type} (value : α) (rest : List (Option α)) :
    (some value :: rest).mapM id = (rest.mapM id).map (value :: ·) := by
  cases tail : rest.mapM id <;> simp [List.mapM_cons, tail]

theorem mapM_id_eq_some {α : Type} {items : List (Option α)} {complete : List α} :
    items.mapM id = some complete ↔ items = complete.map some := by
  induction items generalizing complete with
  | nil => cases complete <;> simp
  | cons item rest ih =>
      cases item with
      | none => cases complete <;> simp [List.mapM_cons]
      | some value =>
          rw [mapM_id_cons, Option.map_eq_some_iff]
          constructor
          · rintro ⟨others, found, rfl⟩
            rw [ih.mp found, List.map_cons]
          · intro equal
            cases complete with
            | nil => cases equal
            | cons first others =>
                cases equal
                exact ⟨others, ih.mpr rfl, rfl⟩

theorem mapM_id_eq_none {α : Type} {items : List (Option α)} :
    items.mapM id = none ↔ none ∈ items := by
  induction items with
  | nil => simp
  | cons item rest ih =>
      cases item with
      | none => simp [List.mapM_cons]
      | some value =>
          rw [mapM_id_cons, Option.map_eq_none_iff, ih]
          simp

namespace Lifecycle

variable {life : Lifecycle}

@[simp] theorem cycle?_zero (life : Lifecycle) : life.cycle? 0 = none := rfl

@[simp] theorem cycle?_succ (life : Lifecycle) (index : Nat) :
    life.cycle? (index + 1) = life.cycles[index]? := rfl

theorem cycle?_isSome {report : Nat} :
    (life.cycle? report).isSome ↔ report ≠ 0 ∧ report ≤ life.current := by
  cases report with
  | zero => simp
  | succ index =>
      rw [cycle?_succ, isSome_getElem?]
      unfold current
      omega

theorem ne_zero_of_cycle? {report : Nat} {cycle : Cycle}
    (found : life.cycle? report = some cycle) : report ≠ 0 ∧ report ≤ life.current :=
  cycle?_isSome.mp (by rw [found]; rfl)

@[simp] theorem update_current (life : Lifecycle) (report : Nat) (change : Cycle → Cycle) :
    (life.update report change).current = life.current := by
  simp [update, current]

theorem cycle?_update {report : Nat} (positive : report ≠ 0) (change : Cycle → Cycle)
    (number : Nat) :
    (life.update report change).cycle? number =
      if number = report then (life.cycle? number).map change else life.cycle? number := by
  obtain ⟨index, rfl⟩ := Nat.exists_eq_succ_of_ne_zero positive
  cases number with
  | zero => simp
  | succ other =>
      by_cases here : other = index
      · subst here
        simp [update]
      · simp [update, here, Ne.symm here]

theorem cycle?_setPhase {report : Nat} (positive : report ≠ 0) (phase : Phase) (number : Nat) :
    (life.setPhase report phase).cycle? number =
      if number = report then (life.cycle? number).map ({ · with phase := phase })
      else life.cycle? number :=
  cycle?_update positive _ number

theorem cycle?_signalCurrent (life : Lifecycle) (number : Nat) :
    life.signalCurrent.1.cycle? number =
      if number = life.current then (life.cycle? number).map ({ · with signalled := true })
      else life.cycle? number := by
  unfold signalCurrent
  split
  · rename_i none
    split
    · rename_i here
      rw [here, none]
      rfl
    · rfl
  · rename_i positive
    exact cycle?_update positive _ number

theorem signalCurrent_current (life : Lifecycle) :
    life.signalCurrent.1.current = life.current := by
  unfold signalCurrent
  split
  · rfl
  · exact update_current life _ _

theorem engines_signalCurrent (life : Lifecycle) :
    life.signalCurrent.1.engines = life.engines := by
  unfold signalCurrent
  split <;> rfl

theorem cycle?_append (life : Lifecycle) (pending : PendingChanges) (cycle : Cycle)
    (number : Nat) :
    { life with pending := pending, cycles := life.cycles ++ [cycle] : Lifecycle }.cycle? number =
      if number = life.current + 1 then some cycle else life.cycle? number := by
  cases number with
  | zero => simp
  | succ index =>
      unfold current
      rw [cycle?_succ, cycle?_succ, List.getElem?_append]
      by_cases within : index < life.cycles.length
      · have old : ¬index + 1 = life.cycles.length + 1 := by omega
        rw [if_pos within, if_neg old]
      · have beyond : life.cycles[index]? = none := List.getElem?_eq_none (by omega)
        rw [if_neg within, beyond]
        by_cases here : index = life.cycles.length
        · simp [here]
        · rw [if_neg (by omega), List.getElem?_eq_none]
          simp only [List.length_singleton]
          omega

theorem outcome?_eq_some {cycle : Cycle} {outcome : Outcome} :
    cycle.outcome? = some outcome ↔ cycle.phase = .settled outcome := by
  unfold Cycle.outcome?
  cases cycle.phase <;> simp

def judged (life : Lifecycle) (cycle : Cycle)
    (answers : List (Option (Except Failure (List Issue)))) : Phase :=
  match answers.mapM id with
  | none => .reporting answers
  | some complete =>
      .settled (Outcome.of life.filter cycle.signalled (life.engines.zipWith
        (fun engine answer => (engine, answer.mapError (Failure.toError engine))) complete))

def answerOf : Except Failure Unit → Option (Except Failure (List Issue))
  | .ok _ => none
  | .error failure => some (.error failure)

def tried (life : Lifecycle) (cycle : Cycle) (links : List (Option (Except Failure Unit))) :
    Phase :=
  match links.mapM id with
  | none => .connecting links
  | some complete => life.judged cycle (complete.map answerOf)

def asked (report : Nat) (cycle : Cycle) (links : List (Option (Except Failure Unit))) :
    List Command :=
  match links.mapM id with
  | none => []
  | some complete =>
      (complete.map answerOf).zipIdx.filterMap fun (answer, reporter) =>
        if answer.isNone then some (.ask report reporter cycle.change cycle.signalled) else none

theorem settle_eq (report : Nat) (cycle : Cycle)
    (answers : List (Option (Except Failure (List Issue)))) :
    life.settle report cycle answers = life.setPhase report (life.judged cycle answers) := by
  unfold settle judged
  cases answers.mapM id <;> rfl

theorem handOut_eq (report : Nat) (cycle : Cycle)
    (links : List (Option (Except Failure Unit))) :
    life.handOut report cycle links =
      (life.setPhase report (life.tried cycle links), asked report cycle links) := by
  unfold handOut tried asked
  cases links.mapM id with
  | none => rfl
  | some complete =>
      dsimp only
      rw [settle_eq]
      rfl

theorem launch_of_queued {report : Nat} {cycle : Cycle} (found : life.cycle? report = some cycle)
    (queued : cycle.phase = .queued) :
    life.launch report =
      (life.setPhase report (life.tried cycle (List.replicate life.engines.length none)),
        (List.range life.engines.length).map (.connect report) ++
          asked report cycle (List.replicate life.engines.length none)) := by
  obtain ⟨change, signalled, phase⟩ := cycle
  cases queued
  unfold launch
  rw [found]
  dsimp only
  rw [handOut_eq]

theorem launch_of_begun {report : Nat}
    (begun : ∀ cycle, life.cycle? report = some cycle → cycle.phase ≠ .queued) :
    life.launch report = (life, []) := by
  unfold launch
  split
  · rename_i found
    exact absurd rfl (begun _ found)
  · rfl

theorem mem_asked {report : Nat} {cycle : Cycle} {links : List (Option (Except Failure Unit))}
    {command : Command} (member : command ∈ asked report cycle links) :
    ∃ reporter, command = .ask report reporter cycle.change cycle.signalled := by
  unfold asked at member
  split at member
  · cases member
  · obtain ⟨⟨answer, reporter⟩, _listed, chosen⟩ := List.mem_filterMap.mp member
    cases answer with
    | none =>
        cases chosen
        exact ⟨reporter, rfl⟩
    | some result => cases chosen

theorem mem_signalCurrent {command : Command} (member : command ∈ life.signalCurrent.2) :
    command = .signal life.current := by
  unfold signalCurrent at member
  split at member
  · cases member
  · exact List.mem_singleton.mp member

/-! ### One event -/

def awaits (life : Lifecycle) (report reporter : Nat) : Bool :=
  match life.cycle? report with
  | some ⟨_, _, .connecting links⟩ => links[reporter]?.any Option.isNone
  | _ => false

theorem awaits_iff {report reporter : Nat} :
    life.awaits report reporter = true ↔ ∃ cycle links, life.cycle? report = some cycle ∧
      cycle.phase = .connecting links ∧ links[reporter]? = some none := by
  unfold awaits
  split
  · rename_i change signalled links found
    simp [found, Option.any_eq_true]
  · rename_i other
    simp only [Bool.false_eq_true, false_iff]
    rintro ⟨⟨change, signalled, phase⟩, links, found, rfl, _opened⟩
    exact other _ _ _ found

/-- All that an event can do. -/
inductive Stepped (life : Lifecycle) : Event → Lifecycle → List Command → Prop
  | triggered (change : Change) :
      Stepped life (.trigger change)
        { life.signalCurrent.1 with
          pending := PendingChanges.empty
          cycles := life.signalCurrent.1.cycles ++
            [⟨(life.pending.accumulate change).pending, false, .queued⟩] }
        life.signalCurrent.2
  | started (report : Nat) (cycle : Cycle) (found : life.cycle? report = some cycle)
      (queued : cycle.phase = .queued) (next : life.mayStart report = true) :
      Stepped life (.start report)
        (life.setPhase report
          (life.tried cycle (List.replicate life.engines.length none)))
        ((List.range life.engines.length).map (.connect report) ++
          asked report cycle (List.replicate life.engines.length none))
  | linked (report reporter : Nat) (result : Except Failure Unit) (cycle : Cycle)
      (links : List (Option (Except Failure Unit))) (found : life.cycle? report = some cycle)
      (connecting : cycle.phase = .connecting links) (opened : links[reporter]? = some none) :
      Stepped life (.connected report reporter result)
        (life.setPhase report (life.tried cycle (links.set reporter (some result))))
        (asked report cycle (links.set reporter (some result)))
  | answered (report reporter : Nat) (result : Except Failure (List Issue)) (cycle : Cycle)
      (answers : List (Option (Except Failure (List Issue))))
      (found : life.cycle? report = some cycle) (reporting : cycle.phase = .reporting answers)
      (opened : answers[reporter]? = some none) :
      Stepped life (.answered report reporter result)
        (life.setPhase report (life.judged cycle (answers.set reporter (some result)))) []
  | joined (report : Nat) (current : report = life.current)
      (running : life.outcome? report = none) :
      Stepped life (.deliver report) (life.addDelivery ⟨report, false⟩)
        [.announce report .waiting]
  | joinedLate (report : Nat) (outcome : Outcome) (current : report = life.current)
      (settled : life.outcome? report = some outcome) :
      Stepped life (.deliver report) (life.addDelivery ⟨report, true⟩)
        [.announce report (.final outcome)]
  | joinedStale (report : Nat) (stale : report ≠ life.current) :
      Stepped life (.deliver report) (life.addDelivery ⟨report, true⟩) []
  | woken (delivery report : Nat) (outcome : Outcome)
      (waits : life.deliveries[delivery]? = some ⟨report, false⟩)
      (settled : life.outcome? report = some outcome) :
      Stepped life (.wake delivery)
        { life with deliveries := life.deliveries.set delivery ⟨report, true⟩ }
        (if report = life.current then [.announce report (.final outcome)] else [])
  | abandoned (delivery : Nat) :
      Stepped life (.abandon delivery) (life.abandon delivery) []
  | tornDown :
      Stepped life .teardown life.signalCurrent.1
        (life.signalCurrent.2 ++ (List.range life.engines.length).map .disconnect)
  | notStarted (report : Nat) : Stepped life (.start report) life []
  | notLinked (report reporter : Nat) (result : Except Failure Unit)
      (closed : life.awaits report reporter = false) :
      Stepped life (.connected report reporter result) life []
  | notAnswered (report reporter : Nat) (result : Except Failure (List Issue)) :
      Stepped life (.answered report reporter result) life []
  | notWoken (delivery : Nat)
      (asleep : ∀ report, life.deliveries[delivery]? = some ⟨report, false⟩ →
        life.outcome? report = none) :
      Stepped life (.wake delivery) life []

theorem step_stepped (life : Lifecycle) (event : Event) :
    Stepped life event (life.step event).1 (life.step event).2 := by
  cases event with
  | trigger change => exact .triggered change
  | start report =>
      unfold step start
      dsimp only
      split
      · rename_i next
        cases found : life.cycle? report with
        | none =>
            rw [launch_of_begun (by simp [found])]
            exact .notStarted report
        | some cycle =>
            by_cases queued : cycle.phase = .queued
            · rw [launch_of_queued found queued]
              exact .started report cycle found queued next
            · rw [launch_of_begun (by simpa [found] using queued)]
              exact .notStarted report
      · exact .notStarted report
  | connected report reporter result =>
      unfold step connected
      dsimp only
      split
      · rename_i change signalled links found
        split
        · rename_i opened
          rw [handOut_eq]
          exact .linked report reporter result _ links found rfl (by simpa using opened)
        · rename_i closed
          refine .notLinked report reporter result (Bool.eq_false_iff.mpr fun waits => ?_)
          obtain ⟨_cycle, others, here, connecting, opened⟩ := awaits_iff.mp waits
          rw [found] at here
          cases here
          cases connecting
          exact closed (by rw [opened])
      · rename_i other
        refine .notLinked report reporter result (Bool.eq_false_iff.mpr fun waits => ?_)
        obtain ⟨⟨change, signalled, phase⟩, links, found, rfl, _opened⟩ := awaits_iff.mp waits
        exact other _ _ _ found
  | answered report reporter result =>
      unfold step answered
      dsimp only
      split
      · rename_i change signalled answers found
        split
        · rename_i opened
          rw [settle_eq]
          exact .answered report reporter result _ answers found rfl (by simpa using opened)
        · exact .notAnswered report reporter result
      · exact .notAnswered report reporter result
  | deliver report =>
      unfold step deliver
      dsimp only
      split
      · rename_i current
        split
        · rename_i outcome settled
          exact .joinedLate report outcome current settled
        · rename_i running
          exact .joined report current running
      · rename_i stale
        exact .joinedStale report stale
  | wake delivery =>
      unfold step wake
      dsimp only
      split
      · rename_i report waits
        split
        · rename_i running
          refine .notWoken delivery fun other found => ?_
          rw [waits] at found
          cases found
          exact running
        · rename_i outcome settled
          exact .woken delivery report outcome waits settled
      · rename_i other
        exact .notWoken delivery fun report found => absurd found (other report)
  | abandon delivery => exact .abandoned delivery
  | teardown => exact .tornDown

theorem handedOut_judged (life : Lifecycle) (cycle : Cycle)
    (answers : List (Option (Except Failure (List Issue)))) :
    Cycle.handedOut { cycle with phase := life.judged cycle answers } = true := by
  unfold judged Cycle.handedOut
  cases answers.mapM id <;> rfl

/-- A cycle keeps its change; it is never unsettled, and never takes its change back. -/
structure Cycle.Follows (earlier later : Cycle) : Prop where
  change : later.change = earlier.change
  handedOut : earlier.handedOut = true → later.handedOut = true
  outcome : ∀ outcome, earlier.outcome? = some outcome → later.outcome? = some outcome

theorem Cycle.Follows.refl (cycle : Cycle) : Cycle.Follows cycle cycle :=
  ⟨rfl, fun handed => handed, fun _ settled => settled⟩

theorem Cycle.Follows.signalled (cycle : Cycle) :
    Cycle.Follows cycle { cycle with signalled := true } :=
  ⟨rfl, fun handed => handed, fun _ settled => settled⟩

theorem exists_cycle?_setPhase {number report : Nat} {cycle held : Cycle} {phase : Phase}
    (found : life.cycle? number = some cycle) (here : life.cycle? report = some held)
    (follows : Cycle.Follows held { held with phase := phase }) :
    ∃ later, (life.setPhase report phase).cycle? number = some later ∧
      Cycle.Follows cycle later := by
  rw [cycle?_setPhase (ne_zero_of_cycle? here).1]
  by_cases same : number = report
  · subst same
    rw [here] at found
    cases found
    rw [if_pos rfl, here]
    exact ⟨_, rfl, follows⟩
  · rw [if_neg same]
    exact ⟨cycle, found, .refl cycle⟩

theorem exists_cycle?_signalCurrent {number : Nat} {cycle : Cycle}
    (found : life.cycle? number = some cycle) :
    ∃ later, life.signalCurrent.1.cycle? number = some later ∧ Cycle.Follows cycle later := by
  rw [cycle?_signalCurrent, found]
  split
  · exact ⟨_, rfl, .signalled cycle⟩
  · exact ⟨cycle, rfl, .refl cycle⟩

theorem exists_cycle?_step {number : Nat} {cycle : Cycle}
    (found : life.cycle? number = some cycle) (event : Event) :
    ∃ later, (life.step event).1.cycle? number = some later ∧ Cycle.Follows cycle later := by
  have stepped := step_stepped life event
  generalize (life.step event).1 = next, (life.step event).2 = commands at stepped ⊢
  cases stepped with
  | triggered change =>
      have old := (ne_zero_of_cycle? found).2
      rw [cycle?_append, signalCurrent_current, if_neg (by omega)]
      exact exists_cycle?_signalCurrent found
  | started report held here queued next =>
      apply exists_cycle?_setPhase found here
      refine ⟨rfl, ?_, ?_⟩ <;> simp [Cycle.handedOut, Cycle.outcome?, queued]
  | linked report reporter result held links here connecting opened =>
      apply exists_cycle?_setPhase found here
      refine ⟨rfl, ?_, ?_⟩ <;> simp [Cycle.handedOut, Cycle.outcome?, connecting]
  | answered report reporter result held answers here reporting opened =>
      apply exists_cycle?_setPhase found here
      refine ⟨rfl, fun _ => handedOut_judged life held _, ?_⟩
      simp [Cycle.outcome?, reporting]
  | tornDown => exact exists_cycle?_signalCurrent found
  | _ => exact ⟨cycle, found, .refl cycle⟩

theorem current_step (life : Lifecycle) (event : Event) :
    (life.step event).1.current =
      match event with
      | .trigger _ => life.current + 1
      | _ => life.current := by
  have stepped := step_stepped life event
  generalize (life.step event).1 = next, (life.step event).2 = commands at stepped ⊢
  cases stepped with
  | triggered change =>
      have kept := signalCurrent_current life
      simpa [current] using kept
  | started => exact update_current life _ _
  | linked => exact update_current life _ _
  | answered => exact update_current life _ _
  | tornDown => exact signalCurrent_current life
  | _ => rfl

theorem current_le_step (life : Lifecycle) (event : Event) :
    life.current ≤ (life.step event).1.current := by
  rw [current_step]
  split <;> omega

def report? : Command → Option Nat
  | .connect report _ => some report
  | .ask report _ _ _ => some report
  | .disconnect _ => none
  | .signal report => some report
  | .announce report _ => some report

theorem report?_le_current {event : Event} {command : Command} {report : Nat}
    (member : command ∈ (life.step event).2) (about : report? command = some report) :
    report ≤ life.current := by
  have stepped := step_stepped life event
  generalize (life.step event).1 = next, (life.step event).2 = commands at stepped member
  have ofSignal (signals : command ∈ life.signalCurrent.2) : report ≤ life.current := by
    cases mem_signalCurrent signals
    cases about
    exact Nat.le_refl _
  have ofAsked {number : Nat} {cycle held : Cycle} {links : List (Option (Except Failure Unit))}
      (asks : command ∈ asked number cycle links) (here : life.cycle? number = some held) :
      report ≤ life.current := by
    obtain ⟨reporter, rfl⟩ := mem_asked asks
    cases about
    exact (ne_zero_of_cycle? here).2
  cases stepped with
  | triggered change => exact ofSignal member
  | started number cycle here queued next =>
      rcases List.mem_append.mp member with connects | asks
      · obtain ⟨reporter, _listed, rfl⟩ := List.mem_map.mp connects
        cases about
        exact (ne_zero_of_cycle? here).2
      · exact ofAsked asks here
  | linked number reporter result cycle links here connecting opened => exact ofAsked member here
  | joined number current running =>
      cases List.mem_singleton.mp member
      cases about
      exact Nat.le_of_eq current
  | joinedLate number outcome current settled =>
      cases List.mem_singleton.mp member
      cases about
      exact Nat.le_of_eq current
  | woken delivery number outcome waits settled =>
      split at member
      · rename_i current
        cases List.mem_singleton.mp member
        cases about
        exact Nat.le_of_eq current
      · cases member
  | tornDown =>
      rcases List.mem_append.mp member with signals | disconnects
      · exact ofSignal signals
      · obtain ⟨reporter, _listed, rfl⟩ := List.mem_map.mp disconnects
        cases about
  | _ => cases member

theorem run_cons (event : Event) (rest : List Event) :
    life.run (event :: rest) =
      (((life.step event).1.run rest).1,
        (life.step event).2 ++ ((life.step event).1.run rest).2) := rfl

theorem run_append (front rest : List Event) :
    life.run (front ++ rest) =
      (((life.run front).1.run rest).1,
        (life.run front).2 ++ ((life.run front).1.run rest).2) := by
  induction front generalizing life with
  | nil => rfl
  | cons event front ih => simp [run_cons, ih]

theorem run_concat (front : List Event) (event : Event) :
    life.run (front ++ [event]) =
      (((life.run front).1.step event).1,
        (life.run front).2 ++ ((life.run front).1.step event).2) := by
  rw [run_append, run_cons]
  simp [run]

theorem exists_cycle?_run {number : Nat} {cycle : Cycle}
    (found : life.cycle? number = some cycle) (events : List Event) :
    ∃ later, (life.run events).1.cycle? number = some later ∧ Cycle.Follows cycle later := by
  induction events generalizing life cycle with
  | nil => exact ⟨cycle, found, .refl cycle⟩
  | cons event rest ih =>
      obtain ⟨next, atNext, first⟩ := exists_cycle?_step found event
      obtain ⟨last, atLast, others⟩ := ih atNext
      exact ⟨last, atLast, others.change.trans first.change,
        fun handed => others.handedOut (first.handedOut handed),
        fun outcome settled => others.outcome outcome (first.outcome outcome settled)⟩

theorem engines_step (life : Lifecycle) (event : Event) :
    (life.step event).1.engines = life.engines := by
  have stepped := step_stepped life event
  generalize (life.step event).1 = next, (life.step event).2 = commands at stepped ⊢
  cases stepped with
  | triggered change => exact engines_signalCurrent life
  | tornDown => exact engines_signalCurrent life
  | _ => rfl

end Lifecycle

end Reanalysis
