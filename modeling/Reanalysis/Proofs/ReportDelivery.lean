/-
What is announced about reports. In every order of events the announcements are about the
report that is current at that moment, and say of it what is so. A delivery opens with a word
of waiting if its report is still running, and closes with the outcome, once, unless another
report has become current.
-/

import Mathlib.Data.List.Induction
import Reanalysis.Proofs.LifecycleSteps

namespace Reanalysis

namespace Lifecycle

def issued (life : Lifecycle) : List Event → List Nat
  | [] => []
  | event :: rest =>
      (match event with
        | .trigger _ => [(life.step event).1.current]
        | _ => []) ++ (life.step event).1.issued rest

def announced (commands : List Command) : List (Nat × Announcement) :=
  commands.filterMap fun command =>
    match command with
    | .announce report announcement => some (report, announcement)
    | _ => none

def speaks (life : Lifecycle) (delivery : Nat) : Event → Bool
  | .deliver _ => delivery == life.deliveries.length
  | .wake number => delivery == number
  | _ => false

def utters (life : Lifecycle) (delivery : Nat) (event : Event) : List (Nat × Announcement) :=
  if life.speaks delivery event then announced (life.step event).2 else []

def said (life : Lifecycle) (delivery : Nat) : List Event → List (Nat × Announcement)
  | [] => []
  | event :: rest => life.utters delivery event ++ (life.step event).1.said delivery rest

/-- What a delivery says at once of a report that it finds running. -/
def opening (life : Lifecycle) (report : Nat) : List (Nat × Announcement) :=
  if report = life.current ∧ life.outcome? report = none then [(report, .waiting)] else []

variable {life : Lifecycle}

theorem outcome?_step {report : Nat} {outcome : Outcome}
    (settled : life.outcome? report = some outcome) (event : Event) :
    (life.step event).1.outcome? report = some outcome := by
  unfold outcome? at settled ⊢
  obtain ⟨cycle, found, here⟩ := Option.bind_eq_some_iff.mp settled
  obtain ⟨later, atLater, follows⟩ := exists_cycle?_step found event
  rw [atLater]
  exact follows.outcome outcome here

theorem le_current_of_outcome? {report : Nat} {outcome : Outcome}
    (settled : life.outcome? report = some outcome) : report ≤ life.current := by
  unfold outcome? at settled
  obtain ⟨cycle, found, _here⟩ := Option.bind_eq_some_iff.mp settled
  exact (ne_zero_of_cycle? found).2

theorem announce_step {event : Event} {report : Nat} {announcement : Announcement}
    (member : .announce report announcement ∈ (life.step event).2) :
    report = life.current ∧ (∃ delivery, life.speaks delivery event = true) ∧
      (announcement = .waiting → life.outcome? report = none) ∧
      ∀ outcome, announcement = .final outcome → life.outcome? report = some outcome := by
  have stepped := step_stepped life event
  generalize (life.step event).1 = next, (life.step event).2 = commands at stepped member
  cases stepped with
  | triggered change => cases mem_signalCurrent member
  | started number cycle found queued next =>
      rcases List.mem_append.mp member with connects | asks
      · obtain ⟨reporter, _listed, same⟩ := List.mem_map.mp connects
        cases same
      · obtain ⟨reporter, same⟩ := mem_asked asks
        cases same
  | linked number reporter result cycle links found connecting opened =>
      obtain ⟨asked, same⟩ := mem_asked member
      cases same
  | answered => cases member
  | joined number current running =>
      cases List.mem_singleton.mp member
      exact ⟨current, ⟨_, beq_self_eq_true _⟩, fun _ => running, nofun⟩
  | joinedLate number outcome current settled =>
      cases List.mem_singleton.mp member
      refine ⟨current, ⟨_, beq_self_eq_true _⟩, nofun, fun other same => ?_⟩
      cases same
      exact settled
  | joinedStale => cases member
  | woken delivery number outcome waits settled =>
      split at member
      · rename_i current
        cases List.mem_singleton.mp member
        refine ⟨current, ⟨_, beq_self_eq_true _⟩, nofun, fun other same => ?_⟩
        cases same
        exact settled
      · cases member
  | abandoned => cases member
  | tornDown =>
      rcases List.mem_append.mp member with signals | disconnects
      · cases mem_signalCurrent signals
      · obtain ⟨reporter, _listed, same⟩ := List.mem_map.mp disconnects
        cases same
  | notStarted => cases member
  | notLinked => cases member
  | notAnswered => cases member
  | notWoken => cases member

theorem deliveries_signalCurrent (life : Lifecycle) :
    life.signalCurrent.1.deliveries = life.deliveries := by
  unfold signalCurrent
  split <;> rfl

/-- How far a delivery is. It waits, or has closed with the outcome, or has ended without a
closing word, since its report is not current any more or for lack of interest. -/
inductive Attended (life : Lifecycle) (report delivery : Nat)
    (opening : List (Nat × Announcement)) (lapsed : Prop) : List (Nat × Announcement) → Prop
  | waiting (here : life.deliveries[delivery]? = some ⟨report, false⟩) :
      Attended life report delivery opening lapsed opening
  | closed (outcome : Outcome) (here : life.deliveries[delivery]? = some ⟨report, true⟩)
      (settled : life.outcome? report = some outcome) :
      Attended life report delivery opening lapsed (opening ++ [(report, .final outcome)])
  | silent (here : life.deliveries[delivery]? = some ⟨report, true⟩)
      (why : report < life.current ∨ lapsed) :
      Attended life report delivery opening lapsed opening

variable {report delivery : Nat} {lead words : List (Nat × Announcement)} {lapsed : Prop}

theorem Attended.exists_finished (attended : life.Attended report delivery lead lapsed words) :
    ∃ finished, life.deliveries[delivery]? = some ⟨report, finished⟩ := by
  cases attended with
  | waiting here => exact ⟨false, here⟩
  | closed outcome here settled => exact ⟨true, here⟩
  | silent here why => exact ⟨true, here⟩

theorem Attended.lt_length (attended : life.Attended report delivery lead lapsed words) :
    delivery < life.deliveries.length :=
  (List.getElem?_eq_some_iff.mp attended.exists_finished.choose_spec).1

theorem Attended.unchanged (attended : life.Attended report delivery lead lapsed words)
    (event : Event)
    (same : (life.step event).1.deliveries[delivery]? = life.deliveries[delivery]?)
    (quiet : life.utters delivery event = []) :
    (life.step event).1.Attended report delivery lead (lapsed ∨ event = .abandon delivery)
      (words ++ life.utters delivery event) := by
  rw [quiet, List.append_nil]
  cases attended with
  | waiting here => exact .waiting (same.trans here)
  | closed outcome here settled =>
      exact .closed outcome (same.trans here) (outcome?_step settled event)
  | silent here why =>
      refine .silent (same.trans here) ?_
      rcases why with superseded | lapsed
      · exact .inl (Nat.lt_of_lt_of_le superseded (current_le_step life event))
      · exact .inr (.inl lapsed)

theorem untouched_step {event : Event} (within : delivery < life.deliveries.length)
    (awake : event ≠ .wake delivery) (kept : event ≠ .abandon delivery) :
    (life.step event).1.deliveries[delivery]? = life.deliveries[delivery]? ∧
      life.utters delivery event = [] := by
  constructor
  · have stepped := step_stepped life event
    generalize (life.step event).1 = next, (life.step event).2 = commands at stepped ⊢
    cases stepped with
    | triggered => simp only [deliveries_signalCurrent]
    | tornDown => rw [deliveries_signalCurrent]
    | joined => exact List.getElem?_append_left within
    | joinedLate => exact List.getElem?_append_left within
    | joinedStale => exact List.getElem?_append_left within
    | woken number report outcome waits settled =>
        have other : number ≠ delivery := fun same => awake (by rw [same])
        exact List.getElem?_set_ne other
    | abandoned number =>
        have other : number ≠ delivery := fun same => kept (by rw [same])
        simp [Lifecycle.abandon, other]
    | _ => rfl
  · unfold utters speaks
    cases event with
    | deliver report => simp [Nat.ne_of_lt within]
    | wake number =>
        have other : delivery ≠ number := fun same => awake (by rw [same])
        simp [other]
    | _ => rfl

theorem utters_wake (life : Lifecycle) (delivery : Nat) :
    life.utters delivery (.wake delivery) = announced (life.step (.wake delivery)).2 :=
  if_pos (beq_self_eq_true delivery)

theorem Attended.wake (attended : life.Attended report delivery lead lapsed words) :
    (life.step (.wake delivery)).1.Attended report delivery lead lapsed
      (words ++ life.utters delivery (.wake delivery)) := by
  rw [utters_wake]
  have stepped := step_stepped life (.wake delivery)
  generalize (life.step (.wake delivery)).1 = next,
    (life.step (.wake delivery)).2 = commands at stepped ⊢
  cases stepped with
  | notWoken _ asleep => simpa [announced] using attended
  | woken _ number outcome waits settled =>
      cases attended with
      | waiting here =>
          cases waits.symm.trans here
          have within := (List.getElem?_eq_some_iff.mp here).1
          have now : (life.deliveries.set delivery ⟨report, true⟩)[delivery]? =
              some ⟨report, true⟩ := List.getElem?_set_self within
          by_cases current : report = life.current
          · rw [if_pos current]
            exact .closed outcome now settled
          · rw [if_neg current, announced, List.filterMap_nil, List.append_nil]
            have bound := le_current_of_outcome? settled
            exact .silent now (.inl (by change report < life.current; omega))
      | closed other here _settled => cases waits.symm.trans here
      | silent here _why => cases waits.symm.trans here

theorem Attended.abandon (attended : life.Attended report delivery lead lapsed words) :
    (life.abandon delivery).Attended report delivery lead True words := by
  have now {finished : Bool} (here : life.deliveries[delivery]? = some ⟨report, finished⟩) :
      (life.abandon delivery).deliveries[delivery]? = some ⟨report, true⟩ := by
    simp [Lifecycle.abandon, here]
  cases attended with
  | waiting here => exact .silent (now here) (.inr trivial)
  | closed outcome here settled => exact .closed outcome (now here) settled
  | silent here _why => exact .silent (now here) (.inr trivial)

theorem Attended.mono (attended : life.Attended report delivery lead lapsed words) {more : Prop}
    (weaker : lapsed → more) : life.Attended report delivery lead more words := by
  cases attended with
  | waiting here => exact .waiting here
  | closed outcome here settled => exact .closed outcome here settled
  | silent here why => exact .silent here (why.imp_right weaker)

theorem Attended.step (attended : life.Attended report delivery lead lapsed words)
    (event : Event) :
    (life.step event).1.Attended report delivery lead (lapsed ∨ event = .abandon delivery)
      (words ++ life.utters delivery event) := by
  by_cases awake : event = .wake delivery
  · subst awake
    exact attended.wake.mono .inl
  · by_cases kept : event = .abandon delivery
    · subst kept
      have quiet : life.utters delivery (.abandon delivery) = [] := rfl
      rw [quiet, List.append_nil]
      exact attended.abandon.mono fun _ => .inr rfl
    · have untouched := untouched_step attended.lt_length awake kept
      exact attended.unchanged event untouched.1 untouched.2

theorem Attended.run (attended : life.Attended report delivery lead lapsed words)
    (events : List Event) :
    (life.run events).1.Attended report delivery lead (lapsed ∨ .abandon delivery ∈ events)
      (words ++ life.said delivery events) := by
  induction events generalizing life lapsed words with
  | nil =>
      rw [said, List.append_nil]
      exact attended.mono .inl
  | cons event rest ih =>
      rw [run_cons, said, ← List.append_assoc]
      refine (ih (attended.step event)).mono ?_
      rw [or_assoc, List.mem_cons, eq_comm]
      exact id

theorem attended_deliver (life : Lifecycle) (report : Nat) :
    (life.step (.deliver report)).1.Attended report life.deliveries.length
      (life.opening report) (life.current < report)
      (life.utters life.deliveries.length (.deliver report)) := by
  have uttered : life.utters life.deliveries.length (.deliver report) =
      announced (life.step (.deliver report)).2 := if_pos (beq_self_eq_true _)
  rw [uttered]
  have placed (finished : Bool) :
      (life.addDelivery ⟨report, finished⟩).deliveries[life.deliveries.length]? =
        some ⟨report, finished⟩ := List.getElem?_concat_length
  have stepped := step_stepped life (.deliver report)
  unfold opening
  generalize (life.step (.deliver report)).1 = next,
    (life.step (.deliver report)).2 = commands at stepped ⊢
  cases stepped with
  | joined _ current running =>
      rw [if_pos ⟨current, running⟩]
      exact .waiting (placed false)
  | joinedLate _ outcome current settled =>
      rw [if_neg (by simp [settled])]
      exact .closed outcome (placed true) settled
  | joinedStale _ stale =>
      rw [if_neg (by simp [stale])]
      exact .silent (placed true) (Nat.lt_or_gt_of_ne stale)

/-! ### Whole runs -/

theorem outcome?_run {outcome : Outcome} (settled : life.outcome? report = some outcome)
    (events : List Event) : (life.run events).1.outcome? report = some outcome := by
  induction events generalizing life with
  | nil => exact settled
  | cons event rest ih => exact ih (outcome?_step settled event)

theorem length_deliveries_step (life : Lifecycle) (event : Event) :
    life.deliveries.length ≤ (life.step event).1.deliveries.length := by
  have stepped := step_stepped life event
  generalize (life.step event).1 = next, (life.step event).2 = commands at stepped ⊢
  cases stepped with
  | triggered => simp [deliveries_signalCurrent]
  | tornDown => simp [deliveries_signalCurrent]
  | joined => simp [addDelivery]
  | joinedLate => simp [addDelivery]
  | joinedStale => simp [addDelivery]
  | woken => simp
  | abandoned => simp [Lifecycle.abandon]
  | _ => exact Nat.le_refl _

theorem said_append (delivery : Nat) (front rest : List Event) :
    life.said delivery (front ++ rest) =
      life.said delivery front ++ (life.run front).1.said delivery rest := by
  induction front generalizing life with
  | nil => rfl
  | cons event front ih => simp [said, run_cons, ih]

theorem length_deliveries_run (life : Lifecycle) (events : List Event) :
    life.deliveries.length ≤ (life.run events).1.deliveries.length := by
  induction events generalizing life with
  | nil => exact Nat.le_refl _
  | cons event rest ih => exact Nat.le_trans (length_deliveries_step life event) (ih _)

theorem utters_eq_nil {delivery : Nat} {event : Event}
    (unborn : (life.step event).1.deliveries.length ≤ delivery) :
    life.utters delivery event = [] := by
  cases event with
  | deliver report =>
      have born := (attended_deliver life report).lt_length
      have other : delivery ≠ life.deliveries.length := by omega
      simp [utters, speaks, other]
  | wake number =>
      by_cases here : delivery = number
      · subst here
        have before := length_deliveries_step life (.wake delivery)
        have absent : life.deliveries[delivery]? = none := List.getElem?_eq_none (by omega)
        rw [utters_wake]
        simp [Lifecycle.step, Lifecycle.wake, absent, announced]
      · simp [utters, speaks, here]
  | _ => rfl

theorem said_eq_nil {delivery : Nat} {events : List Event}
    (unborn : (life.run events).1.deliveries.length ≤ delivery) :
    life.said delivery events = [] := by
  induction events generalizing life with
  | nil => rfl
  | cons event rest ih =>
      have begun := length_deliveries_run (life.step event).1 rest
      rw [run_cons] at unborn
      rw [said, utters_eq_nil (Nat.le_trans begun unborn), ih unborn]
      rfl

theorem attended_run (life : Lifecycle) (front : List Event) (report : Nat)
    (rest : List Event) :
    (life.run (front ++ .deliver report :: rest)).1.Attended report
      (life.run front).1.deliveries.length ((life.run front).1.opening report)
      ((life.run front).1.current < report ∨
        .abandon (life.run front).1.deliveries.length ∈ rest)
      (life.said (life.run front).1.deliveries.length (front ++ .deliver report :: rest)) := by
  rw [run_append, said_append, said_eq_nil (Nat.le_refl _), List.nil_append]
  exact (attended_deliver (life.run front).1 report).run rest

theorem exists_delivery_run {finished : Bool}
    (here : life.deliveries[delivery]? = some ⟨report, finished⟩) (events : List Event) :
    ∃ later, (life.run events).1.deliveries[delivery]? = some ⟨report, later⟩ := by
  have attended : life.Attended report delivery [] True [] := by
    cases finished with
    | false => exact .waiting here
    | true => exact .silent here (.inr trivial)
  exact (attended.run events).exists_finished

theorem finished_step (here : life.deliveries[delivery]? = some ⟨report, true⟩) (event : Event) :
    (life.step event).1.deliveries[delivery]? = some ⟨report, true⟩ ∧
      life.utters delivery event = [] := by
  by_cases awake : event = .wake delivery
  · subst awake
    have idle : life.step (.wake delivery) = (life, []) := by
      simp [Lifecycle.step, Lifecycle.wake, here]
    rw [utters_wake, idle]
    exact ⟨here, rfl⟩
  · by_cases kept : event = .abandon delivery
    · subst kept
      exact ⟨by simp [Lifecycle.step, Lifecycle.abandon, here], rfl⟩
    · have within := (List.getElem?_eq_some_iff.mp here).1
      obtain ⟨same, quiet⟩ := untouched_step within awake kept
      exact ⟨same.trans here, quiet⟩

theorem finished_run (here : life.deliveries[delivery]? = some ⟨report, true⟩)
    (events : List Event) :
    (life.run events).1.deliveries[delivery]? = some ⟨report, true⟩ ∧
      life.said delivery events = [] := by
  induction events generalizing life with
  | nil => exact ⟨here, rfl⟩
  | cons event rest ih =>
      obtain ⟨next, quiet⟩ := finished_step here event
      obtain ⟨last, silent⟩ := ih next
      exact ⟨last, by rw [said, quiet, silent]; rfl⟩

theorem Attended.closing (attended : life.Attended report delivery lead lapsed words)
    {outcome : Outcome} (settled : life.outcome? report = some outcome)
    (current : report = life.current) (kept : ¬lapsed) :
    words ++ life.utters delivery (.wake delivery) = lead ++ [(report, .final outcome)] := by
  cases attended with
  | waiting here =>
      have closes : (life.step (.wake delivery)).2 = [.announce report (.final outcome)] := by
        simp [Lifecycle.step, Lifecycle.wake, here, settled, ← current]
      rw [utters_wake, closes]
      rfl
  | closed other here before =>
      cases before.symm.trans settled
      rw [(finished_step here (.wake delivery)).2, List.append_nil]
  | silent here why =>
      rcases why with superseded | lapsed
      · omega
      · exact absurd lapsed kept

theorem lt_of_mem_issued {number : Nat} {events : List Event}
    (member : number ∈ life.issued events) : life.current < number := by
  induction events generalizing life with
  | nil => cases member
  | cons event rest ih =>
      have grown := current_step life event
      rcases List.mem_append.mp member with now | later
      · cases event with
        | trigger change =>
            cases List.mem_singleton.mp now
            simp only at grown
            omega
        | _ => cases now
      · exact Nat.lt_of_le_of_lt (current_le_step life event) (ih later)

theorem issued_append (front rest : List Event) :
    life.issued (front ++ rest) = life.issued front ++ (life.run front).1.issued rest := by
  induction front generalizing life with
  | nil => rfl
  | cons event front ih => simp [issued, run_cons, ih]

theorem issued_pairwise (life : Lifecycle) (events : List Event) :
    (life.issued events).Pairwise (· < ·) := by
  induction events generalizing life with
  | nil => exact .nil
  | cons event rest ih =>
      refine List.pairwise_append.mpr ⟨?_, ih _, fun first now second later => ?_⟩
      · cases event <;> simp
      · have after := lt_of_mem_issued later
        cases event with
        | trigger change =>
            cases List.mem_singleton.mp now
            exact after
        | _ => cases now

/-- A report that was current before a trigger is not heard of afterwards. -/
theorem superseded_run {report : Nat} (superseded : report < life.current)
    (events : List Event) (announcement : Announcement) :
    .announce report announcement ∉ (life.run events).2 := by
  induction events generalizing life with
  | nil => exact List.not_mem_nil
  | cons event rest ih =>
      rw [run_cons, List.mem_append]
      rintro (now | later)
      · have current := (announce_step now).1
        omega
      · exact ih (Nat.lt_of_lt_of_le superseded (current_le_step life event)) later

/-- What reports and deliveries look like along a history. -/
structure Published (start : Lifecycle) (events : List Event) : Prop where
  increasing : (start.issued events).Pairwise (· < ·)
  settled : ∀ front rest, events = front ++ rest → ∀ report outcome,
    (start.run front).1.outcome? report = some outcome →
      (start.run events).1.outcome? report = some outcome
  /-- Only deliveries announce, and what they announce is so for the current report. -/
  current : ∀ front event rest, events = front ++ event :: rest →
    ∀ report announcement, .announce report announcement ∈ ((start.run front).1.step event).2 →
      report = (start.run front).1.current ∧
      (∃ delivery, (start.run front).1.speaks delivery event = true) ∧
      (announcement = .waiting → (start.run front).1.outcome? report = none) ∧
      ∀ outcome, announcement = .final outcome →
        (start.run front).1.outcome? report = some outcome
  superseded : ∀ front change rest, events = front ++ .trigger change :: rest →
    ∀ report ≤ (start.run front).1.current, ∀ announcement,
      .announce report announcement ∉ ((start.run (front ++ [.trigger change])).1.run rest).2
  /-- A delivery says one opening and one closing word at most. -/
  delivered : ∀ front report rest, events = front ++ .deliver report :: rest →
    ∃ closing, start.said (start.run front).1.deliveries.length events =
        (start.run front).1.opening report ++ closing ∧
      (closing = [] ∨ ∃ outcome, closing = [(report, .final outcome)] ∧
        (start.run events).1.outcome? report = some outcome)
  /-- A delivery of a report that settles and stays current says the closing word when it
  looks at the report again, if it has not said it before. -/
  closes : ∀ front report rest outcome, events = front ++ .deliver report :: rest →
    report ≤ (start.run front).1.current →
    .abandon (start.run front).1.deliveries.length ∉ rest →
    (start.run events).1.current = report →
    (start.run events).1.outcome? report = some outcome →
      start.said (start.run front).1.deliveries.length
          (events ++ [.wake (start.run front).1.deliveries.length]) =
        (start.run front).1.opening report ++ [(report, .final outcome)]

theorem published (start : Lifecycle) (events : List Event) : Published start events where
  increasing := issued_pairwise start events
  settled := by
    rintro front rest rfl report outcome settled
    rw [run_append]
    exact outcome?_run settled rest
  current := by
    rintro front event rest rfl report announcement member
    exact announce_step member
  superseded := by
    rintro front change rest rfl report old announcement
    apply superseded_run
    rw [run_concat, current_step]
    exact Nat.lt_succ_of_le old
  delivered := by
    rintro front report rest rfl
    have attended := attended_run start front report rest
    generalize start.said _ _ = words at attended ⊢
    cases attended with
    | waiting here => exact ⟨[], (List.append_nil _).symm, .inl rfl⟩
    | closed outcome here settled => exact ⟨_, rfl, .inr ⟨outcome, rfl, settled⟩⟩
    | silent here why => exact ⟨[], (List.append_nil _).symm, .inl rfl⟩
  closes := by
    rintro front report rest outcome rfl known kept current settled
    have attended := attended_run start front report rest
    rw [said_append]
    simp only [said, List.append_nil]
    refine attended.closing settled current.symm ?_
    rintro (ahead | abandoned)
    · omega
    · exact kept abandoned

end Lifecycle

end Reanalysis
