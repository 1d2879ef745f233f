/-
The life of one cycle among whatever else happens. The calls that a cycle makes of its reporters
come out in any order, and its token may be signalled by others who hold it. Each thing that
happens begins the cycle, ends one of its calls, or leaves its phase alone.
-/

import Reanalysis.Proofs.HandOver

namespace Reanalysis

/-- What happens to a life cycle whose tokens others hold, too. -/
inductive Occurrence where
  | event (event : Event)
  /-- Somebody signals the token of a report. -/
  | signal (report : Nat)

namespace Lifecycle

def signal (life : Lifecycle) (report : Nat) : Lifecycle :=
  if report = 0 then life else life.update report fun cycle => { cycle with signalled := true }

def happen (life : Lifecycle) : Occurrence → Lifecycle × List Command
  | .event event => life.step event
  | .signal report => (life.signal report, [])

/-- All that happens in order, with everything that is to be done about it. -/
def undergo (life : Lifecycle) : List Occurrence → Lifecycle × List Command
  | [] => (life, [])
  | occurrence :: rest =>
      let (next, commands) := life.happen occurrence
      let (last, later) := undergo next rest
      (last, commands ++ later)

def listens (life : Lifecycle) (report reporter : Nat) : Bool :=
  match life.cycle? report with
  | some ⟨_, _, .reporting answers⟩ => answers[reporter]?.any Option.isNone
  | _ => false

/-- Whether the connection that a cycle waits for comes out. -/
def connects (number reporter : Nat) (life : Lifecycle) : Occurrence → Bool
  | .event (.connected report member _) =>
      decide (report = number ∧ member = reporter) && life.awaits number reporter
  | _ => false

def reports (number reporter : Nat) (life : Lifecycle) : Occurrence → Bool
  | .event (.answered report member _) =>
      decide (report = number ∧ member = reporter) && life.listens number reporter
  | _ => false

/-- Whether there is a moment at which something happens that passes the test. -/
def ever (test : Lifecycle → Occurrence → Bool) (life : Lifecycle) : List Occurrence → Bool
  | [] => false
  | occurrence :: rest => test life occurrence || (life.happen occurrence).1.ever test rest

variable {life : Lifecycle}

theorem undergo_cons (occurrence : Occurrence) (rest : List Occurrence) :
    life.undergo (occurrence :: rest) =
      (((life.happen occurrence).1.undergo rest).1,
        (life.happen occurrence).2 ++ ((life.happen occurrence).1.undergo rest).2) := rfl

theorem undergo_concat (front : List Occurrence) (occurrence : Occurrence) :
    life.undergo (front ++ [occurrence]) =
      (((life.undergo front).1.happen occurrence).1,
        (life.undergo front).2 ++ ((life.undergo front).1.happen occurrence).2) := by
  induction front generalizing life with
  | nil => simp [undergo]
  | cons first front ih => simp [undergo_cons, ih]

theorem ever_concat (test : Lifecycle → Occurrence → Bool) (front : List Occurrence)
    (occurrence : Occurrence) :
    life.ever test (front ++ [occurrence]) =
      (life.ever test front || test (life.undergo front).1 occurrence) := by
  induction front generalizing life with
  | nil => simp [ever, undergo]
  | cons first front ih => simp [ever, undergo, ih, Bool.or_assoc]

theorem undergo_events (events : List Event) :
    life.undergo (events.map .event) = life.run events := by
  induction events generalizing life with
  | nil => rfl
  | cons event rest ih =>
      rw [List.map_cons, undergo_cons, run_cons, ih]
      rfl

theorem listens_iff {report reporter : Nat} :
    life.listens report reporter = true ↔ ∃ cycle answers, life.cycle? report = some cycle ∧
      cycle.phase = .reporting answers ∧ answers[reporter]? = some none := by
  unfold listens
  split
  · rename_i change signalled answers found
    simp [found, Option.any_eq_true]
  · rename_i other
    simp only [Bool.false_eq_true, false_iff]
    rintro ⟨⟨change, signalled, phase⟩, answers, found, rfl, _opened⟩
    exact other _ _ _ found

theorem cycle?_signal (life : Lifecycle) (report number : Nat) :
    (life.signal report).cycle? number =
      if number = report then (life.cycle? number).map ({ · with signalled := true })
      else life.cycle? number := by
  unfold signal
  split
  · rename_i zero
    split
    · rename_i here
      rw [here, zero]
      rfl
    · rfl
  · rename_i positive
    exact cycle?_update positive _ number

theorem engines_happen (life : Lifecycle) (occurrence : Occurrence) :
    (life.happen occurrence).1.engines = life.engines := by
  cases occurrence with
  | event event => exact engines_step life event
  | signal report =>
      unfold happen signal
      dsimp only
      split <;> rfl

theorem filter_step (life : Lifecycle) (event : Event) :
    (life.step event).1.filter = life.filter := by
  have kept : life.signalCurrent.1.filter = life.filter := by
    unfold signalCurrent
    split <;> rfl
  have stepped := step_stepped life event
  generalize (life.step event).1 = next, (life.step event).2 = commands at stepped ⊢
  cases stepped with
  | triggered change => exact kept
  | tornDown => exact kept
  | _ => rfl

theorem filter_happen (life : Lifecycle) (occurrence : Occurrence) :
    (life.happen occurrence).1.filter = life.filter := by
  cases occurrence with
  | event event => exact filter_step life event
  | signal report =>
      unfold happen signal
      dsimp only
      split <;> rfl

theorem exists_cycle?_happen {number : Nat} {cycle : Cycle}
    (found : life.cycle? number = some cycle) (occurrence : Occurrence) :
    ∃ later, (life.happen occurrence).1.cycle? number = some later ∧
      Cycle.Follows cycle later := by
  cases occurrence with
  | event event => exact exists_cycle?_step found event
  | signal report =>
      unfold happen
      rw [cycle?_signal, found]
      split
      · exact ⟨_, rfl, .signalled cycle⟩
      · exact ⟨cycle, rfl, .refl cycle⟩

theorem queued_of_new {number : Nat} (absent : life.cycle? number = none) {occurrence : Occurrence}
    {cycle : Cycle} (found : (life.happen occurrence).1.cycle? number = some cycle) :
    cycle.phase = .queued := by
  cases occurrence with
  | signal report =>
      unfold happen at found
      rw [cycle?_signal, absent] at found
      split at found <;> cases found
  | event event =>
      apply Classical.byContradiction
      intro begun
      obtain ⟨before, here, _admitted⟩ := admitted_of_begun event found begun
      rw [absent] at here
      cases here

/-! ### Replies -/

def come {α : Type} (done : Bool) (value : α) : Option α := if done then some value else none

/-- What a reporter replies whose calls come out so: a failed connection is the reply. -/
def replyOf (link : Except Failure Unit) (answer : Except Failure (List Issue)) :
    Except Failure (List Issue) :=
  match link with
  | .ok _ => answer
  | .error failure => .error failure

def replied (link : Except Failure Unit) (answer : Except Failure (List Issue)) (heard : Bool) :
    Option (Except Failure (List Issue)) :=
  match link with
  | .ok _ => come heard answer
  | .error failure => some (.error failure)

theorem come_or {α : Type} (done later : Bool) (value : α) :
    (come done value).or (come later value) = come (done || later) value := by
  cases done <;> rfl

theorem come_isSome {α : Type} (done : Bool) (value : α) : (come done value).isSome = done := by
  cases done <;> rfl

theorem replied_eq {link : Except Failure Unit} {answer : Except Failure (List Issue)}
    {heard : Bool} (there : (replied link answer heard).isSome) :
    replied link answer heard = some (replyOf link answer) := by
  cases link with
  | error failure => rfl
  | ok none =>
      cases heard with
      | false => cases there
      | true => rfl

section Replies

variable (number : Nat) (link : Nat → Except Failure Unit)
  (answer : Nat → Except Failure (List Issue))

/-- The calls that a cycle makes of its reporters come out as given. -/
def Truthful : Occurrence → Prop
  | .event (.connected report reporter result) => report = number → result = link reporter
  | .event (.answered report reporter result) => report = number → result = answer reporter
  | _ => True

structure Hears (count : Nat) (cycle : Cycle) (heard : Nat → Bool) : Prop where
  kept : cycle.handedOut = false → ∀ reporter, heard reporter = false
  reporting : ∀ answers, cycle.phase = .reporting answers →
    answers = (List.range count).map (fun reporter =>
      replied (link reporter) (answer reporter) (heard reporter)) ∧ none ∈ answers
  settled : ∀ outcome, cycle.phase = .settled outcome → ∀ reporter < count,
    (replied (link reporter) (answer reporter) (heard reporter)).isSome

/-- A cycle goes with the calls that have come out and with what has been handed out. -/
structure Fits (life : Lifecycle) (linked heard : Nat → Bool) (given : Nat → List Change) :
    Prop where
  balanced : life.Balanced number (fun reporter => come (linked reporter) (link reporter)) given
  unheard : life.cycle? number = none → ∀ reporter, heard reporter = false
  hears : ∀ cycle, life.cycle? number = some cycle →
    Hears link answer life.engines.length cycle heard

/-- What happens in the life of one cycle: nothing, a connection comes out or is begun, or a
report comes out. -/
inductive Turn (life : Lifecycle) (cycle : Cycle) (linked heard : Nat → Bool) :
    (Nat → Bool) → (Nat → Bool) → Cycle → Prop
  | still (next : Cycle) (phase : next.phase = cycle.phase) :
      Turn life cycle linked heard linked heard next
  | linking (nowLinked : Nat → Bool) (kept : cycle.handedOut = false) :
      Turn life cycle linked heard nowLinked heard
        { cycle with
          phase := life.tried cycle ((List.range life.engines.length).map fun reporter =>
            come (nowLinked reporter) (link reporter)) }
  | hearing (nowHeard : Nat → Bool) (answers : List (Option (Except Failure (List Issue))))
      (reporting : cycle.phase = .reporting answers) :
      Turn life cycle linked heard linked nowHeard
        { cycle with
          phase := life.judged cycle ((List.range life.engines.length).map fun reporter =>
            replied (link reporter) (answer reporter) (nowHeard reporter)) }

variable {number link answer} {linked heard : Nat → Bool} {given : Nat → List Change}

theorem answered_eq {reporter : Nat} {result : Except Failure (List Issue)} {cycle : Cycle}
    {answers : List (Option (Except Failure (List Issue)))}
    (found : life.cycle? number = some cycle) (reporting : cycle.phase = .reporting answers)
    (opened : answers[reporter]? = some none) :
    life.answered number reporter result =
      life.setPhase number (life.judged cycle (answers.set reporter (some result))) := by
  obtain ⟨change, signalled, phase⟩ := cycle
  cases reporting
  unfold answered
  rw [found]
  dsimp only
  rw [if_pos (by rw [opened]), settle_eq]

theorem link?_eq_come {event : Event} (truthful : Truthful number link answer (.event event))
    (reporter : Nat) :
    life.link? number reporter event =
      come (connects number reporter life (.event event)) (link reporter) := by
  cases event with
  | connected report member result =>
      unfold link? connects come
      by_cases here : report = number ∧ member = reporter
      · obtain ⟨rfl, rfl⟩ := here
        rw [truthful rfl]
        simp
      · simp [here]
  | _ => rfl

/-- A cycle keeps its phase at an event that is neither its start nor the end of a call that it
waits for. -/
theorem phase_of_apart {cycle : Cycle} (found : life.cycle? number = some cycle) {event : Event}
    (unlinked : ∀ reporter, connects number reporter life (.event event) = false)
    (unheard : ∀ reporter, reports number reporter life (.event event) = false)
    (unstarted : event = .start number → cycle.phase = .queued → life.mayStart number = false) :
    ∃ next, (life.step event).1.cycle? number = some next ∧ next.phase = cycle.phase := by
  have signalled : ∃ next, life.signalCurrent.1.cycle? number = some next ∧
      next.phase = cycle.phase := by
    rw [cycle?_signalCurrent, found]
    split
    · exact ⟨_, rfl, rfl⟩
    · exact ⟨cycle, rfl, rfl⟩
  have other {report : Nat} {held : Cycle} {phase : Phase}
      (here : life.cycle? report = some held) (apart : number ≠ report) :
      ∃ next, (life.setPhase report phase).cycle? number = some next ∧
        next.phase = cycle.phase := by
    rw [cycle?_setPhase (ne_zero_of_cycle? here).1, if_neg apart]
    exact ⟨cycle, found, rfl⟩
  have stepped := step_stepped life event
  generalize (life.step event).1 = next, (life.step event).2 = commands at stepped ⊢
  cases stepped with
  | triggered change =>
      have old := (ne_zero_of_cycle? found).2
      rw [cycle?_append, signalCurrent_current, if_neg (by omega)]
      exact signalled
  | tornDown => exact signalled
  | started report held here queued next =>
      refine other here fun same => ?_
      subst same
      cases found.symm.trans here
      rw [unstarted rfl queued] at next
      cases next
  | linked report reporter result held links here connecting opened =>
      refine other here fun same => ?_
      subst same
      have waits := awaits_iff.mpr ⟨held, links, here, connecting, opened⟩
      have closed := unlinked reporter
      simp [connects, waits] at closed
  | answered report reporter result held answers here reporting opened =>
      refine other here fun same => ?_
      subst same
      have waits := listens_iff.mpr ⟨held, answers, here, reporting, opened⟩
      have closed := unheard reporter
      simp [reports, waits] at closed
  | _ => exact ⟨cycle, found, rfl⟩

theorem set_come {α : Type} (pick : Nat → Bool → Option α) {count member : Nat}
    {items : List (Option α)} {done : Nat → Bool} {value : α}
    (same : items = (List.range count).map fun index => pick index (done index))
    (picked : pick member true = some value) :
    items.set member (some value) =
      (List.range count).map fun index => pick index (done index || decide (member = index)) := by
  rw [set_range_map same]
  refine List.map_congr_left fun index _within => ?_
  by_cases here : index = member
  · subst here
    rw [if_pos rfl, decide_eq_true rfl, Bool.or_true, picked]
  · rw [if_neg here, decide_eq_false (Ne.symm here), Bool.or_false]

theorem Fits.turn_start (fits : Fits number link answer life linked heard given) {cycle : Cycle}
    (found : life.cycle? number = some cycle) (queued : cycle.phase = .queued)
    (next : life.mayStart number = true) :
    ∃ later, (life.step (.start number)).1.cycle? number = some later ∧
      Turn link answer life cycle linked heard linked heard later := by
  have accounts := fits.balanced
  unfold Balanced at accounts
  rw [found] at accounts
  have all : List.replicate life.engines.length none =
      (List.range life.engines.length).map fun reporter =>
        come (linked reporter) (link reporter) := by
    rw [List.map_congr_left (fun reporter _ => accounts.queued queued reporter), List.map_const',
      List.length_range]
  have started : (life.step (.start number)).1 =
      life.setPhase number (life.tried cycle (List.replicate life.engines.length none)) := by
    unfold step start
    dsimp only
    rw [if_pos next, launch_of_queued found queued]
  rw [started, cycle?_setPhase (ne_zero_of_cycle? found).1, if_pos rfl, found, all]
  exact ⟨_, rfl, .linking linked (Cycle.handedOut_of_queued queued)⟩

theorem Fits.turn_connected (fits : Fits number link answer life linked heard given)
    {cycle : Cycle} (found : life.cycle? number = some cycle) {reporter : Nat}
    (waits : life.awaits number reporter = true) :
    ∃ later, (life.step (.connected number reporter (link reporter))).1.cycle? number = some later ∧
      Turn link answer life cycle linked heard
        (fun other => linked other || decide (reporter = other)) heard later := by
  have accounts := fits.balanced
  unfold Balanced at accounts
  rw [found] at accounts
  have stepped := step_stepped life (.connected number reporter (link reporter))
  generalize (life.step _).1 = next, (life.step _).2 = commands at stepped ⊢
  cases stepped with
  | notLinked _ _ _ closed =>
      rw [waits] at closed
      cases closed
  | linked _ _ _ held links here connecting opened =>
      cases found.symm.trans here
      have there : come true (link reporter) = some (link reporter) := rfl
      have all := set_come (fun other done => come done (link other))
        (accounts.connecting links connecting).1 there
      rw [cycle?_setPhase (ne_zero_of_cycle? found).1, if_pos rfl, found, all]
      exact ⟨_, rfl, .linking _ (Cycle.handedOut_of_connecting connecting)⟩

theorem Fits.turn_answered (fits : Fits number link answer life linked heard given)
    {cycle : Cycle} (found : life.cycle? number = some cycle) {reporter : Nat}
    (waits : life.listens number reporter = true) :
    ∃ later, (life.step (.answered number reporter (answer reporter))).1.cycle? number =
        some later ∧
      Turn link answer life cycle linked heard linked
        (fun other => heard other || decide (reporter = other)) later := by
  obtain ⟨held, answers, here, reporting, opened⟩ := listens_iff.mp waits
  cases found.symm.trans here
  have same := ((fits.hears cycle found).reporting answers reporting).1
  have linkedOk : replied (link reporter) (answer reporter) true = some (answer reporter) := by
    rw [same, List.getElem?_map] at opened
    obtain ⟨index, inRange, unreplied⟩ := Option.map_eq_some_iff.mp opened
    obtain ⟨_within, rfl⟩ := List.getElem?_eq_some_iff.mp inRange
    rw [List.getElem_range] at unreplied
    cases atReporter : link reporter with
    | ok none => rfl
    | error failure =>
        rw [atReporter] at unreplied
        cases unreplied
  have all := set_come (fun other => replied (link other) (answer other)) same linkedOk
  have answered : (life.step (.answered number reporter (answer reporter))).1 =
      life.setPhase number (life.judged cycle (answers.set reporter (some (answer reporter)))) :=
    answered_eq found reporting opened
  rw [answered, cycle?_setPhase (ne_zero_of_cycle? found).1, if_pos rfl, found, all]
  exact ⟨_, rfl, .hearing _ answers reporting⟩

theorem hits_or_misses (report number reporter : Nat) (waits : Nat → Bool) :
    (report = number ∧ waits reporter = true ∧ ∀ other,
      (decide (report = number ∧ reporter = other) && waits other) = decide (reporter = other)) ∨
    ∀ other, (decide (report = number ∧ reporter = other) && waits other) = false := by
  by_cases hit : report = number ∧ waits reporter = true
  · refine Or.inl ⟨hit.1, hit.2, fun other => ?_⟩
    by_cases same : reporter = other
    · subst same
      simp [hit]
    · simp [same]
  · refine Or.inr fun other => ?_
    rw [Bool.and_eq_false_iff, decide_eq_false_iff_not]
    by_cases same : report = number ∧ reporter = other
    · obtain ⟨here, rfl⟩ := same
      exact Or.inr (Bool.eq_false_iff.mpr fun opened => hit ⟨here, opened⟩)
    · exact Or.inl same

theorem Fits.turn (fits : Fits number link answer life linked heard given) {cycle : Cycle}
    (found : life.cycle? number = some cycle) {occurrence : Occurrence}
    (truthful : Truthful number link answer occurrence) :
    ∃ next, (life.happen occurrence).1.cycle? number = some next ∧
      Turn link answer life cycle linked heard
        (fun reporter => linked reporter || connects number reporter life occurrence)
        (fun reporter => heard reporter || reports number reporter life occurrence) next := by
  have still {next : Cycle} (phase : next.phase = cycle.phase)
      (unlinked : ∀ reporter, connects number reporter life occurrence = false)
      (unheard : ∀ reporter, reports number reporter life occurrence = false) :
      Turn link answer life cycle linked heard
        (fun reporter => linked reporter || connects number reporter life occurrence)
        (fun reporter => heard reporter || reports number reporter life occurrence) next := by
    simp only [unlinked, unheard, Bool.or_false]
    exact .still next phase
  cases occurrence with
  | signal report =>
      unfold happen
      rw [cycle?_signal, found]
      split
      · exact ⟨_, rfl, still rfl (fun _ => rfl) (fun _ => rfl)⟩
      · exact ⟨cycle, rfl, still rfl (fun _ => rfl) (fun _ => rfl)⟩
  | event event =>
      have apart := @phase_of_apart life number cycle found event
      cases event with
      | connected report reporter result =>
          rcases hits_or_misses report number reporter (life.awaits number) with
            ⟨rfl, waits, one⟩ | unlinked
          · cases truthful rfl
            have come (other : Nat) : connects report other life
                (.event (.connected report reporter (link reporter))) =
                  decide (reporter = other) := one other
            obtain ⟨next, atNext, turn⟩ := fits.turn_connected found waits
            refine ⟨next, atNext, ?_⟩
            simp only [come, reports, Bool.or_false]
            exact turn
          · obtain ⟨next, atNext, phase⟩ := apart unlinked (fun _ => rfl) (fun same => nomatch same)
            exact ⟨next, atNext, still phase unlinked (fun _ => rfl)⟩
      | answered report reporter result =>
          rcases hits_or_misses report number reporter (life.listens number) with
            ⟨rfl, waits, one⟩ | unheard
          · cases truthful rfl
            have come (other : Nat) : reports report other life
                (.event (.answered report reporter (answer reporter))) =
                  decide (reporter = other) := one other
            obtain ⟨next, atNext, turn⟩ := fits.turn_answered found waits
            refine ⟨next, atNext, ?_⟩
            simp only [come, connects, Bool.or_false]
            exact turn
          · obtain ⟨next, atNext, phase⟩ := apart (fun _ => rfl) unheard (fun same => nomatch same)
            exact ⟨next, atNext, still phase (fun _ => rfl) unheard⟩
      | start report =>
          by_cases begins : report = number ∧ cycle.phase = .queued ∧ life.mayStart number = true
          · obtain ⟨rfl, queued, next⟩ := begins
            obtain ⟨later, atLater, turn⟩ := fits.turn_start found queued next
            refine ⟨later, atLater, ?_⟩
            simp only [connects, reports, Bool.or_false]
            exact turn
          · have later : Event.start report = .start number → cycle.phase = .queued →
                life.mayStart number = false := by
              intro same queued
              cases same
              exact Bool.eq_false_iff.mpr fun next => begins ⟨rfl, queued, next⟩
            obtain ⟨next, atNext, phase⟩ := apart (fun _ => rfl) (fun _ => rfl) later
            exact ⟨next, atNext, still phase (fun _ => rfl) (fun _ => rfl)⟩
      | _ =>
          obtain ⟨next, atNext, phase⟩ := apart (fun _ => rfl) (fun _ => rfl)
            (fun same => nomatch same)
          exact ⟨next, atNext, still phase (fun _ => rfl) (fun _ => rfl)⟩

end Replies

end Lifecycle

end Reanalysis
