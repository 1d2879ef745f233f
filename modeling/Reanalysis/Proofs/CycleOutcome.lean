/-
What a cycle comes to. Its outcome is settled by what each reporter replies and by whether its
token is signalled when the last reply comes; it does not matter in which order the replies come.
-/

import Reanalysis.Proofs.CycleTurns
import Reanalysis.Proofs.ReplyVerdict

namespace Reanalysis

namespace Lifecycle

section Replies

variable {life : Lifecycle} {number : Nat} {link : Nat → Except Failure Unit}
  {answer : Nat → Except Failure (List Issue)} {linked heard : Nat → Bool}
  {given : Nat → List Change}

theorem cycle?_new (engines : List String) (filter : IssueFilter) (number : Nat) :
    (new engines filter).cycle? number = none := by
  cases number <;> rfl

theorem complete_of_known {α : Type} {count : Nat} {item : Nat → Option α} {value : Nat → α}
    (known : ∀ index, (item index).isSome → item index = some (value index)) {complete : List α}
    (all : ((List.range count).map item).mapM id = some complete) :
    complete = (List.range count).map value ∧ ∀ index < count, (item index).isSome := by
  rw [mapM_id_eq_some] at all
  have there : ∀ index < count, (item index).isSome := by
    intro index within
    have member : item index ∈ (List.range count).map item :=
      List.mem_map.mpr ⟨index, List.mem_range.mpr within, rfl⟩
    rw [all] at member
    obtain ⟨found, _, same⟩ := List.mem_map.mp member
    rw [← same]
    rfl
  refine ⟨?_, there⟩
  have values : (List.range count).map item = ((List.range count).map value).map some := by
    rw [List.map_map]
    exact List.map_congr_left fun index within =>
      known index (there index (List.mem_range.mp within))
  exact (List.map_inj_right (fun _ _ => Option.some.inj)).mp (all.symm.trans values)

theorem known_come {α : Type} {done : Bool} {value : α} (there : (come done value).isSome) :
    come done value = some value := by
  cases done with
  | false => cases there
  | true => rfl

theorem hears_judged (life : Lifecycle) (cycle : Cycle) (heard : Nat → Bool) :
    Hears link answer life.engines.length
      { cycle with
        phase := life.judged cycle ((List.range life.engines.length).map fun reporter =>
          replied (link reporter) (answer reporter) (heard reporter)) } heard := by
  have out := handedOut_judged life cycle ((List.range life.engines.length).map fun reporter =>
    replied (link reporter) (answer reporter) (heard reporter))
  constructor
  · intro kept
    rw [out] at kept
    cases kept
  · intro answers phase
    unfold judged at phase
    dsimp only at phase
    split at phase
    · rename_i opened
      cases phase
      exact ⟨rfl, mapM_id_eq_none.mp opened⟩
    · cases phase
  · intro outcome phase
    unfold judged at phase
    dsimp only at phase
    split at phase
    · cases phase
    · rename_i complete all
      exact (complete_of_known (fun _ => replied_eq) all).2

theorem tried_eq {cycle : Cycle} {complete : List (Except Failure Unit)}
    (all : ((List.range life.engines.length).map fun reporter =>
      come (linked reporter) (link reporter)).mapM id = some complete)
    (unheard : ∀ reporter, heard reporter = false) :
    life.tried cycle ((List.range life.engines.length).map fun reporter =>
        come (linked reporter) (link reporter)) =
      life.judged cycle ((List.range life.engines.length).map fun reporter =>
        replied (link reporter) (answer reporter) (heard reporter)) := by
  unfold tried
  rw [all]
  dsimp only
  rw [(complete_of_known (fun _ => known_come) all).1, List.map_map]
  congr 1
  refine List.map_congr_left fun reporter _within => ?_
  rw [unheard]
  dsimp only [Function.comp]
  cases link reporter <;> rfl

theorem Turn.hears {cycle next : Cycle} {nowLinked nowHeard : Nat → Bool}
    (turn : Turn link answer life cycle linked heard nowLinked nowHeard next)
    (hears : Hears link answer life.engines.length cycle heard) :
    Hears link answer life.engines.length next nowHeard := by
  cases turn with
  | still next phase =>
      refine ⟨fun kept => hears.kept ?_, fun answers here => hears.reporting answers ?_,
        fun outcome here => hears.settled outcome ?_⟩
      · unfold Cycle.handedOut at kept ⊢
        rw [← phase]
        exact kept
      · rw [← phase, here]
      · rw [← phase, here]
  | linking nowLinked kept =>
      have unheard := hears.kept kept
      cases all : ((List.range life.engines.length).map fun reporter =>
          come (nowLinked reporter) (link reporter)).mapM id with
      | some complete =>
          rw [tried_eq all unheard]
          exact hears_judged life cycle heard
      | none =>
          obtain ⟨links, phase⟩ : ∃ links, life.tried cycle
              ((List.range life.engines.length).map fun reporter =>
                come (nowLinked reporter) (link reporter)) = .connecting links :=
            ⟨_, by unfold tried; rw [all]⟩
          rw [phase]
          exact ⟨fun _ => unheard, fun answers here => (nomatch here),
            fun outcome here => (nomatch here)⟩
  | hearing nowHeard answers reporting => exact hears_judged life cycle nowHeard

variable (link answer) in
def repliesOf (engines : List String) : List (String × Except Failure (List Issue)) :=
  engines.zip ((List.range engines.length).map fun reporter =>
    replyOf (link reporter) (answer reporter))

theorem verdict_judged {cycle : Cycle} {outcome : Outcome}
    (settled : life.judged cycle ((List.range life.engines.length).map fun reporter =>
      replied (link reporter) (answer reporter) (heard reporter)) = .settled outcome) :
    Outcome.Verdict life.filter cycle.signalled (repliesOf link answer life.engines) outcome := by
  rcases life.judged_cases cycle ((List.range life.engines.length).map fun reporter =>
      replied (link reporter) (answer reporter) (heard reporter)) with
    going | ⟨complete, verdict, all, comes, fair⟩
  · rw [going] at settled
    cases settled
  · rw [comes] at settled
    cases settled
    rw [(complete_of_known (fun _ => replied_eq) (mapM_id_eq_some.mpr all)).1] at fair
    exact fair

/-- A cycle that is settled comes to the verdict on its replies, with its token as it is. -/
theorem Turn.verdict {cycle next : Cycle} {nowLinked nowHeard : Nat → Bool}
    (turn : Turn link answer life cycle linked heard nowLinked nowHeard next)
    (hears : Hears link answer life.engines.length cycle heard) (running : cycle.outcome? = none)
    {outcome : Outcome} (settled : next.outcome? = some outcome) :
    Outcome.Verdict life.filter cycle.signalled (repliesOf link answer life.engines) outcome := by
  have phase := outcome?_eq_some.mp settled
  cases turn with
  | still next same =>
      rw [outcome?_eq_some.mpr (same.symm.trans phase)] at running
      cases running
  | linking nowLinked kept =>
      dsimp only at phase
      cases all : ((List.range life.engines.length).map fun reporter =>
          come (nowLinked reporter) (link reporter)).mapM id with
      | some complete =>
          rw [tried_eq all (hears.kept kept)] at phase
          exact verdict_judged phase
      | none =>
          unfold tried at phase
          rw [all] at phase
          cases phase
  | hearing nowHeard answers reporting => exact verdict_judged phase

/-! ### Whatever happens -/

theorem Balanced.signal {linked : Nat → Option (Except Failure Unit)}
    (balanced : life.Balanced number linked given) (report : Nat) :
    (life.signal report).Balanced number linked given := by
  have engines : (life.signal report).engines = life.engines := engines_happen life (.signal report)
  unfold Balanced at balanced ⊢
  rw [engines, cycle?_signal]
  cases found : life.cycle? number with
  | none =>
      rw [found] at balanced
      simpa using balanced
  | some cycle =>
      rw [found] at balanced
      by_cases here : number = report
      · rw [if_pos here]
        exact ⟨balanced.beyond, balanced.queued, balanced.connecting, balanced.kept,
          balanced.handed⟩
      · rw [if_neg here]
        exact balanced

theorem Balanced.happen
    (balanced : life.Balanced number (fun reporter => come (linked reporter) (link reporter)) given)
    {occurrence : Occurrence} (truthful : Truthful number link answer occurrence) :
    (life.happen occurrence).1.Balanced number
      (fun reporter => come (linked reporter || connects number reporter life occurrence)
        (link reporter))
      (fun reporter => given reporter ++ handed number reporter (life.happen occurrence).2) := by
  cases occurrence with
  | signal report =>
      have silent (reporter : Nat) :
          handed number reporter (life.happen (.signal report)).2 = [] := rfl
      simp only [connects, silent, Bool.or_false, List.append_nil]
      exact balanced.signal report
  | event event =>
      simp only [← come_or, ← link?_eq_come truthful]
      exact balanced.step event

theorem reports_of_absent (absent : life.cycle? number = none) (reporter : Nat)
    (occurrence : Occurrence) : reports number reporter life occurrence = false := by
  unfold reports
  split
  · have unheard : life.listens number reporter = false := by
      unfold listens
      rw [absent]
    rw [unheard, Bool.and_false]
  · rfl

theorem Fits.happen (fits : Fits number link answer life linked heard given)
    {occurrence : Occurrence} (truthful : Truthful number link answer occurrence) :
    Fits number link answer (life.happen occurrence).1
      (fun reporter => linked reporter || connects number reporter life occurrence)
      (fun reporter => heard reporter || reports number reporter life occurrence)
      (fun reporter => given reporter ++ handed number reporter (life.happen occurrence).2) where
  balanced := fits.balanced.happen truthful
  unheard := by
    intro gone reporter
    cases found : life.cycle? number with
    | some cycle =>
        obtain ⟨later, atLater, _follows⟩ := exists_cycle?_happen found occurrence
        rw [gone] at atLater
        cases atLater
    | none => rw [fits.unheard found, reports_of_absent found, Bool.or_false]
  hears := by
    intro next atNext
    rw [engines_happen]
    cases found : life.cycle? number with
    | some cycle =>
        obtain ⟨later, atLater, turn⟩ := fits.turn found truthful
        cases atNext.symm.trans atLater
        exact turn.hears (fits.hears cycle found)
    | none =>
        have queued := queued_of_new found atNext
        refine ⟨fun _kept reporter => ?_, fun answers here => ?_, fun outcome here => ?_⟩
        · rw [fits.unheard found, reports_of_absent found, Bool.or_false]
        · rw [queued] at here
          cases here
        · rw [queued] at here
          cases here

variable (engines : List String) (filter : IssueFilter) {occurrences : List Occurrence}

theorem engines_undergo (occurrences : List Occurrence) :
    ((new engines filter).undergo occurrences).1.engines = engines ∧
      ((new engines filter).undergo occurrences).1.filter = filter := by
  induction occurrences using List.reverseRecOn with
  | nil => exact ⟨rfl, rfl⟩
  | append_singleton front occurrence ih =>
      rw [undergo_concat, engines_happen, filter_happen]
      exact ih

theorem fits_undergo
    (truthful : ∀ occurrence ∈ occurrences, Truthful number link answer occurrence) :
    Fits number link answer ((new engines filter).undergo occurrences).1
      (fun reporter => (new engines filter).ever (connects number reporter) occurrences)
      (fun reporter => (new engines filter).ever (reports number reporter) occurrences)
      (fun reporter => handed number reporter ((new engines filter).undergo occurrences).2) := by
  induction occurrences using List.reverseRecOn with
  | nil =>
      have nobody : ((new engines filter).undergo []).1.cycle? number = none :=
        cycle?_new engines filter number
      refine ⟨?_, fun _ _ => rfl, fun cycle found => ?_⟩
      · unfold Balanced
        rw [nobody]
        exact fun _ => ⟨rfl, rfl⟩
      · rw [nobody] at found
        cases found
  | append_singleton front occurrence ih =>
      simp only [ever_concat, undergo_concat, handed_append]
      exact (ih fun other member => truthful other (List.mem_append_left _ member)).happen
        (truthful occurrence (List.mem_append_right _ List.mem_cons_self))

theorem exists_settling {outcome : Outcome}
    (settled : ((new engines filter).undergo occurrences).1.outcome? number = some outcome) :
    ∃ front last rest cycle, occurrences = front ++ last :: rest ∧
      ((new engines filter).undergo front).1.cycle? number = some cycle ∧
      cycle.outcome? = none ∧
      ((new engines filter).undergo (front ++ [last])).1.outcome? number = some outcome := by
  induction occurrences using List.reverseRecOn with
  | nil =>
      have nobody : (new engines filter).cycle? number = none := cycle?_new engines filter number
      rw [undergo, outcome?, nobody] at settled
      cases settled
  | append_singleton front occurrence ih =>
      cases found : ((new engines filter).undergo front).1.cycle? number with
      | none =>
          unfold outcome? at settled
          rw [undergo_concat] at settled
          obtain ⟨next, atNext, ended⟩ := Option.bind_eq_some_iff.mp settled
          have queued := queued_of_new found atNext
          cases queued.symm.trans (outcome?_eq_some.mp ended)
      | some cycle =>
          cases before : cycle.outcome? with
          | none => exact ⟨front, occurrence, [], cycle, rfl, found, before, settled⟩
          | some earlier =>
              obtain ⟨later, atLater, follows⟩ := exists_cycle?_happen found occurrence
              have kept :
                  ((new engines filter).undergo front).1.outcome? number = some earlier := by
                unfold outcome?
                rw [found]
                exact before
              have same : some earlier = some outcome := by
                rw [← settled, undergo_concat]
                unfold outcome?
                rw [atLater]
                exact (follows.outcome earlier before).symm
              obtain ⟨first, last, rest, held, cut, atFirst, running, ended⟩ := ih (kept.trans same)
              exact ⟨first, last, rest ++ [occurrence], held, by rw [cut, List.append_assoc]; rfl,
                atFirst, running, ended⟩

/-- Whether all calls that a cycle makes of a reporter have come out. -/
def Finished (start : Lifecycle) (number : Nat) (link : Nat → Except Failure Unit)
    (occurrences : List Occurrence) (reporter : Nat) : Prop :=
  start.ever (connects number reporter) occurrences = true ∧
    (link reporter = .ok () → start.ever (reports number reporter) occurrences = true)

theorem accounts_undergo
    (truthful : ∀ occurrence ∈ occurrences, Truthful number link answer occurrence) {cycle : Cycle}
    (found : ((new engines filter).undergo occurrences).1.cycle? number = some cycle) :
    Accounts engines.length cycle
      (fun reporter =>
        come ((new engines filter).ever (connects number reporter) occurrences) (link reporter))
      (fun reporter => handed number reporter ((new engines filter).undergo occurrences).2) := by
  have balanced := (fits_undergo engines filter truthful).balanced
  unfold Balanced at balanced
  rw [found, (engines_undergo engines filter occurrences).1] at balanced
  exact balanced

theorem handedOut_of_connected
    (truthful : ∀ occurrence ∈ occurrences, Truthful number link answer occurrence) {cycle : Cycle}
    (found : ((new engines filter).undergo occurrences).1.cycle? number = some cycle)
    (begun : cycle.phase ≠ .queued)
    (connected : ∀ reporter < engines.length,
      (new engines filter).ever (connects number reporter) occurrences = true) :
    cycle.handedOut = true := by
  unfold Cycle.handedOut
  cases phase : cycle.phase with
  | queued => exact absurd phase begun
  | connecting links =>
      have accounts := accounts_undergo engines filter truthful found
      obtain ⟨same, opened⟩ := accounts.connecting links phase
      rw [same] at opened
      obtain ⟨reporter, inRange, missing⟩ := List.mem_map.mp opened
      rw [connected reporter (List.mem_range.mp inRange)] at missing
      cases missing
  | reporting answers => rfl
  | settled outcome => rfl

theorem settled_iff (truthful : ∀ occurrence ∈ occurrences, Truthful number link answer occurrence)
    {cycle : Cycle}
    (found : ((new engines filter).undergo occurrences).1.cycle? number = some cycle) :
    cycle.outcome?.isSome ↔ cycle.phase ≠ .queued ∧ ∀ reporter < engines.length,
      Finished (new engines filter) number link occurrences reporter := by
  have hears := (fits_undergo engines filter truthful).hears cycle found
  rw [(engines_undergo engines filter occurrences).1] at hears
  constructor
  · intro settled
    obtain ⟨outcome, settled⟩ := Option.isSome_iff_exists.mp settled
    have phase := outcome?_eq_some.mp settled
    have out : cycle.handedOut = true := by
      unfold Cycle.handedOut
      rw [phase]
    refine ⟨fun queued => (nomatch queued.symm.trans phase), fun reporter within => ⟨?_, ?_⟩⟩
    · have come := ((accounts_undergo engines filter truthful found).handed out reporter).1 within
      rwa [come_isSome] at come
    · intro connected
      have there := hears.settled outcome phase reporter within
      rw [connected] at there
      exact (come_isSome _ _).symm.trans there
  · rintro ⟨begun, finished⟩
    have out := handedOut_of_connected engines filter truthful found begun fun reporter within =>
      (finished reporter within).1
    unfold Cycle.outcome?
    cases phase : cycle.phase with
    | queued => exact absurd phase begun
    | connecting links =>
        rw [Cycle.handedOut_of_connecting phase] at out
        cases out
    | settled outcome => rfl
    | reporting answers =>
        obtain ⟨same, opened⟩ := hears.reporting answers phase
        rw [same] at opened
        obtain ⟨reporter, inRange, missing⟩ := List.mem_map.mp opened
        obtain ⟨_connected, reported⟩ := finished reporter (List.mem_range.mp inRange)
        cases atReporter : link reporter with
        | error failure =>
            rw [atReporter] at missing
            cases missing
        | ok none =>
            rw [atReporter, reported atReporter] at missing
            cases missing

theorem handed_of_connected
    (truthful : ∀ occurrence ∈ occurrences, Truthful number link answer occurrence) {cycle : Cycle}
    (found : ((new engines filter).undergo occurrences).1.cycle? number = some cycle)
    (begun : cycle.phase ≠ .queued)
    (connected : ∀ reporter < engines.length,
      (new engines filter).ever (connects number reporter) occurrences = true)
    {reporter : Nat} (within : reporter < engines.length) :
    handed number reporter ((new engines filter).undergo occurrences).2 =
      match link reporter with
      | .ok _ => [cycle.change]
      | .error _ => [] := by
  have out := handedOut_of_connected engines filter truthful found begun connected
  refine ((accounts_undergo engines filter truthful found).handed out reporter).2.trans ?_
  rw [connected reporter within]
  cases link reporter <;> rfl

end Replies

/-- For all orders in which the calls of its reporters come out, among whatever else happens: a
cycle that has begun is settled just when all of them have come out. What it comes to is the one
verdict on the replies in the order of the engines, with its token as it was when the last call
came out. Each reporter that could be connected is handed the change, whatever became of the
others. -/
theorem outcome_of_replies (engines : List String) (filter : IssueFilter) (number : Nat)
    (link : Nat → Except Failure Unit) (answer : Nat → Except Failure (List Issue))
    (occurrences : List Occurrence)
    (truthful : ∀ occurrence ∈ occurrences, Truthful number link answer occurrence) :
    let start := new engines filter
    let replies := repliesOf link answer engines
    (∀ cycle, (start.undergo occurrences).1.cycle? number = some cycle →
      (cycle.outcome?.isSome ↔ cycle.phase ≠ .queued ∧ ∀ reporter < engines.length,
        Finished start number link occurrences reporter)) ∧
    (∀ outcome, (start.undergo occurrences).1.outcome? number = some outcome →
      ∃ front last rest cycle, occurrences = front ++ last :: rest ∧
        (start.undergo front).1.cycle? number = some cycle ∧ cycle.outcome? = none ∧
        (start.undergo (front ++ [last])).1.outcome? number = some outcome ∧
        Outcome.Verdict filter cycle.signalled replies outcome) ∧
    (∀ signalled outcome other, Outcome.Verdict filter signalled replies outcome →
      Outcome.Verdict filter signalled replies other → outcome = other) ∧
    (∀ cycle, (start.undergo occurrences).1.cycle? number = some cycle → cycle.phase ≠ .queued →
      (∀ reporter < engines.length, start.ever (connects number reporter) occurrences = true) →
      ∀ reporter < engines.length, handed number reporter (start.undergo occurrences).2 =
        match link reporter with
        | .ok _ => [cycle.change]
        | .error _ => []) ∧
    ∀ events, start.undergo (events.map .event) = start.run events := by
  intro start replies
  refine ⟨?_, ?_, ?_, ?_, undergo_events⟩
  · exact fun cycle found => settled_iff engines filter truthful found
  · intro outcome settled
    obtain ⟨front, last, rest, cycle, rfl, atFront, running, ended⟩ :=
      exists_settling engines filter settled
    have early : ∀ occurrence ∈ front, Truthful number link answer occurrence :=
      fun occurrence member => truthful occurrence (List.mem_append_left _ member)
    have fits := fits_undergo engines filter early
    obtain ⟨sameEngines, sameFilter⟩ := engines_undergo engines filter front
    obtain ⟨next, atNext, turn⟩ := fits.turn atFront
      (truthful last (List.mem_append_right _ List.mem_cons_self))
    have settling : next.outcome? = some outcome := by
      rw [undergo_concat] at ended
      unfold outcome? at ended
      rw [atNext] at ended
      exact ended
    have verdict := turn.verdict (fits.hears cycle atFront) running settling
    rw [sameEngines, sameFilter] at verdict
    exact ⟨front, last, rest, cycle, rfl, atFront, running, ended, verdict⟩
  · exact fun signalled outcome other first second => first.eq_of.trans second.eq_of.symm
  · exact fun cycle found begun connected reporter within =>
      handed_of_connected engines filter truthful found begun connected within

/-! Three reporters, of which one breaks off when it is connected and one is cancelled. -/
namespace Replies

def link : Nat → Except Failure Unit
  | 2 => .error (.broke (.text "down"))
  | _ => .ok ()

def answer : Nat → Except Failure (List Issue)
  | 0 => .error (.error .cancelled)
  | _ => .ok []

def change : Change := Change.ofFiles [⟨"a.ts"⟩] []

def occurrences : List Occurrence :=
  [.event (.trigger change), .event (.start 1), .event (.connected 1 2 (link 2)),
    .event (.connected 1 1 (link 1)), .event (.connected 1 0 (link 0)),
    .event (.answered 1 1 (answer 1)), .signal 2, .event (.answered 1 0 (answer 0))]

theorem truthful : ∀ occurrence ∈ occurrences, Truthful 1 link answer occurrence := by
  simp [occurrences, Truthful]

end Replies

/-- The engine that broke off is named, though another one in front of it was cancelled; the others
were handed the change. -/
theorem outcome_of_replies_of_broken :
    let start := new ["check", "lint", "style"] IssueFilter.keepAll
    (∀ occurrence ∈ Replies.occurrences, Truthful 1 Replies.link Replies.answer occurrence) ∧
      (∃ cycle, (start.undergo Replies.occurrences).1.cycle? 1 = some cycle ∧
        handed 1 0 (start.undergo Replies.occurrences).2 = [cycle.change] ∧
        handed 1 2 (start.undergo Replies.occurrences).2 = []) ∧
      ∃ signalled, Outcome.Verdict IssueFilter.keepAll signalled
        (repliesOf Replies.link Replies.answer ["check", "lint", "style"])
        (.errored ⟨"style", .engine "style" "panicked: down"⟩) := by
  intro start
  obtain ⟨_settles, verdict, _one, hands, _runs⟩ := outcome_of_replies ["check", "lint", "style"]
    IssueFilter.keepAll 1 Replies.link Replies.answer Replies.occurrences Replies.truthful
  have outcome : (start.undergo Replies.occurrences).1.outcome? 1 =
      some (.errored ⟨"style", .engine "style" "panicked: down"⟩) := by decide +kernel
  obtain ⟨cycle, found, settled⟩ := Option.bind_eq_some_iff.mp outcome
  have begun : cycle.phase ≠ .queued := fun queued =>
    nomatch queued.symm.trans (outcome?_eq_some.mp settled)
  have connected : ∀ reporter < 3,
      start.ever (connects 1 reporter) Replies.occurrences = true := by decide +kernel
  refine ⟨Replies.truthful, ⟨cycle, found, ?_, ?_⟩, ?_⟩
  · exact hands cycle found begun connected 0 (by decide)
  · exact hands cycle found begun connected 2 (by decide)
  · obtain ⟨_front, _last, _rest, before, _cut, _found, _running, _over, judged⟩ :=
      verdict _ outcome
    exact ⟨before.signalled, judged⟩

end Lifecycle

end Reanalysis
