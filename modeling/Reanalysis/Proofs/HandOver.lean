/-
How changes reach the reporters. Whatever the order of events, a cycle hands the change of
its trigger once to each reporter that it could connect, and to no other; it calls no
reporter before the cycle in front of it has handed out its own change. A cycle that has
not handed out its change waits for a task that is due, or for a connection.
-/

import Mathlib.Data.List.Induction
import Reanalysis.Proofs.ChangeContents
import Reanalysis.Proofs.LifecycleSteps

namespace Reanalysis

/-- The cycle that a command calls a reporter for. -/
def Command.caller? : Command → Option Nat
  | .connect report _ => some report
  | .ask report _ _ _ => some report
  | .disconnect _ => none
  | .signal _ => none
  | .announce _ _ => none

namespace Lifecycle

def changes (events : List Event) : List Change :=
  events.filterMap fun event =>
    match event with
    | .trigger change => some change
    | _ => none

/-- How an event lets the connection of a reporter come out for a cycle, if it does. -/
def link? (life : Lifecycle) (report reporter : Nat) : Event → Option (Except Failure Unit)
  | .connected cycle member result =>
      if (cycle = report ∧ member = reporter) ∧ life.awaits report reporter then some result
      else none
  | _ => none

/-- How the connection of a reporter has come out for a cycle. -/
def linkIn (life : Lifecycle) (report reporter : Nat) :
    List Event → Option (Except Failure Unit)
  | [] => none
  | event :: rest =>
      (life.link? report reporter event).or ((life.step event).1.linkIn report reporter rest)

/-- The changes that a reporter is handed for a cycle, whether its token is signalled or not. -/
def handed (report reporter : Nat) (commands : List Command) : List Change :=
  commands.filterMap fun command =>
    match command with
    | .ask cycle member change _ =>
        if cycle = report ∧ member = reporter then some change else none
    | _ => none

/-- What a reporter with this connection is to be handed. -/
def portion (change : Change) : Option (Except Failure Unit) → List Change
  | some (.ok _) => [change]
  | _ => []

variable {life : Lifecycle}

theorem handed_append (report reporter : Nat) (commands later : List Command) :
    handed report reporter (commands ++ later) =
      handed report reporter commands ++ handed report reporter later :=
  List.filterMap_append

theorem handed_eq_nil {commands : List Command} (silent : ∀ command ∈ commands,
    ∀ report reporter change signalled, command ≠ .ask report reporter change signalled)
    (report reporter : Nat) : handed report reporter commands = [] := by
  rw [handed, List.filterMap_eq_nil_iff]
  intro command member
  cases command with
  | ask cycle asked change signalled =>
      exact absurd rfl (silent _ member cycle asked change signalled)
  | _ => rfl

private theorem filterMap_zipIdx {α β : Type} (pick : α → Option β) (items : List α)
    (first position : Nat) :
    ((items.zipIdx first).filterMap fun entry =>
        if entry.2 = first + position then pick entry.1 else none) =
      (items[position]?.bind pick).toList := by
  induction items generalizing first position with
  | nil => rfl
  | cons item rest ih =>
      rw [List.zipIdx_cons]
      cases position with
      | zero =>
          have later : ((rest.zipIdx (first + 1)).filterMap fun entry =>
              if entry.2 = first + 0 then pick entry.1 else none) = [] := by
            rw [List.filterMap_eq_nil_iff]
            rintro ⟨other, index⟩ member
            have beyond := (List.mem_zipIdx member).1
            exact if_neg (by omega)
          cases picked : pick item <;> simp [picked] <;> simpa using later
      | succ position =>
          have shifted := ih (first + 1) position
          rw [show first + 1 + position = first + (position + 1) by omega] at shifted
          simp [shifted]

theorem handed_asked (number report reporter : Nat) (cycle : Cycle)
    (links : List (Option (Except Failure Unit))) :
    handed report reporter (asked number cycle links) =
      if number = report ∧ none ∉ links then portion cycle.change links[reporter]?.join
      else [] := by
  unfold asked
  cases read : links.mapM id with
  | none => simp [handed, mapM_id_eq_none.mp read]
  | some complete =>
      obtain rfl := mapM_id_eq_some.mp read
      dsimp only
      by_cases same : number = report
      · subst same
        let call : Option (Except Failure (List Issue)) → Option Change := fun answer =>
          if answer.isNone then some cycle.change else none
        rw [if_pos ⟨rfl, by simp⟩]
        calc
          _ = (complete.map answerOf).zipIdx.filterMap fun entry =>
                if entry.2 = 0 + reporter then call entry.1 else none := by
              rw [handed, List.filterMap_filterMap]
              refine List.filterMap_congr fun entry _member => ?_
              obtain ⟨answer, member⟩ := entry
              cases answer <;> simp [call]
          _ = ((complete.map answerOf)[reporter]?.bind call).toList :=
              filterMap_zipIdx call (complete.map answerOf) 0 reporter
          _ = portion cycle.change (complete.map some)[reporter]?.join := by
              rw [List.getElem?_map, List.getElem?_map]
              cases complete[reporter]? with
              | none => rfl
              | some result => cases result <;> rfl
      · rw [if_neg fun both => same both.1, handed, List.filterMap_filterMap,
          List.filterMap_eq_nil_iff]
        rintro ⟨answer, member⟩ _listed
        cases answer <;> simp [same]

theorem cycle?_eq_none {number : Nat} (absent : life.current < number) :
    life.cycle? number = none := by
  rw [← Option.not_isSome_iff_eq_none, cycle?_isSome]
  omega

theorem Cycle.handedOut_of_queued {cycle : Cycle} (queued : cycle.phase = .queued) :
    cycle.handedOut = false := by
  simp [Cycle.handedOut, queued]

theorem Cycle.handedOut_of_connecting {cycle : Cycle} {links : List (Option (Except Failure Unit))}
    (connecting : cycle.phase = .connecting links) : cycle.handedOut = false := by
  simp [Cycle.handedOut, connecting]

/-- How the phase of a cycle goes with its connections and with what has been handed out. -/
structure Accounts (count : Nat) (cycle : Cycle)
    (linked : Nat → Option (Except Failure Unit)) (given : Nat → List Change) : Prop where
  beyond : ∀ reporter, count ≤ reporter → linked reporter = none
  queued : cycle.phase = .queued → ∀ reporter, linked reporter = none
  connecting : ∀ links, cycle.phase = .connecting links →
    links = (List.range count).map linked ∧ none ∈ links
  kept : cycle.handedOut = false → ∀ reporter, given reporter = []
  handed : cycle.handedOut = true → ∀ reporter,
    (reporter < count → (linked reporter).isSome) ∧
      given reporter = portion cycle.change (linked reporter)

def Balanced (life : Lifecycle) (number : Nat) (linked : Nat → Option (Except Failure Unit))
    (given : Nat → List Change) : Prop :=
  match life.cycle? number with
  | none => ∀ reporter, linked reporter = none ∧ given reporter = []
  | some cycle => Accounts life.engines.length cycle linked given

variable {number : Nat} {linked : Nat → Option (Except Failure Unit)}
  {given : Nat → List Change}

theorem getElem?_range_map (count : Nat) (linked : Nat → Option (Except Failure Unit))
    (beyond : ∀ reporter, count ≤ reporter → linked reporter = none) (reporter : Nat) :
    ((List.range count).map linked)[reporter]?.join = linked reporter := by
  rw [List.getElem?_map]
  by_cases within : reporter < count
  · simp [within]
  · simp [beyond reporter (by omega), show count ≤ reporter by omega]

/-- Once all connections have come out, each reporter has been handed its portion. -/
theorem accounts_tried {count : Nat} {cycle : Cycle}
    (beyond : ∀ reporter, count ≤ reporter → linked reporter = none)
    (empty : ∀ reporter, given reporter = []) :
    Accounts count { cycle with phase := life.tried cycle ((List.range count).map linked) }
      linked (fun reporter => given reporter ++
        handed number reporter (asked number cycle ((List.range count).map linked))) := by
  unfold tried
  cases read : ((List.range count).map linked).mapM id with
  | none =>
      have opened := mapM_id_eq_none.mp read
      refine ⟨beyond, nofun, ?_, fun _ reporter => ?_, nofun⟩
      · intro links same
        cases same
        exact ⟨rfl, opened⟩
      · simp [empty, handed_asked, opened]
  | some complete =>
      have closed : none ∉ (List.range count).map linked := fun opened => by
        rw [mapM_id_eq_none.mpr opened] at read
        cases read
      have out := handedOut_judged life cycle (complete.map answerOf)
      refine ⟨beyond, fun same => ?_, fun links same => ?_, fun same => ?_,
        fun _ reporter => ⟨fun within => ?_, ?_⟩⟩
      · exact absurd (out.symm.trans (Cycle.handedOut_of_queued same)) (by simp)
      · exact absurd (out.symm.trans (Cycle.handedOut_of_connecting same)) (by simp)
      · exact absurd (out.symm.trans same) (by simp)
      · rw [Option.isSome_iff_ne_none]
        intro opened
        exact closed (List.mem_map.mpr ⟨reporter, List.mem_range.mpr within, opened⟩)
      · rw [empty, handed_asked, if_pos ⟨rfl, closed⟩, getElem?_range_map count linked beyond]
        rfl

theorem Balanced.unchanged (balanced : life.Balanced number linked given) {next : Lifecycle}
    (same : next.cycle? number = life.cycle? number) (engines : next.engines = life.engines)
    {opened : Nat → Option (Except Failure Unit)} (closed : ∀ reporter, opened reporter = none)
    {added : Nat → List Change} (silent : ∀ reporter, added reporter = []) :
    next.Balanced number (fun reporter => (linked reporter).or (opened reporter))
      (fun reporter => given reporter ++ added reporter) := by
  unfold Balanced
  rw [same, engines]
  simp only [closed, silent, Option.or_none, List.append_nil]
  exact balanced

theorem Balanced.signalCurrent (balanced : life.Balanced number linked given) :
    life.signalCurrent.1.Balanced number linked given := by
  unfold Balanced at balanced ⊢
  rw [engines_signalCurrent, cycle?_signalCurrent]
  cases found : life.cycle? number with
  | none =>
      rw [found] at balanced
      simpa using balanced
  | some cycle =>
      rw [found] at balanced
      by_cases here : number = life.current
      · rw [if_pos here]
        exact ⟨balanced.beyond, balanced.queued, balanced.connecting, balanced.kept,
          balanced.handed⟩
      · rw [if_neg here]
        exact balanced

theorem handed_signalCurrent (life : Lifecycle) (report reporter : Nat) :
    handed report reporter life.signalCurrent.2 = [] := by
  apply handed_eq_nil
  intro command member
  rw [mem_signalCurrent member]
  simp

theorem link?_eq_none (life : Lifecycle) {report reporter : Nat} {event : Event}
    (other : ∀ result, event ≠ .connected report reporter result) :
    life.link? report reporter event = none := by
  cases event with
  | connected cycle member result =>
      refine if_neg fun both => other result ?_
      rw [both.1.1, both.1.2]
  | _ => rfl

theorem handed_map {α : Type} (call : α → Command) (items : List α)
    (silent : ∀ item report reporter change signalled,
      call item ≠ .ask report reporter change signalled) (report reporter : Nat) :
    handed report reporter (items.map call) = [] := by
  apply handed_eq_nil
  intro command member
  obtain ⟨item, _listed, rfl⟩ := List.mem_map.mp member
  exact silent item

theorem set_range_map {α : Type} {count : Nat} {items : List α} {item : Nat → α}
    (same : items = (List.range count).map item) (member : Nat) (value : α) :
    items.set member value =
      (List.range count).map fun index => if index = member then value else item index := by
  subst same
  apply List.ext_getElem?
  intro index
  by_cases here : member = index
  · subst here
    by_cases within : member < count
    · simp [within]
    · simp [show count ≤ member by omega]
  · rw [List.getElem?_set_ne here, List.getElem?_map, List.getElem?_map]
    by_cases within : index < count
    · simp [within, Ne.symm here]
    · simp [show count ≤ index by omega]

theorem Balanced.connected (balanced : life.Balanced number linked given) {member : Nat}
    {result : Except Failure Unit} {cycle : Cycle} {links : List (Option (Except Failure Unit))}
    (found : life.cycle? number = some cycle) (connecting : cycle.phase = .connecting links)
    (opened : links[member]? = some none) :
    (life.setPhase number (life.tried cycle (links.set member (some result)))).Balanced number
      (fun reporter => (linked reporter).or
        (life.link? number reporter (.connected number member result)))
      (fun reporter => given reporter ++
        handed number reporter (asked number cycle (links.set member (some result)))) := by
  unfold Balanced at balanced ⊢
  rw [cycle?_setPhase (ne_zero_of_cycle? found).1, if_pos rfl, found]
  rw [found] at balanced
  have same := (balanced.connecting links connecting).1
  have next : (fun reporter => (linked reporter).or
      (life.link? number reporter (.connected number member result))) =
      fun reporter => if reporter = member then some result else linked reporter := by
    funext reporter
    have waits : life.awaits number member = true :=
      awaits_iff.mpr ⟨cycle, links, found, connecting, opened⟩
    by_cases here : reporter = member
    · subst here
      have unlinked : linked reporter = none := by
        rw [← getElem?_range_map _ linked balanced.beyond, ← same, opened]
        rfl
      simp [unlinked, link?, waits]
    · rw [if_neg here, link?_eq_none life fun other equal => ?_, Option.or_none]
      cases equal
      exact here rfl
  rw [next, set_range_map same]
  apply accounts_tried
  · intro reporter (beyond : life.engines.length ≤ reporter)
    have within : member < life.engines.length := by
      have inside := (List.getElem?_eq_some_iff.mp opened).1
      rwa [same, List.length_map, List.length_range] at inside
    rw [if_neg (by omega)]
    exact balanced.beyond reporter beyond
  · exact balanced.kept (Cycle.handedOut_of_connecting connecting)

theorem Balanced.triggered (balanced : life.Balanced number linked given)
    (pending : PendingChanges) (change : Change) :
    { life.signalCurrent.1 with
      pending := pending
      cycles := life.signalCurrent.1.cycles ++ [⟨change, false, .queued⟩] : Lifecycle }.Balanced
        number (fun reporter => (linked reporter).or none)
        (fun reporter => given reporter ++ handed number reporter life.signalCurrent.2) := by
  have silent := handed_signalCurrent life number
  by_cases fresh : number = life.current + 1
  · unfold Balanced at balanced ⊢
    have absent : life.cycle? number = none := cycle?_eq_none (by omega)
    rw [absent] at balanced
    rw [cycle?_append, signalCurrent_current, if_pos fresh]
    simp only [silent, Option.or_none, List.append_nil]
    exact ⟨fun reporter _ => (balanced reporter).1, fun _ reporter => (balanced reporter).1,
      fun _ connecting => (by cases connecting), fun _ reporter => (balanced reporter).2,
      fun out => (by cases out)⟩
  · refine balanced.signalCurrent.unchanged ?_ ?_ (fun _ => rfl) silent
    · rw [cycle?_append, signalCurrent_current, if_neg fresh]
    · rfl

theorem Balanced.elsewhere (balanced : life.Balanced number linked given) {report : Nat}
    {held : Cycle} (found : life.cycle? report = some held) (other : number ≠ report)
    (phase : Phase) {opened : Nat → Option (Except Failure Unit)}
    (closed : ∀ reporter, opened reporter = none) {added : Nat → List Change}
    (silent : ∀ reporter, added reporter = []) :
    (life.setPhase report phase).Balanced number
      (fun reporter => (linked reporter).or (opened reporter))
      (fun reporter => given reporter ++ added reporter) := by
  refine balanced.unchanged ?_ ?_ closed silent
  · rw [cycle?_setPhase (ne_zero_of_cycle? found).1, if_neg other]
  · rfl

theorem Balanced.started (balanced : life.Balanced number linked given) {cycle : Cycle}
    (found : life.cycle? number = some cycle) (queued : cycle.phase = .queued) :
    (life.setPhase number
        (life.tried cycle (List.replicate life.engines.length none))).Balanced number
      (fun reporter => (linked reporter).or none)
      (fun reporter => given reporter ++
        handed number reporter (asked number cycle (List.replicate life.engines.length none))) := by
  unfold Balanced at balanced ⊢
  rw [found] at balanced
  rw [cycle?_setPhase (ne_zero_of_cycle? found).1, if_pos rfl, found]
  have unlinked := balanced.queued queued
  have all : List.replicate life.engines.length none =
      (List.range life.engines.length).map linked := by
    rw [List.map_congr_left (fun reporter _ => unlinked reporter), List.map_const',
      List.length_range]
  simp only [Option.or_none]
  rw [all]
  exact accounts_tried (fun reporter _ => unlinked reporter)
    (balanced.kept (Cycle.handedOut_of_queued queued))

theorem Balanced.answered (balanced : life.Balanced number linked given) {cycle : Cycle}
    (found : life.cycle? number = some cycle)
    {answers : List (Option (Except Failure (List Issue)))}
    (reporting : cycle.phase = .reporting answers)
    (later : List (Option (Except Failure (List Issue)))) :
    (life.setPhase number (life.judged cycle later)).Balanced number linked given := by
  unfold Balanced at balanced ⊢
  rw [found] at balanced
  rw [cycle?_setPhase (ne_zero_of_cycle? found).1, if_pos rfl, found]
  have before : cycle.handedOut = true := by simp [Cycle.handedOut, reporting]
  have after := handedOut_judged life cycle later
  refine ⟨balanced.beyond, fun queued => ?_, fun links connecting => ?_, fun kept => ?_,
    fun _ => balanced.handed before⟩
  · exact absurd (after.symm.trans (Cycle.handedOut_of_queued queued)) (by simp)
  · exact absurd (after.symm.trans (Cycle.handedOut_of_connecting connecting)) (by simp)
  · exact absurd (after.symm.trans kept) (by simp)

theorem Balanced.step (balanced : life.Balanced number linked given) (event : Event) :
    (life.step event).1.Balanced number
      (fun reporter => (linked reporter).or (life.link? number reporter event))
      (fun reporter => given reporter ++ handed number reporter (life.step event).2) := by
  have stepped := step_stepped life event
  generalize (life.step event).1 = next, (life.step event).2 = commands at stepped ⊢
  cases stepped with
  | triggered change => exact balanced.triggered _ _
  | started report cycle found queued next =>
      have silent := handed_map (.connect report) (List.range life.engines.length) (by simp)
        number
      simp only [handed_append, silent, List.nil_append]
      by_cases here : number = report
      · subst here
        exact balanced.started found queued
      · refine balanced.elsewhere found here _ (fun _ => rfl) fun reporter => ?_
        rw [handed_asked, if_neg fun both => here both.1.symm]
  | linked report reporter result cycle links found connecting opened =>
      by_cases here : number = report
      · subst here
        exact balanced.connected found connecting opened
      · refine balanced.elsewhere found here _ (fun member => link?_eq_none life fun other same => ?_)
          fun member => ?_
        · cases same
          exact here rfl
        · rw [handed_asked, if_neg fun both => here both.1.symm]
  | answered report reporter result cycle answers found reporting opened =>
      by_cases here : number = report
      · subst here
        have kept := balanced.answered found reporting (answers.set reporter (some result))
        exact kept.unchanged rfl rfl (fun _ => rfl) fun _ => rfl
      · exact balanced.elsewhere found here _ (fun _ => rfl) fun _ => rfl
  | woken delivery report outcome waits settled =>
      refine balanced.unchanged rfl rfl (fun _ => rfl) fun _ => ?_
      split <;> rfl
  | tornDown =>
      refine balanced.signalCurrent.unchanged rfl rfl (fun _ => rfl) fun reporter => ?_
      rw [handed_append, handed_signalCurrent, handed_map _ _ (by simp)]
      rfl
  | notLinked report reporter result closed =>
      refine balanced.unchanged rfl rfl (fun member => if_neg fun both => ?_) fun _ => rfl
      obtain ⟨⟨rfl, rfl⟩, waits⟩ := both
      exact absurd (waits.symm.trans closed) (by simp)
  | _ => exact balanced.unchanged rfl rfl (fun _ => rfl) fun _ => rfl

/-! ### Accounts along a run -/

theorem linkIn_concat (report reporter : Nat) (front : List Event) (event : Event) :
    life.linkIn report reporter (front ++ [event]) =
      (life.linkIn report reporter front).or
        ((life.run front).1.link? report reporter event) := by
  induction front generalizing life with
  | nil => simp [linkIn, run]
  | cons first front ih => simp [linkIn, run_cons, ih, Option.or_assoc]

theorem linkIn_append_of_isSome {report reporter : Nat} {front : List Event}
    (come : (life.linkIn report reporter front).isSome) (rest : List Event) :
    life.linkIn report reporter (front ++ rest) = life.linkIn report reporter front := by
  induction front generalizing life with
  | nil => cases come
  | cons event front ih =>
      simp only [List.cons_append, linkIn] at come ⊢
      cases now : life.link? report reporter event with
      | some result => simp
      | none =>
          rw [now] at come
          simpa using ih (by simpa using come)

section Runs

variable (engines : List String) (filter : IssueFilter)

theorem balanced_run (number : Nat) (events : List Event) :
    ((new engines filter).run events).1.Balanced number
      (fun reporter => (new engines filter).linkIn number reporter events)
      (fun reporter => handed number reporter ((new engines filter).run events).2) := by
  induction events using List.reverseRecOn with
  | nil =>
      cases number with
      | zero => exact fun _ => ⟨rfl, rfl⟩
      | succ index => exact fun _ => ⟨rfl, rfl⟩
  | append_singleton front event ih =>
      simp only [linkIn_concat, run_concat, handed_append]
      exact ih.step event

theorem engines_run (events : List Event) :
    ((new engines filter).run events).1.engines = engines := by
  induction events using List.reverseRecOn with
  | nil => rfl
  | append_singleton front event ih => rw [run_concat, engines_step, ih]

theorem changes_concat (front : List Event) (event : Event) :
    changes (front ++ [event]) = changes front ++ changes [event] :=
  List.filterMap_append

end Runs

theorem map_change_update (report : Nat) {turn : Cycle → Cycle}
    (keeps : ∀ cycle, (turn cycle).change = cycle.change) :
    (life.update report turn).cycles.map Cycle.change = life.cycles.map Cycle.change := by
  apply List.ext_getElem?
  intro index
  simp only [update, List.getElem?_map, List.getElem?_modify]
  split <;> simp [Function.comp_def, keeps]

theorem map_change_setPhase (report : Nat) (phase : Phase) :
    (life.setPhase report phase).cycles.map Cycle.change = life.cycles.map Cycle.change :=
  map_change_update report fun _ => rfl

theorem map_change_signalCurrent :
    life.signalCurrent.1.cycles.map Cycle.change = life.cycles.map Cycle.change := by
  unfold signalCurrent
  split
  · rfl
  · exact map_change_update _ fun _ => rfl

theorem cycles_step (empty : life.pending = PendingChanges.empty) (event : Event) :
    (life.step event).1.pending = PendingChanges.empty ∧
      (life.step event).1.cycles.map Cycle.change =
        life.cycles.map Cycle.change ++ (changes [event]).map Change.deletionWins := by
  have stepped := step_stepped life event
  generalize (life.step event).1 = next, (life.step event).2 = commands at stepped ⊢
  cases stepped with
  | triggered change =>
      refine ⟨rfl, ?_⟩
      rw [List.map_append, map_change_signalCurrent, empty, Change.accumulate_empty]
      rfl
  | tornDown =>
      constructor
      · unfold signalCurrent
        split <;> exact empty
      · rw [map_change_signalCurrent]
        exact (List.append_nil _).symm
  | started => exact ⟨empty, (map_change_setPhase _ _).trans (List.append_nil _).symm⟩
  | linked => exact ⟨empty, (map_change_setPhase _ _).trans (List.append_nil _).symm⟩
  | answered => exact ⟨empty, (map_change_setPhase _ _).trans (List.append_nil _).symm⟩
  | _ => exact ⟨empty, (List.append_nil _).symm⟩

theorem cycles_run (engines : List String) (filter : IssueFilter) (events : List Event) :
    ((new engines filter).run events).1.pending = PendingChanges.empty ∧
      ((new engines filter).run events).1.cycles.map Cycle.change =
        (changes events).map Change.deletionWins := by
  induction events using List.reverseRecOn with
  | nil => exact ⟨rfl, rfl⟩
  | append_singleton front event ih =>
      rw [run_concat, changes_concat, List.map_append, ← ih.2]
      exact cycles_step ih.1 event

def Ordered (life : Lifecycle) : Prop :=
  ∀ report before later, life.cycle? report = some before →
    life.cycle? (report + 1) = some later → later.phase ≠ .queued → before.handedOut = true

def Admitted (life : Lifecycle) (report : Nat) : Prop :=
  ∃ cycle, life.cycle? report = some cycle ∧
    (cycle.phase ≠ .queued ∨ life.mayStart report = true)

theorem admitted_signalCurrent {number : Nat} {later : Cycle}
    (found : life.signalCurrent.1.cycle? number = some later) (begun : later.phase ≠ .queued) :
    life.Admitted number := by
  rw [cycle?_signalCurrent] at found
  split at found
  · obtain ⟨cycle, here, rfl⟩ := Option.map_eq_some_iff.mp found
    exact ⟨cycle, here, .inl begun⟩
  · exact ⟨later, found, .inl begun⟩

theorem admitted_of_begun {number : Nat} {later : Cycle} (event : Event)
    (found : (life.step event).1.cycle? number = some later) (begun : later.phase ≠ .queued) :
    life.Admitted number := by
  have stepped := step_stepped life event
  generalize (life.step event).1 = next, (life.step event).2 = commands at stepped found
  have other {report : Nat} {phase : Phase} {cycle : Cycle}
      (here : life.cycle? report = some cycle)
      (admitted : cycle.phase ≠ .queued ∨ life.mayStart report = true)
      (found : (life.setPhase report phase).cycle? number = some later) :
      life.Admitted number := by
    rw [cycle?_setPhase (ne_zero_of_cycle? here).1] at found
    split at found
    · rename_i same
      exact ⟨cycle, same ▸ here, same ▸ admitted⟩
    · exact ⟨later, found, .inl begun⟩
  cases stepped with
  | triggered change =>
      rw [cycle?_append] at found
      split at found
      · cases found
        exact absurd rfl begun
      · exact admitted_signalCurrent found begun
  | started report cycle here queued next => exact other here (.inr next) found
  | linked report reporter result cycle links here connecting opened =>
      exact other here (.inl (by simp [connecting])) found
  | answered report reporter result cycle answers here reporting opened =>
      exact other here (.inl (by simp [reporting])) found
  | tornDown => exact admitted_signalCurrent found begun
  | _ => exact ⟨later, found, .inl begun⟩

theorem Ordered.before (ordered : life.Ordered) {report : Nat}
    (admitted : life.Admitted (report + 1)) {before : Cycle}
    (found : life.cycle? report = some before) : before.handedOut = true := by
  obtain ⟨later, here, begun | next⟩ := admitted
  · exact ordered report before later found here begun
  · simpa [mayStart, found] using next

theorem Ordered.step (ordered : life.Ordered) (event : Event) : (life.step event).1.Ordered := by
  intro report before later atReport atLater begun
  have admitted := admitted_of_begun event atLater begun
  have ⟨held, here, _begun⟩ := admitted
  have bounds := ne_zero_of_cycle? here
  have positive := (ne_zero_of_cycle? atReport).1
  have earlier : (life.cycle? report).isSome := cycle?_isSome.mpr ⟨positive, by omega⟩
  obtain ⟨first, found⟩ := Option.isSome_iff_exists.mp earlier
  obtain ⟨next, atNext, follows⟩ := exists_cycle?_step found event
  rw [atReport] at atNext
  cases atNext
  exact follows.handedOut (ordered.before admitted found)

theorem ordered_run (engines : List String) (filter : IssueFilter) (events : List Event) :
    ((new engines filter).run events).1.Ordered := by
  induction events using List.reverseRecOn with
  | nil =>
      intro report before later found
      have bounds := ne_zero_of_cycle? found
      exact absurd (Nat.le_zero.mp bounds.2) bounds.1
  | append_singleton front event ih =>
      rw [run_concat]
      exact ih.step event

/-- All cycles in front of one that is under way or may be started are over with it. -/
theorem Ordered.all_before (ordered : life.Ordered) {number : Nat}
    (admitted : life.Admitted number) {earlier : Nat} (positive : earlier ≠ 0)
    (before : earlier < number) :
    ∃ cycle, life.cycle? earlier = some cycle ∧ cycle.handedOut = true := by
  induction number with
  | zero => omega
  | succ report ih =>
      have ⟨later, here, _begun⟩ := admitted
      have bounds := ne_zero_of_cycle? here
      obtain ⟨cycle, found⟩ := Option.isSome_iff_exists.mp
        (cycle?_isSome.mpr ⟨show report ≠ 0 by omega, show report ≤ life.current by omega⟩)
      have out := ordered.before admitted found
      by_cases last : earlier = report
      · exact ⟨cycle, last ▸ found, out⟩
      · refine ih ⟨cycle, found, .inl fun queued => ?_⟩ (by omega)
        exact absurd (out.symm.trans (Cycle.handedOut_of_queued queued)) (by simp)

theorem admitted_of_caller? {event : Event} {command : Command} {number : Nat}
    (member : command ∈ (life.step event).2) (calls : command.caller? = some number) :
    life.Admitted number := by
  have stepped := step_stepped life event
  generalize (life.step event).1 = next, (life.step event).2 = commands at stepped member
  cases stepped with
  | started report cycle here queued next =>
      have same : command.caller? = some report := by
        rcases List.mem_append.mp member with connects | asks
        · obtain ⟨reporter, _listed, rfl⟩ := List.mem_map.mp connects
          rfl
        · obtain ⟨reporter, rfl⟩ := mem_asked asks
          rfl
      cases same.symm.trans calls
      exact ⟨cycle, here, .inr next⟩
  | linked report reporter result cycle links here connecting opened =>
      obtain ⟨asked, rfl⟩ := mem_asked member
      cases calls
      exact ⟨cycle, here, .inl (by simp [connecting])⟩
  | triggered change =>
      cases mem_signalCurrent member
      cases calls
  | tornDown =>
      rcases List.mem_append.mp member with signals | disconnects
      · cases mem_signalCurrent signals
        cases calls
      · obtain ⟨reporter, _listed, rfl⟩ := List.mem_map.mp disconnects
        cases calls
  | joined =>
      cases List.mem_singleton.mp member
      cases calls
  | joinedLate =>
      cases List.mem_singleton.mp member
      cases calls
  | woken =>
      split at member
      · cases List.mem_singleton.mp member
        cases calls
      · cases member
  | _ => cases member

/-! ### Nothing gets stuck -/

def due (life : Lifecycle) (report : Nat) : Bool :=
  match life.cycle? report with
  | some ⟨_, _, .queued⟩ => life.mayStart report
  | _ => false

theorem mayStart_of_due {report : Nat} (due : life.due report = true) :
    (∃ cycle, life.cycle? report = some cycle) ∧ life.mayStart report = true := by
  unfold Lifecycle.due at due
  split at due
  · rename_i found
    exact ⟨⟨_, found⟩, due⟩
  · cases due

theorem exists_due_or_awaits {linked : Nat → Nat → Option (Except Failure Unit)}
    {given : Nat → Nat → List Change}
    (balanced : ∀ number, life.Balanced number (linked number) (given number)) {report : Nat}
    {cycle : Cycle} (found : life.cycle? report = some cycle) (kept : cycle.handedOut = false) :
    ∃ earlier, earlier ≤ report ∧ (life.due earlier = true ∨
      ∃ reporter, reporter < life.engines.length ∧ life.awaits earlier reporter = true) := by
  induction report using Nat.strongRecOn generalizing cycle with
  | ind report ih =>
      cases phase : cycle.phase with
      | queued =>
          cases next : life.mayStart report with
          | true =>
              obtain ⟨change, signalled, _⟩ := cycle
              cases phase
              exact ⟨report, Nat.le_refl report, .inl (by simp [due, found, next])⟩
          | false =>
              unfold mayStart at next
              split at next
              · cases next
              · rename_i before here
                obtain ⟨earlier, within, stuck⟩ := ih (report - 1)
                  (by have := (ne_zero_of_cycle? found).1; omega) here next
                exact ⟨earlier, by omega, stuck⟩
      | connecting links =>
          have accounts := balanced report
          unfold Balanced at accounts
          rw [found] at accounts
          obtain ⟨same, opened⟩ := accounts.connecting links phase
          obtain ⟨reporter, inside, here⟩ := List.mem_iff_getElem.mp opened
          have waits := awaits_iff.mpr ⟨cycle, links, found, phase,
            List.getElem?_eq_some_iff.mpr ⟨inside, here⟩⟩
          refine ⟨report, Nat.le_refl report, .inr ⟨reporter, ?_, waits⟩⟩
          rwa [same, List.length_map, List.length_range] at inside
      | reporting answers => simp [Cycle.handedOut, phase] at kept
      | settled outcome => simp [Cycle.handedOut, phase] at kept

theorem Accounts.linked_of_handedOut {count : Nat} {cycle : Cycle}
    (accounts : Accounts count cycle linked given) (out : cycle.handedOut = true) :
    ∀ member < count, (linked member).isSome :=
  fun member => (accounts.handed out member).1

theorem Accounts.given_eq {count : Nat} {cycle : Cycle}
    (accounts : Accounts count cycle linked given) (reporter : Nat) :
    given reporter = if ∀ member < count, (linked member).isSome then
      portion cycle.change (linked reporter) else [] := by
  cases out : cycle.handedOut with
  | true =>
      rw [if_pos (accounts.linked_of_handedOut out)]
      exact (accounts.handed out reporter).2
  | false =>
      rw [accounts.kept out]
      split
      · rename_i come
        -- Without reporters there is nobody to wait for, before the cycle is started too.
        have nobody : linked reporter = none := by
          by_cases within : reporter < count
          · cases phase : cycle.phase with
            | queued => exact accounts.queued phase reporter
            | connecting links =>
                obtain ⟨same, opened⟩ := accounts.connecting links phase
                rw [same] at opened
                obtain ⟨member, listed, missing⟩ := List.mem_map.mp opened
                have there := come member (List.mem_range.mp listed)
                rw [missing] at there
                cases there
            | reporting answers => simp [Cycle.handedOut, phase] at out
            | settled outcome => simp [Cycle.handedOut, phase] at out
          · exact accounts.beyond reporter (by omega)
        rw [nobody]
        rfl
      · rfl

section Results

variable (engines : List String) (filter : IssueFilter)

theorem current_run (events : List Event) :
    ((new engines filter).run events).1.current = (changes events).length := by
  simpa [current] using congrArg List.length (cycles_run engines filter events).2

/-- The numbers of reports fit in 64 bits for as long as there are fewer triggers than such
numbers. -/
theorem numbers_fit {events : List Event} (few : (changes events).length < UInt64.size)
    {command : Command} (member : command ∈ ((new engines filter).run events).2) {report : Nat}
    (about : report? command = some report) : report < UInt64.size := by
  suffices report ≤ ((new engines filter).run events).1.current by
    rw [current_run] at this
    omega
  clear few
  induction events using List.reverseRecOn with
  | nil => cases member
  | append_singleton front event ih =>
      rw [run_concat] at member ⊢
      have grown := current_le_step ((new engines filter).run front).1 event
      rcases List.mem_append.mp member with before | now
      · exact Nat.le_trans (ih before) grown
      · exact Nat.le_trans (report?_le_current now about) grown

theorem accounts_run {number : Nat} {cycle : Cycle} {events : List Event}
    (found : ((new engines filter).run events).1.cycle? number = some cycle) :
    Accounts engines.length cycle
      (fun reporter => (new engines filter).linkIn number reporter events)
      (fun reporter => handed number reporter ((new engines filter).run events).2) := by
  have balanced := balanced_run engines filter number events
  unfold Balanced at balanced
  rwa [found, engines_run] at balanced

theorem exists_cycle?_of_change {events : List Event} {index : Nat} {change : Change}
    (triggered : (changes events)[index]? = some change) :
    ∃ cycle, ((new engines filter).run events).1.cycle? (index + 1) = some cycle ∧
      cycle.change = change.deletionWins := by
  have same := congrArg (·[index]?) (cycles_run engines filter events).2
  simp only [List.getElem?_map, triggered, Option.map_some] at same
  exact Option.map_eq_some_iff.mp same

/-- What a cycle has handed out when it is over with it is all that it ever does. -/
theorem handed_of_handedOut {number : Nat} {cycle : Cycle} {front : List Event}
    (found : ((new engines filter).run front).1.cycle? number = some cycle)
    (out : cycle.handedOut = true) (rest : List Event) (reporter : Nat) :
    handed number reporter ((new engines filter).run front).2 =
      handed number reporter ((new engines filter).run (front ++ rest)).2 := by
  obtain ⟨last, atLast, follows⟩ := exists_cycle?_run found rest
  have before := accounts_run engines filter found
  have afterwards : ((new engines filter).run (front ++ rest)).1.cycle? number = some last := by
    rw [run_append]
    exact atLast
  have after := accounts_run engines filter afterwards
  rw [(before.handed out reporter).2, (after.handed (follows.handedOut out) reporter).2,
    follows.change]
  congr 1
  by_cases within : reporter < engines.length
  · exact (linkIn_append_of_isSome (before.linked_of_handedOut out reporter within) rest).symm
  · rw [before.beyond reporter (by omega), after.beyond reporter (by omega)]

/-- For all orders of events: a reporter is handed the change of each trigger, with deletion
winning, once its connection has come out well and all others have come out; it is handed
nothing else. Before a cycle calls any reporter, all cycles in front of it have handed out
everything that they ever do. As long as a cycle has not handed out its change, a task is due
or a connection has to come out. -/
theorem changes_handed_out_in_order (events : List Event) :
    let start := new engines filter
    let come := fun number history =>
      ∀ member < engines.length, (start.linkIn number member history).isSome
    (∀ index change, (changes events)[index]? = some change → ∀ reporter,
      handed (index + 1) reporter (start.run events).2 =
        if come (index + 1) events then
          portion change.deletionWins (start.linkIn (index + 1) reporter events)
        else []) ∧
    (∀ number, (number = 0 ∨ (changes events).length < number) → ∀ reporter,
      handed number reporter (start.run events).2 = []) ∧
    (∀ front event rest, events = front ++ event :: rest →
      ∀ command ∈ ((start.run front).1.step event).2, ∀ later, command.caller? = some later →
        ∀ earlier, earlier ≠ 0 → earlier < later → come earlier front ∧
          ∀ reporter, handed earlier reporter (start.run front).2 =
            handed earlier reporter (start.run events).2) ∧
    (∀ index < (changes events).length, ¬come (index + 1) events →
      ∃ earlier ≤ index + 1, (start.run events).1.due earlier = true ∨
        ∃ reporter < engines.length, (start.run events).1.awaits earlier reporter = true) := by
  dsimp only
  refine ⟨?_, ?_, ?_, ?_⟩
  · intro index change triggered reporter
    obtain ⟨cycle, found, same⟩ := exists_cycle?_of_change engines filter triggered
    rw [← same]
    exact (accounts_run engines filter found).given_eq reporter
  · intro number outside reporter
    have absent : ((new engines filter).run events).1.cycle? number = none := by
      rcases outside with rfl | beyond
      · exact cycle?_zero _
      · exact cycle?_eq_none (by rwa [current_run])
    have balanced := balanced_run engines filter number events
    unfold Balanced at balanced
    rw [absent] at balanced
    exact (balanced reporter).2
  · rintro front event rest rfl command member later calls earlier positive before
    obtain ⟨cycle, found, out⟩ := (ordered_run engines filter front).all_before
      (admitted_of_caller? member calls) positive before
    exact ⟨(accounts_run engines filter found).linked_of_handedOut out,
      handed_of_handedOut engines filter found out (event :: rest)⟩
  · intro index within opened
    obtain ⟨cycle, found, _same⟩ := exists_cycle?_of_change engines filter
      (List.getElem?_eq_getElem within)
    have kept : cycle.handedOut = false := by
      rw [← Bool.not_eq_true]
      exact fun out => opened ((accounts_run engines filter found).linked_of_handedOut out)
    obtain ⟨earlier, inside, stuck⟩ := exists_due_or_awaits
      (fun number => balanced_run engines filter number events) found kept
    rw [engines_run] at stuck
    exact ⟨earlier, inside, stuck⟩

end Results

namespace Trial

def change : Change := Change.ofFiles [⟨"a.ts"⟩] [⟨"b.ts"⟩]

/-- The first cycle is superseded while it connects; one of its connections breaks off. -/
def superseded : List Event :=
  [.trigger change, .start 1, .connected 1 1 (.error (.broke (.text "down"))),
    .trigger Change.empty, .start 2, .connected 1 0 (.ok ())]

end Trial

/-- A superseded cycle hands its change to the one reporter that could be connected. When the
next cycle calls, that is over; until then the next one is due. -/
theorem changes_handed_out_of_superseded :
    let start := new ["tsc", "eslint"] IssueFilter.keepAll
    handed 1 0 (start.run Trial.superseded).2 = [Trial.change.deletionWins] ∧
      handed 1 1 (start.run Trial.superseded).2 = [] ∧
      handed 3 0 (start.run Trial.superseded).2 = [] ∧
      handed 1 0 (start.run Trial.superseded).2 =
        handed 1 0 (start.run (Trial.superseded ++ [.start 2])).2 ∧
      ∃ earlier ≤ 2, (start.run Trial.superseded).1.due earlier = true ∨
        ∃ reporter < 2, (start.run Trial.superseded).1.awaits earlier reporter = true := by
  obtain ⟨portions, others, _order, waits⟩ :=
    changes_handed_out_in_order ["tsc", "eslint"] IssueFilter.keepAll Trial.superseded
  obtain ⟨_portions, _others, order, _waits⟩ :=
    changes_handed_out_in_order ["tsc", "eslint"] IssueFilter.keepAll
      (Trial.superseded ++ [.start 2])
  refine ⟨?_, ?_, others 3 (.inr (by decide)) 0, ?_, waits 1 (by decide) (by decide)⟩
  · exact (portions 0 Trial.change rfl 0).trans (if_pos (by decide))
  · exact (portions 0 Trial.change rfl 1).trans (if_pos (by decide))
  · exact (order Trial.superseded (.start 2) [] rfl (.connect 2 0) List.mem_cons_self 2 rfl
      1 (by decide) (by decide)).2 0

end Lifecycle

end Reanalysis
