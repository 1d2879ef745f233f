/-
What a cancellation does to the runs of a worker, and which tokens the worker keeps, over all
orders in which requests, cancellations, turns and work may come.
-/

import Reanalysis.Proofs.IncrementalHistory
import Reanalysis.Proofs.JoinedEndpoints
import Reanalysis.Proofs.Placement
import Reanalysis.Proofs.TokenRegistry

namespace Reanalysis

namespace Ledger

namespace Round

def around (text : String) : FileTree := Analyzer.sources [("a.ts", text)]

variable {σ : Type}

def asking (number id : Nat) : Incident σ :=
  .message (.request ⟨number, Service.runTopic,
    (RunOrder.mk (some (Change.ofFiles [⟨"src/a.ts"⟩] [])) none ⟨id, false⟩).toJson⟩)

def garbled (number : Nat) : Incident σ :=
  .message (.request ⟨number, Service.runTopic, .null⟩)

/-- A run is answered and so is a request that cannot be read; then one run is active and another
one waits. -/
def incidents : List (Incident FileTree) :=
  [asking 1 7, .handler 0 (around "call("), garbled 2, .handler 0 (around "call("),
    .work (around "call("), .work (around "call("), asking 3 8, asking 4 9,
    .handler 0 (around "call("), .handler 0 (around "call(")]

def engine : Analyzer FileTree :=
  Analyzer.builtIn .check ⟨true, 1, none, none, [], [], 80⟩ Analyzer.sourceSelection id
    fun _ => false

def reached : Ledger := (new "check").follow engine incidents

theorem distinct : reached.HasDistinctNumbers := by
  unfold HasDistinctNumbers
  decide +kernel

def breaking : Analyzer Analyzer.Rehearsal :=
  Analyzer.rehearsing Analyzer.sourceSelection Delimiters.analyze (fun text => text == "@(")

def mishap : List (Incident Analyzer.Rehearsal) :=
  [asking 1 7, .handler 0 ⟨around "@(", none⟩, .work ⟨around "@(", none⟩, .writer]

def broken : Ledger := (new "rehearsal").follow breaking mishap

/-- An engine that calls itself cancelled at every file, whatever it was told. -/
def quitting : Analyzer FileTree :=
  { engine with examine := fun _file _text state => (.error (.error .cancelled), state) }

def abandonment : List (Incident FileTree) :=
  [asking 1 7, .handler 0 (around "x"), .work (around "x")]

def abandoned : Ledger := (new "check").follow quitting abandonment

def abandons (run : AskedRun) : Bool :=
  !run.signal.cancelled && !run.cancelled &&
    match run.ending with
    | some (.refused fault) => fault.kind = .cancelled
    | _ => false

end Round

variable {σ : Type} {analyzer : Analyzer σ} {ledger : Ledger}

theorem Sound.held_iff (sound : ledger.Sound analyzer) {token : Token} {run : AskedRun}
    (found : ledger.runs[token.group]? = some run) :
    (run.request, token) ∈ ledger.service.held ledger.due ↔ run.ending = none := by
  rw [sound.mem_held]
  constructor
  · rintro ⟨other, also, _, waits⟩
    rw [found] at also
    cases also
    exact waits
  · exact fun waits => ⟨run, found, rfl, waits⟩

theorem Sound.dispatch_cancel (sound : ledger.Sound analyzer) (payload : Json) :
    ledger.service.dispatch (.notification ⟨Service.cancelTopic, payload⟩) =
      ledger.service.hear ⟨Service.cancelTopic, payload⟩ := by
  have heard : ledger.service.channel.endpoint.heard = Service.endpoint.heard :=
    congrArg Prod.snd sound.topics
  have listens : ledger.service.channel.endpoint.heard.contains
      (Notification.topic ⟨Service.cancelTopic, payload⟩) = true := by
    have listed : Service.endpoint.heard.contains Service.cancelTopic = true := by decide
    rw [heard]
    exact listed
  unfold Service.dispatch
  rw [Service.dispatch_notice listens]
  rfl

theorem Sound.hear_unregistered (sound : ledger.Sound analyzer) {notice : Notification} {id : Nat}
    (read : CancelOrder.ofDocument? notice.payload.document = some ⟨id⟩)
    (gone : ∀ run ∈ ledger.runs, run.signal.id = id → ¬ run.Stays) :
    ledger.service.hear notice = ledger.service := by
  have nowhere : ledger.service.registry.find? (fun entry => entry.1 = id) = none := by
    rw [List.find?_eq_none]
    rintro ⟨number, token⟩ member named
    obtain ⟨run, found, sameNumber, stays⟩ := (sound.mem_registry number token).mp member
    exact gone run (List.mem_of_getElem? found) (sameNumber.trans (of_decide_eq_true named)) stays
  unfold Service.hear
  rw [read]
  dsimp only
  rw [nowhere]

/-- Whatever has come to a worker in whichever order, a cancellation signals the token of the run
that has its number and is not answered yet, wherever the run waits, and no other token; without
such a run it changes nothing. If a run that was not signalled is answered as cancelled, its
engine has given up as cancelled at one of the files. -/
theorem cancellation_hits_its_run (unbroken : analyzer.Unbroken) (engine : String)
    (incidents : List (Incident σ))
    (distinct : ((new engine).follow analyzer incidents).HasDistinctNumbers) :
    let ledger := (new engine).follow analyzer incidents
    let cancel (payload : Json) :=
      ledger.service.dispatch (.notification ⟨Service.cancelTopic, payload⟩)
    (∀ token run, ledger.runs[token.group]? = some run →
      ((run.request, token) ∈ ledger.service.held ledger.due ↔ run.ending = none) ∧
      ledger.service.groups.isRequested token = (run.signal.cancelled || run.cancelled)) ∧
    (∀ payload id, CancelOrder.ofDocument? payload.document = some ⟨id⟩ →
      (∀ token run, ledger.runs[token.group]? = some run → run.signal.id = id →
        run.ending = none → (cancel payload).groups.isRequested token = true) ∧
      (∀ token run, ledger.runs[token.group]? = some run → run.signal.id ≠ id →
        (cancel payload).groups.isRequested token = ledger.service.groups.isRequested token) ∧
      ((∀ run ∈ ledger.runs, run.signal.id = id → run.ending ≠ none) →
        cancel payload = ledger.service)) ∧
    ((∀ state, analyzer.signalled state = false) → ∀ token run fault,
      ledger.runs[token.group]? = some run → run.ending = some (.refused fault) →
      fault.kind = .cancelled → run.signal.cancelled = false → run.cancelled = false →
      ∃ front state rest, incidents = front ++ .work state :: rest ∧
        Service.GivesUp analyzer ((new engine).follow analyzer front).service.active state
          token) := by
  intro ledger cancel
  have sound : ledger.Sound analyzer := (sound_new engine).follow incidents distinct
  have intact {token : Token} {run : AskedRun} (found : ledger.runs[token.group]? = some run) :
      run.Intact := sound.intact unbroken run (List.mem_of_getElem? found)
  have heard (payload : Json) : cancel payload = ledger.service.hear ⟨Service.cancelTopic, payload⟩ :=
    sound.dispatch_cancel payload
  refine ⟨?_, ?_, ?_⟩
  · intro token run found
    exact ⟨sound.held_iff found, sound.signals token run found (intact found)⟩
  · intro payload id read
    have names (number : Nat) :
        Notification.cancels ⟨Service.cancelTopic, payload⟩ number = decide (id = number) := by
      unfold Notification.cancels
      rw [read]
      rfl
    refine ⟨?_, ?_, ?_⟩
    · intro token run found sameNumber waits
      rw [heard, sound.isRequested_hear distinct _ found (intact found), names, waits, sameNumber]
      simp
    · intro token run found other
      rw [heard, sound.isRequested_hear distinct _ found (intact found), names,
        decide_eq_false (fun same => other same.symm), Bool.and_false, Bool.or_false]
    · intro settled
      rw [heard]
      refine sound.hear_unregistered read fun run member sameNumber stays => ?_
      rcases stays with waits | ⟨thrown, broke⟩
      · exact settled run member sameNumber waits
      · exact sound.intact unbroken run member thrown broke
  · intro alone token run fault found ended kind unflagged unheard
    refine (cancelled_or_givesUp alone (sound_new engine) incidents
      (fun _ member => by cases member) distinct found ended kind).resolve_left ?_
    rw [unflagged, unheard]
    exact Bool.false_ne_true

/-- A cancellation for a run that waits signals its token and no other; one for a run that has
been answered changes nothing. An engine that never gives up has not been cancelled. -/
theorem cancellation_hits_waiting_run :
    Round.engine.Unbroken ∧ (∀ state, Round.engine.signalled state = false) ∧
      Round.reached.HasDistinctNumbers ∧ Round.reached.service.waiting.length = 1 ∧
      let cancel (id : Nat) := Round.reached.service.dispatch
        (.notification ⟨Service.cancelTopic, (CancelOrder.mk id).toJson⟩)
      (cancel 9).groups.isRequested ⟨2⟩ = true ∧
      (cancel 9).groups.isRequested ⟨1⟩ = Round.reached.service.groups.isRequested ⟨1⟩ ∧
      cancel 7 = Round.reached.service ∧
      ∃ run ending, Round.reached.runs[0]? = some run ∧ run.ending = some ending ∧
        ∀ fault, ending = .refused fault → fault.kind ≠ .cancelled := by
  have unbroken : Round.engine.Unbroken := Analyzer.unbroken_builtIn
  have alone : ∀ state, Round.engine.signalled state = false := fun _ => rfl
  obtain ⟨_, cancels, gaveUp⟩ :=
    cancellation_hits_its_run unbroken "check" Round.incidents Round.distinct
  have reads : ∀ id ∈ [7, 9],
      CancelOrder.ofDocument? (CancelOrder.mk id).toJson.document = some ⟨id⟩ := by decide +kernel
  have first : (Round.reached.runs[0]?.any fun run =>
      !run.signal.cancelled && !run.cancelled && run.ending.isSome) = true := by decide +kernel
  have second : (Round.reached.runs[1]?.any fun run => run.signal.id = 8) = true := by
    decide +kernel
  have third : (Round.reached.runs[2]?.any fun run =>
      run.signal.id = 9 && run.ending.isNone) = true := by decide +kernel
  have settled : (Round.reached.runs.all fun run =>
      run.signal.id ≠ 7 || run.ending.isSome) = true := by decide +kernel
  obtain ⟨ended, foundFirst, complete⟩ := (Option.any_eq_true _ _).mp first
  obtain ⟨active, foundSecond, number⟩ := (Option.any_eq_true _ _).mp second
  obtain ⟨waiting, foundThird, asked⟩ := (Option.any_eq_true _ _).mp third
  rw [Bool.and_eq_true, Bool.and_eq_true, Bool.not_eq_true', Bool.not_eq_true',
    Option.isSome_iff_exists] at complete
  obtain ⟨⟨unflagged, unheard⟩, ending, settledFirst⟩ := complete
  rw [Bool.and_eq_true, decide_eq_true_eq, Option.isNone_iff_eq_none] at asked
  rw [decide_eq_true_eq] at number
  refine ⟨unbroken, alone, Round.distinct, by decide +kernel, ?_, ?_, ?_, ended, ending, foundFirst,
    settledFirst, ?_⟩
  · exact (cancels _ 9 (reads 9 (by decide))).1 ⟨2⟩ waiting foundThird asked.1 asked.2
  · refine (cancels _ 9 (reads 9 (by decide))).2.1 ⟨1⟩ active foundSecond ?_
    rw [number]
    decide
  · refine (cancels _ 7 (reads 7 (by decide))).2.2 fun run member sameNumber unsettled => ?_
    have known := List.all_eq_true.mp settled run member
    rw [sameNumber, unsettled] at known
    cases known
  · intro fault refused kind
    obtain ⟨_, _, _, _, _, _, _, _, _, _, quits⟩ := gaveUp alone ⟨0⟩ ended fault foundFirst
      (settledFirst.trans (congrArg some refused)) kind unflagged unheard
    cases quits

/-- A run that no one has cancelled is answered as cancelled if its engine calls itself so. -/
theorem engine_may_answer_cancelled :
    Round.quitting.Unbroken ∧ (∀ state, Round.quitting.signalled state = false) ∧
      Round.abandoned.HasDistinctNumbers ∧
      ¬ ∀ run ∈ Round.abandoned.runs, run.signal.cancelled = false → run.cancelled = false →
        ∀ fault, run.ending = some (.refused fault) → fault.kind ≠ .cancelled := by
  refine ⟨fun _file _text _state _thrown same => (by cases same), fun _ => rfl, ?_, ?_⟩
  · unfold HasDistinctNumbers
    decide +kernel
  · intro never
    have some : Round.abandoned.runs.any Round.abandons = true := by decide +kernel
    obtain ⟨run, member, abandons⟩ := List.any_eq_true.mp some
    unfold Round.abandons at abandons
    rw [Bool.and_eq_true, Bool.and_eq_true, Bool.not_eq_true', Bool.not_eq_true'] at abandons
    obtain ⟨⟨unflagged, unheard⟩, refused⟩ := abandons
    split at refused
    · rename_i fault ended
      exact never run member unflagged unheard fault ended (of_decide_eq_true refused)
    · cases refused

/-! ### The registry -/

theorem Sound.mem_numbers (sound : ledger.Sound analyzer) (id : Nat) :
    id ∈ ledger.service.registry.map (·.1) ↔
      ∃ run ∈ ledger.runs, run.signal.id = id ∧ run.Stays := by
  constructor
  · intro member
    obtain ⟨⟨number, token⟩, filed, rfl⟩ := List.mem_map.mp member
    obtain ⟨run, found, rest⟩ := (sound.mem_registry number token).mp filed
    exact ⟨run, List.mem_of_getElem? found, rest⟩
  · rintro ⟨run, member, rest⟩
    obtain ⟨index, found⟩ := List.mem_iff_getElem?.mp member
    exact List.mem_map.mpr ⟨(id, ⟨index⟩), (sound.mem_registry id ⟨index⟩).mpr ⟨run, found, rest⟩,
      rfl⟩

/-- The registry has the numbers of the runs that are not answered, and of those in which the
engine broke off; so it has those of the unanswered runs alone just if no run has broken off. -/
theorem registered_runs (analyzer : Analyzer σ) (engine : String) (incidents : List (Incident σ))
    (distinct : ((new engine).follow analyzer incidents).HasDistinctNumbers) :
    let ledger := (new engine).follow analyzer incidents
    (ledger.service.registry.map (·.1)).Nodup ∧
    (∀ id, id ∈ ledger.service.registry.map (·.1) ↔
      ∃ run ∈ ledger.runs, run.signal.id = id ∧
        (run.ending = none ∨ ∃ thrown, run.ending = some (.broke thrown))) ∧
    ((∀ id, id ∈ ledger.service.registry.map (·.1) ↔
        ∃ run ∈ ledger.runs, run.signal.id = id ∧ run.ending = none) ↔
      ∀ run ∈ ledger.runs, ∀ thrown, run.ending ≠ some (.broke thrown)) ∧
    (analyzer.Unbroken → ∀ run ∈ ledger.runs, ∀ thrown, run.ending ≠ some (.broke thrown)) ∧
    (∀ token run, ledger.runs[token.group]? = some run →
      ((run.request, token) ∈ ledger.service.held ledger.due ↔ run.ending = none)) ∧
    (∀ incident (index : Nat) (run later : AskedRun) ending,
      ledger.runs[index]? = some run → run.ending = none →
      (ledger.step analyzer incident).runs[index]? = some later → later.ending = some ending →
        (ledger.step analyzer incident).service.channel =
          (ledger.service.channel.answer run.request ending).1) := by
  intro ledger
  have sound : ledger.Sound analyzer := (sound_new engine).follow incidents distinct
  refine ⟨sound.registry_nodup, sound.mem_numbers, ?_, sound.intact, ?_, ?_⟩
  · constructor
    · intro alone run member thrown broke
      obtain ⟨other, also, sameNumber, waits⟩ := (alone run.signal.id).mp
        ((sound.mem_numbers run.signal.id).mpr ⟨run, member, rfl, Or.inr ⟨thrown, broke⟩⟩)
      obtain ⟨place, found⟩ := List.mem_iff_getElem?.mp also
      obtain ⟨here, reached⟩ := List.mem_iff_getElem?.mp member
      rw [index_of_number distinct found reached sameNumber, reached] at found
      cases found
      rw [waits] at broke
      cases broke
    · intro intact id
      rw [sound.mem_numbers]
      constructor
      · rintro ⟨run, member, sameNumber, stays⟩
        exact ⟨run, member, sameNumber,
          stays.resolve_right fun ⟨thrown, broke⟩ => intact run member thrown broke⟩
      · rintro ⟨run, member, sameNumber, waits⟩
        exact ⟨run, member, sameNumber, Or.inl waits⟩
  · exact fun token run found => sound.held_iff found
  · exact fun incident index run later ending found waits reached settled =>
      sound.answered_step found waits reached settled

/-- After a run and a request that could not be read have been answered, the numbers of the runs
that are not answered are registered. -/
theorem registered_runs_of_round :
    Round.reached.HasDistinctNumbers ∧
      Round.reached.service.registry.map (·.1) = [9, 8] ∧
      ∀ id, id ∈ Round.reached.service.registry.map (·.1) ↔
        ∃ run ∈ Round.reached.runs, run.signal.id = id ∧ run.ending = none := by
  obtain ⟨_, _, exactly, intact, _⟩ :=
    registered_runs Round.engine "check" Round.incidents Round.distinct
  exact ⟨Round.distinct, by decide +kernel, exactly.mpr (intact Analyzer.unbroken_builtIn)⟩

/-- A run in which the engine breaks off is answered and stays registered. -/
theorem broken_run_stays_registered :
    Round.broken.HasDistinctNumbers ∧
      ((responses Round.broken.service.output).map fun answer => (answer.id, answer.fault)) =
        [(1, some ⟨.engine, "worker: 'run' handler panicked: @("⟩)] ∧
      Round.broken.service.registry = [(7, ⟨0⟩)] ∧
      ¬ ∀ id, id ∈ Round.broken.service.registry.map (·.1) ↔
        ∃ run ∈ Round.broken.runs, run.signal.id = id ∧ run.ending = none := by
  have registry : Round.broken.service.registry = [(7, ⟨0⟩)] := by decide +kernel
  have settled : (Round.broken.runs.all fun run => run.ending.isSome) = true := by decide +kernel
  refine ⟨?_, by decide +kernel, registry, ?_⟩
  · unfold HasDistinctNumbers
    decide +kernel
  · intro exactly
    obtain ⟨run, member, _, unsettled⟩ := (exactly 7).mp (by rw [registry]; decide)
    have known := List.all_eq_true.mp settled run member
    rw [unsettled] at known
    cases known

end Ledger

end Reanalysis
