/-
The tokens that a worker keeps by number, whatever comes in whichever order. A token is kept
from the moment the request is looked at until the run is answered, so a cancellation finds
the run that it is meant for, also while the run waits, and no other. Only a run in which the
engine breaks off leaves its token behind.
-/

import Mathlib.Data.List.Nodup
import Reanalysis.Proofs.RunLedger

namespace Reanalysis

def Endpoint.topics (endpoint : Endpoint) : List String × List String :=
  (endpoint.served, endpoint.heard)

namespace Channel

theorem topics_perform (channel : Channel) (effects : List Effect) :
    (channel.perform effects).1.endpoint.topics = channel.endpoint.topics := by
  rw [(perform_open channel effects).1]

theorem topics_dispatch (channel : Channel) (message : Message) :
    (channel.dispatch message).1.endpoint.topics = channel.endpoint.topics := by
  refine (topics_perform _ _).trans ?_
  cases message with
  | request call => dsimp only; split <;> rfl
  | response answer => dsimp only; split <;> rfl
  | notification notice => rfl

theorem endpoint_wakeWriter (channel : Channel) :
    channel.wakeWriter.endpoint = channel.endpoint := by
  unfold wakeWriter
  dsimp only
  split <;> rfl

theorem topics_close (channel : Channel) (reason : String) :
    (channel.close reason).1.endpoint.topics = channel.endpoint.topics := by
  unfold close
  split
  · rfl
  · refine (topics_perform _ _).trans ?_
    rw [endpoint_wakeWriter]
    dsimp only
    split <;> rfl

theorem topics_takeLine (channel : Channel) (line : List UInt8) :
    (channel.takeLine line).1.endpoint.topics = channel.endpoint.topics := by
  unfold takeLine
  split
  · rfl
  · split
    · rfl
    · rfl
    · exact topics_dispatch channel _
    · exact topics_close channel _

theorem topics_takeLines (channel : Channel) (lines : List (List UInt8)) :
    (channel.takeLines lines).1.endpoint.topics = channel.endpoint.topics := by
  induction lines generalizing channel with
  | nil => rfl
  | cons line rest ih => exact (ih _).trans (topics_takeLine channel line)

theorem topics_feed (channel : Channel) (bytes : List UInt8) :
    (channel.feed bytes).1.endpoint.topics = channel.endpoint.topics :=
  topics_takeLines _ _

theorem topics_endInput (channel : Channel) :
    channel.endInput.1.endpoint.topics = channel.endpoint.topics := by
  unfold endInput
  split
  · rfl
  · exact (topics_close _ _).trans (topics_takeLines _ _)

theorem topics_write (channel : Channel) :
    channel.write.1.endpoint.topics = channel.endpoint.topics := by
  unfold write
  split
  · rfl
  · rfl
  · dsimp only
    split <;> rfl
  · exact topics_close _ _
  · dsimp only
    split <;> rfl

end Channel

theorem map_modify_of_same {α β : Type} {items : List α} {index : Nat} {change : α → α}
    {view : α → β} (same : ∀ item, view (change item) = view item) :
    (items.modify index change).map view = items.map view := by
  apply List.ext_getElem?
  intro other
  rw [List.getElem?_map, List.getElem?_map, List.getElem?_modify]
  cases items[other]? with
  | none => rfl
  | some item => by_cases here : index = other <;> simp [here, same]

theorem getElem?_concat_eq_some {α : Type} {items : List α} {item found : α} {index : Nat} :
    (items ++ [item])[index]? = some found ↔
      items[index]? = some found ∨ index = items.length ∧ item = found := by
  rcases Nat.lt_trichotomy index items.length with before | here | behind
  · rw [List.getElem?_append_left before]
    constructor
    · exact Or.inl
    · rintro (left | ⟨same, _⟩)
      · exact left
      · omega
  · subst here
    simp
  · have missing : items[index]? = none := List.getElem?_eq_none (Nat.le_of_lt behind)
    have beyond : (items ++ [item])[index]? = none :=
      List.getElem?_eq_none (by rw [List.length_append, List.length_singleton]; omega)
    rw [missing, beyond]
    constructor
    · intro same
      cases same
    · rintro (left | ⟨same, _⟩)
      · cases left
      · omega

namespace TokenGroups

theorem numbers_request (groups : TokenGroups) (token : Token) :
    (groups.request token).groups.map (·.id) = groups.groups.map (·.id) :=
  map_modify_of_same fun _ => rfl

end TokenGroups

namespace Ledger

open Service (Paced Pace endingOf queued beginning begunRun?)

def HasDistinctNumbers (ledger : Ledger) : Prop := (ledger.runs.map (·.signal.id)).Nodup

variable {σ : Type}

structure Sound (analyzer : Analyzer σ) (ledger : Ledger) : Prop where
  topics : ledger.service.channel.endpoint.topics = Service.endpoint.topics
  handlers : ledger.due.length = ledger.service.begun.length
  numbers : ledger.service.groups.groups.map (·.id) = ledger.runs.map (·.signal.id)
  signals : ∀ token run, ledger.runs[token.group]? = some run → run.Intact →
    ledger.service.groups.isRequested token = (run.signal.cancelled || run.cancelled)
  held_nodup : ((ledger.service.held ledger.due).map (·.2)).Nodup
  mem_held : ∀ request token, (request, token) ∈ ledger.service.held ledger.due ↔
    ∃ run, ledger.runs[token.group]? = some run ∧ run.request = request ∧ run.ending = none
  registry_nodup : (ledger.service.registry.map (·.1)).Nodup
  mem_registry : ∀ id token, (id, token) ∈ ledger.service.registry ↔
    ∃ run, ledger.runs[token.group]? = some run ∧ run.signal.id = id ∧ run.Stays
  intact : analyzer.Unbroken → ∀ run ∈ ledger.runs, run.Intact

variable {analyzer : Analyzer σ} {ledger next : Ledger}

theorem sound_new (engine : String) : (new engine).Sound analyzer where
  topics := rfl
  handlers := rfl
  numbers := rfl
  signals token run found := by cases found
  held_nodup := List.nodup_nil
  mem_held request token := by
    constructor
    · intro member
      cases member
    · rintro ⟨run, found, _⟩
      cases found
  registry_nodup := List.nodup_nil
  mem_registry id token := by
    constructor
    · intro member
      cases member
    · rintro ⟨run, found, _⟩
      cases found
  intact _ run member := by cases member

theorem index_of_number (distinct : ledger.HasDistinctNumbers) {first second : Nat}
    {run other : AskedRun} (found : ledger.runs[first]? = some run)
    (also : ledger.runs[second]? = some other) (same : run.signal.id = other.signal.id) :
    first = second := by
  have short : first < ledger.runs.length := (List.getElem?_eq_some_iff.mp found).1
  refine (List.getElem?_inj (by rw [List.length_map]; exact short) distinct).mp ?_
  rw [List.getElem?_map, List.getElem?_map, found, also]
  exact congrArg some same

theorem Sound.length_groups (sound : ledger.Sound analyzer) :
    ledger.service.groups.groups.length = ledger.runs.length := by
  have lengths := congrArg List.length sound.numbers
  rwa [List.length_map, List.length_map] at lengths

theorem Sound.number_of_run (sound : ledger.Sound analyzer) {token : Token} {run : AskedRun}
    (found : ledger.runs[token.group]? = some run) :
    (ledger.service.groups.signal token).id = run.signal.id := by
  have numbers := congrArg (·[token.group]?) sound.numbers
  rw [List.getElem?_map, List.getElem?_map, found] at numbers
  obtain ⟨group, known, same⟩ := Option.map_eq_some_iff.mp numbers
  unfold TokenGroups.signal
  rw [List.getD_eq_getElem?_getD, known]
  exact same

theorem Sound.carry (sound : ledger.Sound analyzer) (runs : next.runs = ledger.runs)
    (groups : next.service.groups = ledger.service.groups)
    (registry : next.service.registry = ledger.service.registry)
    (topics : next.service.channel.endpoint.topics = ledger.service.channel.endpoint.topics)
    (handlers : next.due.length = next.service.begun.length)
    (kept : (next.service.held next.due).Perm (ledger.service.held ledger.due)) :
    next.Sound analyzer where
  topics := topics.trans sound.topics
  handlers := handlers
  numbers := by rw [groups, runs]; exact sound.numbers
  signals := by rw [groups, runs]; exact sound.signals
  held_nodup := (kept.map _).nodup_iff.mpr sound.held_nodup
  mem_held request token := by rw [kept.mem_iff, runs]; exact sound.mem_held request token
  registry_nodup := by rw [registry]; exact sound.registry_nodup
  mem_registry := by rw [registry, runs]; exact sound.mem_registry
  intact := by rw [runs]; exact sound.intact

/-! ### Requests and cancellations -/

theorem ofRequest?_eq_some {request : Request} {run : AskedRun}
    (asked : AskedRun.ofRequest? request = some run) :
    run.request = request ∧ run.cancelled = false ∧ run.ending = none := by
  unfold AskedRun.ofRequest? at asked
  split at asked
  · obtain ⟨order, _, rfl⟩ := Option.map_eq_some_iff.mp asked
    exact ⟨rfl, rfl, rfl⟩
  · cases asked

theorem accept_cases (service : Service) (request : Request) :
    (∃ run begun, AskedRun.ofRequest? request = some run ∧
      service.accept request = (service.register run.signal).2.withBegun begun ∧
      begunRun? request begun = some (request, ⟨service.groups.groups.length⟩)) ∨
    (AskedRun.ofRequest? request = none ∧
      ∃ begun, service.accept request = service.withBegun begun ∧
        begunRun? request begun = none) := by
  unfold AskedRun.ofRequest? Service.accept
  dsimp only
  by_cases topic : request.topic = Service.runTopic
  · rw [if_pos topic, if_pos topic]
    cases RunOrder.ofDocument? request.payload.document with
    | none => exact Or.inr ⟨rfl, _, rfl, rfl⟩
    | some order => exact Or.inl ⟨_, _, rfl, rfl, rfl⟩
  · rw [if_neg topic, if_neg topic]
    right
    refine ⟨rfl, ?_⟩
    split
    · split <;> exact ⟨_, rfl, rfl⟩
    · split <;> exact ⟨_, rfl, rfl⟩

theorem handlers_concat {service : Service} {due : List Request} {request : Request}
    {begun : Begun} (handlers : due.length = service.begun.length) :
    (due ++ [request]).length = (service.begun ++ [begun]).length := by
  rw [List.length_append, List.length_append, handlers]
  rfl

theorem held_withBegun (service : Service) (begun : Begun) (request : Request)
    {due : List Request} (handlers : due.length = service.begun.length) :
    (service.withBegun begun).held (due ++ [request]) =
      service.held due ++ (begunRun? request begun).toList := by
  unfold Service.held Service.withBegun beginning
  dsimp only
  rw [List.zip_append handlers, List.filterMap_append, List.append_assoc, List.append_assoc]
  congr 3

/-- A run is asked for under a number that no run had before, and gets the next token. -/
structure Asks (ledger next : Ledger) (run : AskedRun) : Prop where
  unheard : run.cancelled = false
  unsettled : run.ending = none
  fresh : ∀ other ∈ ledger.runs, other.signal.id ≠ run.signal.id
  runs : next.runs = ledger.runs ++ [run]
  groups : next.service.groups = (ledger.service.groups.ofSignal run.signal).2
  registry : next.service.registry = (run.signal.id, ⟨ledger.runs.length⟩) ::
    ledger.service.registry.filter (fun entry => entry.1 ≠ run.signal.id)
  topics : next.service.channel.endpoint.topics = ledger.service.channel.endpoint.topics
  handlers : next.due.length = next.service.begun.length
  held : next.service.held next.due =
    ledger.service.held ledger.due ++ [(run.request, ⟨ledger.runs.length⟩)]

section Asks

variable {run : AskedRun} {token : Token} (asks : ledger.Asks next run)
  (sound : ledger.Sound analyzer)

theorem group_lt_of_found {other : AskedRun} (found : ledger.runs[token.group]? = some other) :
    token.group < ledger.runs.length :=
  (List.getElem?_eq_some_iff.mp found).1

theorem Token.eq_of_group {token other : Token} (same : token.group = other.group) :
    token = other := by
  cases token
  exact congrArg Token.mk same

include asks

theorem Asks.found {index : Nat} {other : AskedRun} :
    next.runs[index]? = some other ↔
      ledger.runs[index]? = some other ∨ index = ledger.runs.length ∧ run = other := by
  rw [asks.runs]
  exact getElem?_concat_eq_some

include sound

theorem Asks.numbers :
    next.service.groups.groups.map (·.id) = next.runs.map (·.signal.id) := by
  rw [asks.groups, asks.runs]
  change (ledger.service.groups.groups ++ [run.signal]).map (·.id) = _
  rw [List.map_append, List.map_append, sound.numbers]
  rfl

theorem Asks.signals {other : AskedRun} (found : next.runs[token.group]? = some other)
    (intact : other.Intact) :
    next.service.groups.isRequested token = (other.signal.cancelled || other.cancelled) := by
  rw [asks.groups]
  rcases asks.found.mp found with before | ⟨here, rfl⟩
  · rw [TokenGroups.isRequested_ofSignal_of_lt _ (sound.length_groups ▸ group_lt_of_found before)]
    exact sound.signals token other before intact
  · have own : token = (ledger.service.groups.ofSignal run.signal).1 :=
      Token.eq_of_group (here.trans sound.length_groups.symm)
    rw [own, TokenGroups.isRequested_ofSignal, asks.unheard, Bool.or_false]

theorem Asks.held_nodup : ((next.service.held next.due).map (·.2)).Nodup := by
  rw [asks.held, List.map_append]
  refine List.nodup_append_comm.mp (List.nodup_cons.mpr ⟨fun member => ?_, sound.held_nodup⟩)
  obtain ⟨⟨request, token⟩, inside, same⟩ := List.mem_map.mp member
  obtain ⟨other, found, _⟩ := (sound.mem_held request token).mp inside
  have before := group_lt_of_found found
  rw [show token = ⟨ledger.runs.length⟩ from same] at before
  exact Nat.lt_irrefl _ before

theorem Asks.mem_held (request : Request) :
    (request, token) ∈ next.service.held next.due ↔
      ∃ other, next.runs[token.group]? = some other ∧ other.request = request ∧
        other.ending = none := by
  rw [asks.held, List.mem_append, List.mem_singleton, sound.mem_held]
  constructor
  · rintro (⟨other, found, rest⟩ | same)
    · exact ⟨other, asks.found.mpr (Or.inl found), rest⟩
    · cases same
      exact ⟨run, asks.found.mpr (Or.inr ⟨rfl, rfl⟩), rfl, asks.unsettled⟩
  · rintro ⟨other, found, sameRequest, waits⟩
    rcases asks.found.mp found with before | ⟨here, rfl⟩
    · exact Or.inl ⟨other, before, sameRequest, waits⟩
    · exact Or.inr (by rw [@Token.eq_of_group token ⟨ledger.runs.length⟩ here, sameRequest])

theorem Asks.registry_nodup : (next.service.registry.map (·.1)).Nodup := by
  rw [asks.registry, List.map_cons, List.nodup_cons]
  constructor
  · intro member
    obtain ⟨entry, inside, same⟩ := List.mem_map.mp member
    have apart := (List.mem_filter.mp inside).2
    rw [decide_eq_true_eq] at apart
    exact apart same
  · exact sound.registry_nodup.sublist (List.filter_sublist.map _)

theorem Asks.mem_registry (id : Nat) :
    (id, token) ∈ next.service.registry ↔
      ∃ other, next.runs[token.group]? = some other ∧ other.signal.id = id ∧ other.Stays := by
  rw [asks.registry, List.mem_cons, List.mem_filter, sound.mem_registry, decide_eq_true_eq]
  constructor
  · rintro (same | ⟨⟨other, found, rest⟩, _⟩)
    · cases same
      exact ⟨run, asks.found.mpr (Or.inr ⟨rfl, rfl⟩), rfl, Or.inl asks.unsettled⟩
    · exact ⟨other, asks.found.mpr (Or.inl found), rest⟩
  · rintro ⟨other, found, sameNumber, stays⟩
    rcases asks.found.mp found with before | ⟨here, rfl⟩
    · refine Or.inr ⟨⟨other, before, sameNumber, stays⟩, ?_⟩
      rw [← sameNumber]
      exact asks.fresh other (List.mem_of_getElem? before)
    · exact Or.inl (by rw [@Token.eq_of_group token ⟨ledger.runs.length⟩ here, sameNumber])

theorem Asks.intact (unbroken : analyzer.Unbroken) {other : AskedRun}
    (member : other ∈ next.runs) : other.Intact := by
  rw [asks.runs] at member
  rcases List.mem_append.mp member with before | own
  · exact sound.intact unbroken other before
  · rw [List.mem_singleton.mp own]
    intro thrown broke
    rw [asks.unsettled] at broke
    cases broke

theorem Sound.ask : next.Sound analyzer where
  topics := asks.topics.trans sound.topics
  handlers := asks.handlers
  numbers := asks.numbers sound
  signals _token _other found intact := asks.signals sound found intact
  held_nodup := asks.held_nodup sound
  mem_held request _token := asks.mem_held sound request
  registry_nodup := asks.registry_nodup sound
  mem_registry id _token := asks.mem_registry sound id
  intact unbroken _other member := asks.intact sound unbroken member

end Asks

theorem Sound.accept (sound : ledger.Sound analyzer) (request : Request)
    (distinct : (ledger.heed (.accept request)).HasDistinctNumbers) :
    (ledger.heed (.accept request)).Sound analyzer := by
  rcases accept_cases ledger.service request with
    ⟨run, begun, asked, accepted, holds⟩ | ⟨other, begun, accepted, holds⟩
  · obtain ⟨rfl, unheard, unsettled⟩ := ofRequest?_eq_some asked
    have runs : (ledger.heed (.accept run.request)).runs = ledger.runs ++ [run] :=
      congrArg (ledger.runs ++ Option.toList ·) asked
    have fresh : ∀ other ∈ ledger.runs, other.signal.id ≠ run.signal.id := by
      unfold HasDistinctNumbers at distinct
      rw [runs, List.map_append, List.map_singleton] at distinct
      have apart := (List.nodup_append.mp distinct).2.2
      exact fun other member => apart _ (List.mem_map_of_mem member) _ List.mem_cons_self
    have same : (ledger.heed (.accept run.request)).service =
        (ledger.service.register run.signal).2.withBegun begun := accepted
    refine Sound.ask ⟨unheard, unsettled, fresh, runs, ?_, ?_, ?_, ?_, ?_⟩ sound
    · rw [same]; rfl
    · rw [same, ← sound.length_groups]; rfl
    · rw [same]; rfl
    · rw [same]; exact handlers_concat sound.handlers
    · rw [same, ← sound.length_groups]
      refine (held_withBegun _ _ _ sound.handlers).trans ?_
      rw [holds]
      rfl
  · have same : (ledger.heed (.accept request)).service = ledger.service.withBegun begun :=
      accepted
    refine sound.carry ?_ ?_ ?_ ?_ ?_ ?_
    · change ledger.runs ++ (AskedRun.ofRequest? request).toList = _
      rw [other]
      exact List.append_nil _
    · rw [same]; rfl
    · rw [same]; rfl
    · rw [same]; rfl
    · rw [same]; exact handlers_concat sound.handlers
    · rw [same]
      change ((ledger.service.withBegun begun).held (ledger.due ++ [request])).Perm _
      rw [held_withBegun _ _ _ sound.handlers, holds]
      exact .of_eq (List.append_nil _)

/-- A cancellation finds the token of the run that it names, if the run is not answered yet. -/
theorem Sound.isRequested_hear (sound : ledger.Sound analyzer)
    (distinct : ledger.HasDistinctNumbers) (notice : Notification) {token : Token}
    {run : AskedRun} (found : ledger.runs[token.group]? = some run) (intact : run.Intact) :
    (ledger.service.hear notice).groups.isRequested token =
      (ledger.service.groups.isRequested token ||
        (run.ending.isNone && notice.cancels run.signal.id)) := by
  unfold Service.hear Notification.cancels
  cases CancelOrder.ofDocument? notice.payload.document with
  | none => rw [Option.any_none, Bool.and_false, Bool.or_false]
  | some order =>
      rw [Option.any_some]
      dsimp only
      cases located : ledger.service.registry.find? (fun entry => entry.1 = order.token) with
      | none =>
          have unnamed : (run.ending.isNone && decide (order.token = run.signal.id)) = false := by
            rw [Bool.eq_false_iff]
            intro named
            rw [Bool.and_eq_true, Option.isNone_iff_eq_none, decide_eq_true_eq] at named
            have filed := (sound.mem_registry run.signal.id token).mpr
              ⟨run, found, rfl, Or.inl named.1⟩
            exact List.find?_eq_none.mp located _ filed (decide_eq_true named.2.symm)
          rw [unnamed, Bool.or_false]
      | some entry =>
          obtain ⟨id, target⟩ := entry
          have fits := List.find?_some located
          have number : id = order.token := of_decide_eq_true fits
          subst number
          obtain ⟨other, reached, sameNumber, stays⟩ :=
            (sound.mem_registry _ _).mp (List.mem_of_find?_eq_some located)
          have known : target.group < ledger.service.groups.groups.length := by
            rw [sound.length_groups]
            exact (List.getElem?_eq_some_iff.mp reached).1
          change (ledger.service.groups.request target).isRequested token = _
          rw [TokenGroups.isRequested_request known]
          congr 1
          rw [Bool.eq_iff_iff, decide_eq_true_eq, Bool.and_eq_true, Option.isNone_iff_eq_none,
            decide_eq_true_eq]
          constructor
          · rintro rfl
            have same : other = run := Option.some.inj (reached.symm.trans found)
            subst same
            exact ⟨stays.resolve_right fun ⟨thrown, broke⟩ => intact thrown broke, sameNumber.symm⟩
          · rintro ⟨_, named⟩
            have place := index_of_number distinct reached found (sameNumber.trans named)
            cases target
            cases token
            exact congrArg Token.mk place

theorem hear_else (service : Service) (notice : Notification) :
    ∃ groups : TokenGroups, service.hear notice = { service with groups := groups } ∧
      groups.groups.map (·.id) = service.groups.groups.map (·.id) := by
  unfold Service.hear
  split
  · exact ⟨_, rfl, rfl⟩
  · split
    · exact ⟨_, rfl, rfl⟩
    · exact ⟨_, rfl, TokenGroups.numbers_request _ _⟩

theorem runs_hear {notice : Notification} {index : Nat} {heard : AskedRun} :
    (ledger.heed (.hear notice)).runs[index]? = some heard ↔
      ∃ run, ledger.runs[index]? = some run ∧ run.hear notice = heard := by
  change (ledger.runs.map (AskedRun.hear notice))[index]? = some heard ↔ _
  rw [List.getElem?_map]
  exact Option.map_eq_some_iff

theorem Sound.hear (sound : ledger.Sound analyzer) (notice : Notification)
    (distinct : ledger.HasDistinctNumbers) : (ledger.heed (.hear notice)).Sound analyzer := by
  obtain ⟨groups, same, numbers⟩ := hear_else ledger.service notice
  have heard : (ledger.heed (.hear notice)).service = { ledger.service with groups := groups } :=
    same
  have registry : (ledger.heed (.hear notice)).service.registry = ledger.service.registry := by
    rw [heard]
  have held : (ledger.heed (.hear notice)).service.held (ledger.heed (.hear notice)).due =
      ledger.service.held ledger.due := by
    rw [heard]
    rfl
  constructor
  case topics => rw [heard]; exact sound.topics
  case handlers => rw [heard]; exact sound.handlers
  case numbers =>
    rw [heard]
    refine (numbers.trans sound.numbers).trans ?_
    change _ = (ledger.runs.map (AskedRun.hear notice)).map (·.signal.id)
    rw [List.map_map]
    rfl
  case signals =>
    intro token heard found intact
    obtain ⟨run, before, rfl⟩ := runs_hear.mp found
    have kept : run.Intact := intact
    refine (sound.isRequested_hear distinct notice before kept).trans ?_
    rw [sound.signals token run before kept, Bool.or_assoc]
    rfl
  case held_nodup => rw [held]; exact sound.held_nodup
  case mem_held =>
    intro request token
    rw [held, sound.mem_held]
    constructor
    · rintro ⟨run, found, rest⟩
      exact ⟨run.hear notice, runs_hear.mpr ⟨run, found, rfl⟩, rest⟩
    · rintro ⟨heard, found, rest⟩
      obtain ⟨run, before, rfl⟩ := runs_hear.mp found
      exact ⟨run, before, rest⟩
  case registry_nodup => rw [registry]; exact sound.registry_nodup
  case mem_registry =>
    intro id token
    rw [registry, sound.mem_registry]
    constructor
    · rintro ⟨run, found, rest⟩
      exact ⟨run.hear notice, runs_hear.mpr ⟨run, found, rfl⟩, rest⟩
    · rintro ⟨heard, found, rest⟩
      obtain ⟨run, before, rfl⟩ := runs_hear.mp found
      exact ⟨run, before, rest⟩
  case intact =>
    intro unbroken heard member
    obtain ⟨run, inside, rfl⟩ := List.mem_map.mp member
    exact sound.intact unbroken run inside

/-! ### Units of work -/

theorem kind_of_endingOf {stop : Option Failure} {memory : Memory} {fault : Fault}
    (ends : endingOf stop memory = .refused fault) (kind : fault.kind = .cancelled) :
    stop = some (.error .cancelled) := by
  cases stop with
  | none => cases ends
  | some failure =>
      cases failure with
      | broke thrown => cases ends
      | error cause =>
          cases ends
          change cause.kind = .cancelled at kind
          cases cause <;> first | rfl | cases kind

theorem broke_of_endingOf {stop : Option Failure} {memory : Memory} {thrown : Thrown}
    (ends : endingOf stop memory = .broke thrown) : stop = some (.broke thrown) := by
  cases stop with
  | none => cases ends
  | some failure =>
      cases failure with
      | broke cause => cases ends; rfl
      | error cause => cases ends

theorem runs_modify {runs : List AskedRun} {place index : Nat} {run later : AskedRun}
    {change : AskedRun → AskedRun} (found : runs[place]? = some run) :
    (runs.modify place change)[index]? = some later ↔
      index = place ∧ change run = later ∨ index ≠ place ∧ runs[index]? = some later := by
  rw [List.getElem?_modify]
  by_cases here : place = index
  · subst here
    rw [found]
    simp
  · have there : index ≠ place := fun same => here same.symm
    simp [here, there]

theorem mem_registryAfter {service : Service} {token : Token} {stop : Option Failure}
    {memory : Memory} {id : Nat} {target : Token} :
    (id, target) ∈ service.registryAfter token stop ↔
      (id, target) ∈ service.registry ∧
        ((∃ thrown, endingOf stop memory = .broke thrown) ∨ id ≠ (service.groups.signal token).id) := by
  have filtered (unbroken : ∀ thrown, endingOf stop memory ≠ .broke thrown) :
      (id, target) ∈ service.registry.filter
        (fun entry => entry.1 ≠ (service.groups.signal token).id) ↔
      (id, target) ∈ service.registry ∧
        ((∃ thrown, endingOf stop memory = .broke thrown) ∨
          id ≠ (service.groups.signal token).id) := by
    rw [List.mem_filter, decide_eq_true_eq]
    refine and_congr_right fun _ => ⟨Or.inr, fun either => either.resolve_left ?_⟩
    rintro ⟨thrown, broke⟩
    exact unbroken thrown broke
  unfold Service.registryAfter
  cases stop with
  | none => exact filtered (fun thrown broke => by cases broke)
  | some failure =>
      cases failure with
      | error cause => exact filtered (fun thrown broke => by cases broke)
      | broke thrown => exact ⟨fun member => ⟨member, Or.inl ⟨thrown, rfl⟩⟩, And.left⟩

theorem registryAfter_sublist (service : Service) (token : Token) (stop : Option Failure) :
    (service.registryAfter token stop).Sublist service.registry := by
  unfold Service.registryAfter
  split
  · exact List.Sublist.refl _
  · exact List.filter_sublist

theorem numbers_settle (later : List Request) (pace : Pace) :
    (ledger.settle later pace).runs.map (·.signal.id) = ledger.runs.map (·.signal.id) := by
  cases pace with
  | on next => rfl
  | finished last request token stop =>
      have same (ending : Ending) :
          (ledger.runs.modify token.group (AskedRun.settle ending)).map (·.signal.id) =
            ledger.runs.map (·.signal.id) := map_modify_of_same fun _ => rfl
      exact same _

section Finished

variable {last : Service} {request : Request} {token : Token} {stop : Option Failure}
  {later : List Request} {run : AskedRun}

theorem runs_finished {index : Nat} {ended : AskedRun}
    (found : ledger.runs[token.group]? = some run) :
    (ledger.settle later (.finished last request token stop)).runs[index]? = some ended ↔
      index = token.group ∧ run.settle (endingOf stop last.memory) = ended ∨
        index ≠ token.group ∧ ledger.runs[index]? = some ended :=
  runs_modify found

theorem service_finished :
    (ledger.settle later (.finished last request token stop)).service =
      { last with
        memory := (Analyzer.conclude stop last.memory).2
        active := none
        registry := last.registryAfter token stop
        channel := (last.channel.answer request (endingOf stop last.memory)).1 } :=
  Service.endRun_eq last request token stop

variable (alike : ledger.service.Alike last)
  (kept : ((request, token) :: (last.endRun request token stop).held later).Perm
    (ledger.service.held ledger.due)) (sound : ledger.Sound analyzer)
include sound

include kept in
/-- The run that comes to its end was not answered before. -/
theorem Sound.exists_finishing :
    ∃ run, ledger.runs[token.group]? = some run ∧ run.request = request ∧ run.ending = none :=
  (sound.mem_held request token).mp (kept.mem_iff.mp List.mem_cons_self)

include kept in
theorem Sound.held_nodup_finished :
    token ∉ ((last.endRun request token stop).held later).map (·.2) ∧
      (((last.endRun request token stop).held later).map (·.2)).Nodup := by
  have once := (kept.map (·.2)).nodup_iff.mpr sound.held_nodup
  rwa [List.map_cons, List.nodup_cons] at once

include alike in
theorem Sound.signals_finished (found : ledger.runs[token.group]? = some run)
    (waits : run.ending = none) (target : Token) (ended : AskedRun)
    (reached : (ledger.settle later (.finished last request token stop)).runs[target.group]? =
      some ended) (intact : ended.Intact) :
    (ledger.settle later (.finished last request token stop)).service.groups.isRequested target =
      (ended.signal.cancelled || ended.cancelled) := by
  rw [service_finished]
  dsimp only
  rw [alike.groups]
  rcases (runs_finished found).mp reached with ⟨here, rfl⟩ | ⟨_, before⟩
  · rw [Token.eq_of_group here]
    exact sound.signals token run found fun thrown broke => by rw [waits] at broke; cases broke
  · exact sound.signals target ended before intact

include kept in
theorem Sound.mem_held_finished (found : ledger.runs[token.group]? = some run)
    (other : Request) (target : Token) :
    (other, target) ∈ (last.endRun request token stop).held later ↔
      ∃ ended, (ledger.settle later
        (.finished last request token stop)).runs[target.group]? = some ended ∧
          ended.request = other ∧ ended.ending = none := by
  constructor
  · intro member
    obtain ⟨ended, before, rest⟩ :=
      (sound.mem_held other target).mp (kept.mem_iff.mp (List.mem_cons_of_mem _ member))
    refine ⟨ended, (runs_finished found).mpr (Or.inr ⟨fun here => ?_, before⟩), rest⟩
    cases Token.eq_of_group here
    exact (sound.held_nodup_finished kept).1 (List.mem_map.mpr ⟨_, member, rfl⟩)
  · rintro ⟨ended, reached, sameOther, unsettled⟩
    rcases (runs_finished found).mp reached with ⟨_, rfl⟩ | ⟨apart, before⟩
    · cases unsettled
    · have member := kept.mem_iff.mpr
        ((sound.mem_held other target).mpr ⟨ended, before, sameOther, unsettled⟩)
      rcases List.mem_cons.mp member with same | inRest
      · cases same
        exact absurd rfl apart
      · exact inRest

include alike in
theorem Sound.registry_nodup_finished : ((last.registryAfter token stop).map (·.1)).Nodup := by
  refine sound.registry_nodup.sublist (List.Sublist.map _ ?_)
  rw [← alike.registry]
  exact registryAfter_sublist last token stop

include alike in
theorem Sound.mem_registry_finished (distinct : ledger.HasDistinctNumbers)
    (found : ledger.runs[token.group]? = some run) (waits : run.ending = none) (id : Nat)
    (target : Token) :
    (id, target) ∈ last.registryAfter token stop ↔
      ∃ ended, (ledger.settle later
        (.finished last request token stop)).runs[target.group]? = some ended ∧
          ended.signal.id = id ∧ ended.Stays := by
  have number : (last.groups.signal token).id = run.signal.id := by
    rw [alike.groups]
    exact sound.number_of_run found
  rw [@mem_registryAfter last token stop last.memory, number, alike.registry, sound.mem_registry]
  constructor
  · rintro ⟨⟨ended, before, sameNumber, stays⟩, either⟩
    by_cases here : target.group = token.group
    · rw [here] at before
      cases before.symm.trans found
      rcases either with ⟨thrown, broke⟩ | other
      · exact ⟨_, (runs_finished found).mpr (Or.inl ⟨here, rfl⟩), sameNumber,
          Or.inr ⟨thrown, congrArg some broke⟩⟩
      · exact absurd sameNumber.symm other
    · exact ⟨ended, (runs_finished found).mpr (Or.inr ⟨here, before⟩), sameNumber, stays⟩
  · rintro ⟨ended, reached, sameNumber, stays⟩
    rcases (runs_finished found).mp reached with ⟨here, rfl⟩ | ⟨apart, before⟩
    · rcases stays with unsettled | ⟨thrown, broke⟩
      · cases unsettled
      · exact ⟨⟨run, by rw [here]; exact found, sameNumber, Or.inl waits⟩,
          Or.inl ⟨thrown, Option.some.inj broke⟩⟩
    · refine ⟨⟨ended, before, sameNumber, stays⟩, Or.inr fun same => apart ?_⟩
      exact index_of_number distinct before found (sameNumber.trans same)

theorem Sound.intact_finished {active : Option ActiveRun} {state : σ}
    (excused : Service.Excused analyzer ledger.service.groups active state token stop)
    (found : ledger.runs[token.group]? = some run) (unbroken : analyzer.Unbroken)
    (ended : AskedRun)
    (member : ended ∈ (ledger.settle later (.finished last request token stop)).runs) :
    ended.Intact := by
  obtain ⟨index, reached⟩ := List.mem_iff_getElem?.mp member
  rcases (runs_finished found).mp reached with ⟨_, rfl⟩ | ⟨_, before⟩
  · intro thrown broke
    exact excused.broke thrown (broke_of_endingOf (Option.some.inj broke)) unbroken
  · exact sound.intact unbroken ended (List.mem_of_getElem? before)

theorem Sound.finished {active : Option ActiveRun} {state : σ}
    (distinct : ledger.HasDistinctNumbers) (alike : ledger.service.Alike last)
    (handlers : later.length = last.begun.length)
    (kept : ((request, token) :: (last.endRun request token stop).held later).Perm
      (ledger.service.held ledger.due))
    (excused : Service.Excused analyzer ledger.service.groups active state token stop) :
    (ledger.settle later (.finished last request token stop)).Sound analyzer := by
  obtain ⟨run, found, _sameRequest, waits⟩ := sound.exists_finishing kept
  constructor
  case topics =>
    rw [service_finished]
    dsimp only
    rw [Service.answer_endpoint, alike.channel]
    exact sound.topics
  case handlers => rw [service_finished]; exact handlers
  case numbers =>
    rw [service_finished]
    dsimp only
    rw [alike.groups, sound.numbers]
    exact (numbers_settle later _).symm
  case signals => exact sound.signals_finished alike found waits
  case held_nodup => exact (sound.held_nodup_finished kept).2
  case mem_held => exact sound.mem_held_finished kept found
  case registry_nodup => rw [service_finished]; exact sound.registry_nodup_finished alike
  case mem_registry =>
    rw [service_finished]
    exact sound.mem_registry_finished alike distinct found waits
  case intact => exact sound.intact_finished excused found

end Finished

theorem Sound.settle (sound : ledger.Sound analyzer) (distinct : ledger.HasDistinctNumbers)
    {active : Option ActiveRun} {state : σ} {later : List Request} {pace : Pace}
    (paced : Paced analyzer ledger.service active state ledger.due later pace) :
    (ledger.settle later pace).Sound analyzer := by
  cases paced with
  | on next alike handlers kept =>
      exact sound.carry rfl alike.groups alike.registry
        (congrArg (·.endpoint.topics) alike.channel) handlers kept
  | answered next request ending alike handlers kept =>
      have answered : (ledger.settle later (.on (next.answer request ending))).service =
          { next with channel := (next.channel.answer request ending).1 } :=
        Service.answer_eq _ _ _
      refine sound.carry rfl ?_ ?_ ?_ ?_ ?_
      · rw [answered]; exact alike.groups
      · rw [answered]; exact alike.registry
      · rw [answered]
        dsimp only
        rw [Service.answer_endpoint, alike.channel]
      · rw [answered]; exact handlers
      · rw [answered]; exact kept
  | finished last request token stop alike handlers kept excused =>
      exact sound.finished distinct alike handlers kept excused

/-! ### Every order of incidents -/

theorem numbers_heed (ledger : Ledger) (effect : ChannelEffect) :
    ledger.runs.map (·.signal.id) <+: (ledger.heed effect).runs.map (·.signal.id) := by
  cases effect with
  | accept request =>
      change _ <+: (ledger.runs ++ (AskedRun.ofRequest? request).toList).map (·.signal.id)
      rw [List.map_append]
      exact List.prefix_append _ _
  | hear notice =>
      change _ <+: (ledger.runs.map (AskedRun.hear notice)).map (·.signal.id)
      rw [List.map_map]
      exact List.prefix_refl _
  | write message => exact List.prefix_refl _
  | settle call outcome => exact List.prefix_refl _
  | endStream => exact List.prefix_refl _

theorem numbers_foldl_heed (ledger : Ledger) (effects : List ChannelEffect) :
    ledger.runs.map (·.signal.id) <+: (effects.foldl heed ledger).runs.map (·.signal.id) := by
  induction effects generalizing ledger with
  | nil => exact List.prefix_refl _
  | cons effect rest ih => exact (numbers_heed ledger effect).trans (ih _)

theorem numbers_act (ledger : Ledger) (step : Channel × List ChannelEffect) :
    ledger.runs.map (·.signal.id) <+: (ledger.act step).runs.map (·.signal.id) :=
  numbers_foldl_heed { ledger with service := { ledger.service with channel := step.1 } } step.2

theorem numbers_step (ledger : Ledger) (incident : Incident σ) :
    ledger.runs.map (·.signal.id) <+:
      (ledger.step analyzer incident).runs.map (·.signal.id) := by
  cases incident with
  | message message => exact numbers_act ledger _
  | bytes bytes => exact numbers_act ledger _
  | endInput => exact numbers_act ledger _
  | writer => exact numbers_act ledger _
  | handler index state =>
      unfold step
      dsimp only
      cases ledger.due[index]? with
      | none => exact List.prefix_refl _
      | some request => exact ⟨[], (List.append_nil _).trans (numbers_settle _ _).symm⟩
  | work state => exact ⟨[], (List.append_nil _).trans (numbers_settle _ _).symm⟩

theorem HasDistinctNumbers.before (distinct : next.HasDistinctNumbers)
    (grown : ledger.runs.map (·.signal.id) <+: next.runs.map (·.signal.id)) :
    ledger.HasDistinctNumbers :=
  distinct.sublist grown.sublist

theorem Sound.heed (sound : ledger.Sound analyzer) (effect : ChannelEffect)
    (distinct : (ledger.heed effect).HasDistinctNumbers) :
    (ledger.heed effect).Sound analyzer := by
  cases effect with
  | accept request => exact sound.accept request distinct
  | hear notice => exact sound.hear notice (distinct.before (numbers_heed ledger (.hear notice)))
  | write message => exact sound.carry rfl rfl rfl rfl sound.handlers (List.Perm.refl _)
  | settle call outcome => exact sound
  | endStream => exact sound

theorem Sound.act (sound : ledger.Sound analyzer) (step : Channel × List ChannelEffect)
    (topics : step.1.endpoint.topics = ledger.service.channel.endpoint.topics)
    (distinct : (ledger.act step).HasDistinctNumbers) : (ledger.act step).Sound analyzer := by
  obtain ⟨channel, effects⟩ := step
  unfold Ledger.act at distinct ⊢
  have start : Sound analyzer { ledger with service := { ledger.service with channel := channel } } :=
    sound.carry rfl rfl rfl topics sound.handlers (List.Perm.refl _)
  dsimp only at distinct ⊢
  generalize { ledger with service := { ledger.service with channel := channel } } = begun
    at distinct start ⊢
  clear topics
  induction effects generalizing begun with
  | nil => exact start
  | cons effect rest ih =>
      exact ih _ distinct (start.heed effect (distinct.before (numbers_foldl_heed _ rest)))

theorem Sound.step (sound : ledger.Sound analyzer) (incident : Incident σ)
    (distinct : (ledger.step analyzer incident).HasDistinctNumbers) :
    (ledger.step analyzer incident).Sound analyzer := by
  cases incident with
  | message message => exact sound.act _ (Channel.topics_dispatch _ _) distinct
  | bytes bytes => exact sound.act _ (Channel.topics_feed _ _) distinct
  | endInput => exact sound.act _ (Channel.topics_endInput _) distinct
  | writer => exact sound.act _ (Channel.topics_write _) distinct
  | handler index state =>
      have before := distinct.before (numbers_step ledger (.handler index state))
      unfold Ledger.step
      dsimp only
      cases turn : ledger.due[index]? with
      | none => exact sound
      | some request => exact sound.settle before (Service.paced_handler sound.handlers turn state)
  | work state =>
      exact sound.settle (distinct.before (numbers_step ledger (.work state)))
        (Service.paced_advance sound.handlers)

theorem numbers_follow (ledger : Ledger) (incidents : List (Incident σ)) :
    ledger.runs.map (·.signal.id) <+:
      (ledger.follow analyzer incidents).runs.map (·.signal.id) := by
  induction incidents generalizing ledger with
  | nil => exact List.prefix_refl _
  | cons incident rest ih => exact (numbers_step ledger incident).trans (ih _)

/-- Whatever happens in whichever order, as long as no two runs have one number. -/
theorem Sound.follow (sound : ledger.Sound analyzer) (incidents : List (Incident σ))
    (distinct : (ledger.follow analyzer incidents).HasDistinctNumbers) :
    (ledger.follow analyzer incidents).Sound analyzer := by
  induction incidents generalizing ledger with
  | nil => exact sound
  | cons incident rest ih =>
      exact ih (sound.step incident (distinct.before (numbers_follow _ rest))) distinct

/-- A run that was not answered yet is over now and has its answer; `active` is the run that was
going on. -/
def Settles (analyzer : Analyzer σ) (ledger next : Ledger) (active : Option ActiveRun) (state : σ)
    (index : Nat) (later : AskedRun) : Prop :=
  ∃ run stop memory, ledger.runs[index]? = some run ∧ run.ending = none ∧
    later = run.settle (endingOf stop memory) ∧
    next.service.channel =
      (ledger.service.channel.answer run.request (endingOf stop memory)).1 ∧
    Service.Excused analyzer ledger.service.groups active state ⟨index⟩ stop

theorem settled_heed {index : Nat} {later : AskedRun} {ending : Ending} (effect : ChannelEffect)
    (reached : (ledger.heed effect).runs[index]? = some later)
    (settled : later.ending = some ending) : ledger.runs[index]? = some later := by
  cases effect with
  | accept request =>
      change (ledger.runs ++ (AskedRun.ofRequest? request).toList)[index]? = some later at reached
      cases asked : AskedRun.ofRequest? request with
      | none => rwa [asked, Option.toList_none, List.append_nil] at reached
      | some run =>
          rw [asked, Option.toList_some] at reached
          rcases getElem?_concat_eq_some.mp reached with before | ⟨_, rfl⟩
          · exact before
          · rw [(ofRequest?_eq_some asked).2.2] at settled
            cases settled
  | hear notice =>
      obtain ⟨run, before, rfl⟩ := runs_hear.mp reached
      obtain ⟨request, signal, cancelled, last⟩ := run
      have ended : last = some ending := settled
      subst ended
      rw [before]
      change some _ = some (AskedRun.mk request signal (cancelled || false) (some ending))
      rw [Bool.or_false]
  | write message => exact reached
  | settle call outcome => exact reached
  | endStream => exact reached

theorem settled_foldl_heed {index : Nat} {later : AskedRun} {ending : Ending}
    (effects : List ChannelEffect)
    (reached : (effects.foldl heed ledger).runs[index]? = some later)
    (settled : later.ending = some ending) : ledger.runs[index]? = some later := by
  induction effects generalizing ledger with
  | nil => exact reached
  | cons effect rest ih => exact settled_heed effect (ih reached) settled

theorem Sound.settled_settle (sound : ledger.Sound analyzer) {active : Option ActiveRun}
    {state : σ} {requests : List Request} {pace : Pace}
    (paced : Paced analyzer ledger.service active state ledger.due requests pace)
    {index : Nat} {later : AskedRun}
    (reached : (ledger.settle requests pace).runs[index]? = some later) :
    ledger.runs[index]? = some later ∨
      Settles analyzer ledger (ledger.settle requests pace) active state index later := by
  cases paced with
  | on next alike handlers kept => exact Or.inl reached
  | answered next request other alike handlers kept => exact Or.inl reached
  | finished last request token stop alike handlers kept excused =>
      obtain ⟨run, found, sameRequest, waits⟩ := sound.exists_finishing kept
      rcases (runs_finished found).mp reached with ⟨rfl, rfl⟩ | ⟨_, before⟩
      · refine Or.inr ⟨run, stop, last.memory, found, waits, rfl, ?_, excused⟩
        rw [service_finished, sameRequest, ← alike.channel]
      · exact Or.inl before

theorem Sound.settled_step (sound : ledger.Sound analyzer) {incident : Incident σ}
    {index : Nat} {later : AskedRun} {ending : Ending}
    (reached : (ledger.step analyzer incident).runs[index]? = some later)
    (settled : later.ending = some ending) :
    ledger.runs[index]? = some later ∨
      (∃ state, Settles analyzer ledger (ledger.step analyzer incident) none state index later) ∨
      ∃ state, incident = .work state ∧
        Settles analyzer ledger (ledger.step analyzer incident) ledger.service.active state index
          later := by
  have silent (step : Channel × List ChannelEffect)
      (acted : (ledger.act step).runs[index]? = some later) : ledger.runs[index]? = some later :=
    @settled_foldl_heed { ledger with service := { ledger.service with channel := step.1 } } index
      later ending step.2 acted settled
  cases incident with
  | message message => exact Or.inl (silent _ reached)
  | bytes bytes => exact Or.inl (silent _ reached)
  | endInput => exact Or.inl (silent _ reached)
  | writer => exact Or.inl (silent _ reached)
  | handler place state =>
      unfold Ledger.step at reached ⊢
      dsimp only at reached ⊢
      cases turn : ledger.due[place]? with
      | none =>
          rw [turn] at reached
          exact Or.inl reached
      | some request =>
          rw [turn] at reached
          rcases sound.settled_settle (Service.paced_handler sound.handlers turn state) reached with
            before | settles
          · exact Or.inl before
          · exact Or.inr (Or.inl ⟨state, settles⟩)
  | work state =>
      rcases sound.settled_settle (Service.paced_advance sound.handlers) reached with
        before | settles
      · exact Or.inl before
      · exact Or.inr (Or.inr ⟨state, rfl, settles⟩)

theorem Sound.answered_step (sound : ledger.Sound analyzer) {incident : Incident σ}
    {index : Nat} {run later : AskedRun} {ending : Ending}
    (found : ledger.runs[index]? = some run) (waits : run.ending = none)
    (reached : (ledger.step analyzer incident).runs[index]? = some later)
    (settled : later.ending = some ending) :
    (ledger.step analyzer incident).service.channel =
      (ledger.service.channel.answer run.request ending).1 := by
  have ofSettles {active : Option ActiveRun} {state : σ}
      (settles : Settles analyzer ledger (ledger.step analyzer incident) active state index later) :
      (ledger.step analyzer incident).service.channel =
        (ledger.service.channel.answer run.request ending).1 := by
    obtain ⟨before, stop, memory, also, _waits, rfl, answered, _excused⟩ := settles
    cases found.symm.trans also
    cases settled
    exact answered
  rcases sound.settled_step reached settled with before | ⟨_, settles⟩ | ⟨_, _, settles⟩
  · cases found.symm.trans before
    rw [waits] at settled
    cases settled
  · exact ofSettles settles
  · exact ofSettles settles

/-- A run that is answered as cancelled was signalled, or the engine has given up in it. -/
theorem cancelled_or_givesUp (alone : ∀ state, analyzer.signalled state = false)
    (sound : ledger.Sound analyzer) (incidents : List (Incident σ))
    (none : ∀ run ∈ ledger.runs, run.ending = none)
    (distinct : (ledger.follow analyzer incidents).HasDistinctNumbers) {index : Nat}
    {later : AskedRun} {fault : Fault}
    (reached : (ledger.follow analyzer incidents).runs[index]? = some later)
    (ended : later.ending = some (.refused fault)) (kind : fault.kind = .cancelled) :
    (later.signal.cancelled || later.cancelled) = true ∨
      ∃ front state rest, incidents = front ++ .work state :: rest ∧
        Service.GivesUp analyzer (ledger.follow analyzer front).service.active state ⟨index⟩ := by
  induction incidents using List.reverseRecOn with
  | nil =>
      rw [none later (List.mem_of_getElem? reached)] at ended
      cases ended
  | append_singleton incidents incident ih =>
      have last : ledger.follow analyzer (incidents ++ [incident]) =
          (ledger.follow analyzer incidents).step analyzer incident := List.foldl_concat ..
      rw [last] at reached distinct
      have earlier := distinct.before (numbers_step _ incident)
      have reachedSound := sound.follow incidents earlier
      have ofSettles {active : Option ActiveRun} {state : σ}
          (settles : Settles analyzer (ledger.follow analyzer incidents)
            ((ledger.follow analyzer incidents).step analyzer incident) active state index later) :
          (later.signal.cancelled || later.cancelled) = true ∨
            Service.GivesUp analyzer active state ⟨index⟩ := by
        obtain ⟨run, stop, memory, found, waits, rfl, _answered, excused⟩ := settles
        have stopped := kind_of_endingOf (Option.some.inj ended) kind
        refine (excused.cancelled stopped (alone state)).imp_left fun requested => ?_
        rw [reachedSound.signals ⟨index⟩ run found
          fun thrown broke => by rw [waits] at broke; cases broke] at requested
        exact requested
      rcases reachedSound.settled_step reached ended with
        before | ⟨state, settles⟩ | ⟨state, rfl, settles⟩
      · refine (ih earlier before).imp_right ?_
        rintro ⟨front, state, rest, rfl, gave⟩
        exact ⟨front, state, rest ++ [incident], by rw [List.append_assoc]; rfl, gave⟩
      · refine Or.inl ((ofSettles settles).resolve_right ?_)
        rintro ⟨request, file, rest, bytes, active, _⟩
        cases active
      · exact (ofSettles settles).imp_right fun gave => ⟨incidents, state, [], rfl, gave⟩

end Ledger

end Reanalysis
