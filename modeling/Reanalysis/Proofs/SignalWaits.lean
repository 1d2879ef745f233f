/-
Waiting for the signal of a token. Whoever waits is listed for the notice before looking at the
signal, and a signal is there before its notice is given; so no order of these steps has someone
sleep on after the notice, or wakes someone without a signal.
-/

import Reanalysis.Proofs.TokenHistory

namespace Reanalysis

namespace TokenGroups

variable {groups : TokenGroups} {token other : Token}

theorem request_of_unknown (unknown : groups.groups.length ≤ token.group) :
    groups.request token = groups := by
  unfold request
  rw [List.modify_eq_self unknown]

theorem isRequested_of_request (signalled : groups.isRequested other = true) :
    (groups.request token).isRequested other = true := by
  rcases Nat.lt_or_ge token.group groups.groups.length with known | unknown
  · rw [isRequested_request known, signalled, Bool.true_or]
  · rw [request_of_unknown unknown]
    exact signalled

theorem eq_of_request (before : groups.isRequested other = false)
    (after : (groups.request token).isRequested other = true) : token = other := by
  rcases Nat.lt_or_ge token.group groups.groups.length with known | unknown
  · rw [isRequested_request known, before, Bool.false_or] at after
    exact of_decide_eq_true after
  · rw [request_of_unknown unknown, before] at after
    cases after

end TokenGroups

/-- Notices follow signals, a wait ends for no other reason, and no one is asleep whose signal has
been given unless the notice has come or is to come. -/
structure Waiter.Fair (groups : TokenGroups) (due : List Token) (waiter : Waiter) : Prop where
  noticed : waiter.noticed = true → groups.isRequested waiter.token = true
  ended : waiter.stage = .ended → groups.isRequested waiter.token = true
  asleep : waiter.stage = .asleep → groups.isRequested waiter.token = true →
    waiter.noticed = true ∨ waiter.token ∈ due

namespace Waiter

variable {groups : TokenGroups} {due : List Token} {waiter : Waiter}

theorem fair_on (token : Token) : (on token).Fair groups due where
  noticed := fun came => by cases came
  ended := fun stopped => by cases stopped
  asleep := fun slept => by cases slept

theorem Fair.go (fair : waiter.Fair groups due) : (waiter.go groups).Fair groups due := by
  obtain ⟨token, stage, noticed⟩ := waiter
  unfold Waiter.go
  cases stage with
  | listed =>
      cases signalled : groups.isRequested token with
      | true => exact ⟨fair.noticed, fun _ => signalled, fun slept => by cases slept⟩
      | false =>
          exact ⟨fair.noticed, fun ended => (by cases ended),
            fun _ given => absurd (signalled.symm.trans given) Bool.false_ne_true⟩
  | asleep =>
      dsimp only
      split
      · rename_i came
        exact ⟨fair.noticed, fun _ => fair.noticed came, fun slept => by cases slept⟩
      · exact fair
  | ended => exact fair

theorem Fair.signalled {later : TokenGroups} {more : List Token} (fair : waiter.Fair groups due)
    (kept : groups.isRequested waiter.token = true → later.isRequested waiter.token = true)
    (fresh : groups.isRequested waiter.token = false → later.isRequested waiter.token = true →
      waiter.token ∈ more)
    (grown : ∀ token ∈ due, token ∈ more) : waiter.Fair later more where
  noticed := fun came => kept (fair.noticed came)
  ended := fun stopped => kept (fair.ended stopped)
  asleep := fun slept signalled => by
    cases before : groups.isRequested waiter.token with
    | false => exact Or.inr (fresh before signalled)
    | true => exact (fair.asleep slept before).imp_right (grown _)

theorem Fair.ended_iff (fair : waiter.Fair groups due) (settled : waiter.token ∉ due) :
    (waiter.poll groups).stage = .ended ↔ groups.isRequested waiter.token = true := by
  have same (next : Waiter) : (next.go groups).token = next.token := by
    unfold Waiter.go
    split
    · rfl
    · split <;> rfl
    · rfl
  constructor
  · intro ended
    have signalled := fair.go.go.ended ended
    rw [same, same] at signalled
    exact signalled
  · intro signalled
    obtain ⟨token, stage, noticed⟩ := waiter
    unfold poll Waiter.go
    cases stage with
    | listed => simp [signalled]
    | asleep =>
        have came : noticed = true := (fair.asleep rfl signalled).resolve_right settled
        simp [came]
    | ended => rfl

end Waiter

/-- Tokens with those who wait for their signals, and the notices that have not been given yet. -/
structure Lobby where
  groups : TokenGroups
  waiters : List Waiter
  due : List Token

namespace Lobby

/-- What may be done in a lobby. Waiters and notices are numbered from zero. -/
inductive Move where
  | wait (token : Token)
  | go (waiter : Nat)
  | request (token : Token)
  | notify (notice : Nat)

/-- The first signal of a group brings about a notice, which is given later. -/
def request (lobby : Lobby) (token : Token) : Lobby :=
  let signalled := lobby.groups.request token
  { lobby with
    groups := signalled
    due :=
      if !lobby.groups.isRequested token && signalled.isRequested token then
        lobby.due ++ [token]
      else lobby.due }

def notify (lobby : Lobby) (notice : Nat) : Lobby :=
  match lobby.due[notice]? with
  | none => lobby
  | some token =>
      { lobby with
        waiters := lobby.waiters.map fun waiter =>
          if waiter.token = token then { waiter with noticed := true } else waiter
        due := lobby.due.eraseIdx notice }

def step (lobby : Lobby) : Move → Lobby
  | .wait token => { lobby with waiters := lobby.waiters ++ [Waiter.on token] }
  | .go waiter => { lobby with waiters := lobby.waiters.modify waiter (Waiter.go lobby.groups) }
  | .request token => lobby.request token
  | .notify notice => lobby.notify notice

def run (lobby : Lobby) (moves : List Move) : Lobby := moves.foldl step lobby

structure Sound (lobby : Lobby) : Prop where
  due : ∀ token ∈ lobby.due, lobby.groups.isRequested token = true
  fair : ∀ waiter ∈ lobby.waiters, waiter.Fair lobby.groups lobby.due

variable {lobby : Lobby}

theorem Sound.wait (sound : lobby.Sound) (token : Token) : (lobby.step (.wait token)).Sound :=
  ⟨sound.due, List.forall_mem_append.mpr
    ⟨sound.fair, List.forall_mem_singleton.mpr (Waiter.fair_on token)⟩⟩

theorem Sound.go (sound : lobby.Sound) (index : Nat) : (lobby.step (.go index)).Sound := by
  refine ⟨sound.due, fun later member => ?_⟩
  obtain ⟨place, here⟩ := List.mem_iff_getElem?.mp member
  change (lobby.waiters.modify index (Waiter.go lobby.groups))[place]? = some later at here
  rw [List.getElem?_modify] at here
  obtain ⟨waiter, found, rfl⟩ := Option.map_eq_some_iff.mp here
  have fair := sound.fair waiter (List.mem_of_getElem? found)
  split
  · exact fair.go
  · exact fair

theorem Sound.request (sound : lobby.Sound) (token : Token) : (lobby.request token).Sound := by
  have kept {other : Token} (given : lobby.groups.isRequested other = true) :
      (lobby.groups.request token).isRequested other = true :=
    TokenGroups.isRequested_of_request given
  unfold Lobby.request
  dsimp only
  split
  · rename_i first
    rw [Bool.and_eq_true] at first
    refine ⟨List.forall_mem_append.mpr ⟨fun other member => kept (sound.due other member),
      List.forall_mem_singleton.mpr first.2⟩, fun waiter member => ?_⟩
    refine (sound.fair waiter member).signalled kept (fun before after => ?_)
      fun other => List.mem_append_left _
    rw [TokenGroups.eq_of_request before after]
    exact List.mem_append_right _ List.mem_cons_self
  · rename_i again
    refine ⟨fun other member => kept (sound.due other member), fun waiter member => ?_⟩
    refine (sound.fair waiter member).signalled kept (fun before after => ?_) fun _ => id
    have same := TokenGroups.eq_of_request before after
    rw [same, before, ← same] at again
    rw [← same] at after
    rw [after] at again
    exact absurd rfl again

theorem Sound.notify (sound : lobby.Sound) (notice : Nat) : (lobby.notify notice).Sound := by
  unfold Lobby.notify
  cases found : lobby.due[notice]? with
  | none => exact sound
  | some token =>
      have given := sound.due token (List.mem_of_getElem? found)
      refine ⟨fun other member => sound.due other (List.mem_of_mem_eraseIdx member),
        fun later member => ?_⟩
      obtain ⟨waiter, held, rfl⟩ := List.mem_map.mp member
      have fair := sound.fair waiter held
      by_cases same : waiter.token = token
      · rw [if_pos same]
        rw [← same] at given
        exact ⟨fun _ => given, fair.ended, fun _ _ => Or.inl rfl⟩
      · rw [if_neg same]
        refine ⟨fair.noticed, fair.ended, fun slept signalled => ?_⟩
        refine (fair.asleep slept signalled).imp_right fun awaited => ?_
        obtain ⟨place, there⟩ := List.mem_iff_getElem?.mp awaited
        refine List.mem_eraseIdx_iff_getElem?.mpr ⟨place, fun here => same ?_, there⟩
        rw [here, found] at there
        exact (Option.some.inj there).symm

theorem Sound.step (sound : lobby.Sound) (move : Move) : (lobby.step move).Sound := by
  cases move with
  | wait token => exact sound.wait token
  | go waiter => exact sound.go waiter
  | request token => exact sound.request token
  | notify notice => exact sound.notify notice

theorem Sound.run (sound : lobby.Sound) (moves : List Move) : (lobby.run moves).Sound := by
  induction moves generalizing lobby with
  | nil => exact sound
  | cons move rest ih => exact ih (sound.step move)

/-- Whatever is done in which order, a wait that is over has its signal, and with no notice to come
all waits whose signals have been given are over as soon as those who wait go on. -/
theorem waits_end_with_signals (groups : TokenGroups) (moves : List Move) :
    let lobby := (Lobby.mk groups [] []).run moves
    ∀ waiter ∈ lobby.waiters,
      (waiter.stage = .ended → lobby.groups.isRequested waiter.token = true) ∧
        (waiter.token ∉ lobby.due → ((waiter.poll lobby.groups).stage = .ended ↔
          lobby.groups.isRequested waiter.token = true)) := by
  intro lobby waiter member
  have start : (Lobby.mk groups [] []).Sound :=
    ⟨List.forall_mem_nil _, List.forall_mem_nil _⟩
  have fair := (start.run moves).fair waiter member
  exact ⟨fair.ended, fair.ended_iff⟩

end Lobby

end Reanalysis
