/-
Tokens and their groups. Two tokens share a group just if one comes from the other by cloning, over
any number of clones in any direction. A token is signalled just if one of its group was, or its
group was made from a signal that had been sent before; so signals stay, and reach no other group.
-/

import Mathlib.Logic.Relation
import Reanalysis.Cancellation

namespace Reanalysis

namespace TokenGroups

variable {groups : TokenGroups} {token other : Token} {sent : Signal}

theorem signal_ofSignal (groups : TokenGroups) (sent : Signal) :
    (groups.ofSignal sent).2.signal (groups.ofSignal sent).1 = sent := by
  unfold signal ofSignal
  dsimp only
  rw [List.getD_eq_getElem?_getD, List.getElem?_concat_length]
  rfl

theorem signal_ofSignal_of_lt (sent : Signal) (known : token.group < groups.groups.length) :
    (groups.ofSignal sent).2.signal token = groups.signal token := by
  unfold signal ofSignal
  dsimp only
  rw [List.getD_eq_getElem?_getD, List.getElem?_append_left known, List.getD_eq_getElem?_getD]

theorem ofSignal_known (groups : TokenGroups) (sent : Signal) :
    (groups.ofSignal sent).1.group < (groups.ofSignal sent).2.groups.length := by
  change groups.groups.length < (groups.groups ++ [sent]).length
  rw [List.length_append]
  exact Nat.lt_succ_self _

theorem signal_request (known : token.group < groups.groups.length) :
    (groups.request token).signal other =
      if token = other then ⟨(groups.signal other).id, true⟩ else groups.signal other := by
  unfold signal request
  simp only [List.getD_eq_getElem?_getD, List.getElem?_modify]
  by_cases same : token = other
  · rw [if_pos same, ← same, List.getElem?_eq_getElem known]
    simp
  · have apart : token.group ≠ other.group := fun alike =>
      same (by cases token; cases other; cases alike; rfl)
    rw [if_neg same]
    simp [apart]

theorem isRequested_ofSignal (groups : TokenGroups) (sent : Signal) :
    (groups.ofSignal sent).2.isRequested (groups.ofSignal sent).1 = sent.cancelled :=
  congrArg Signal.cancelled (signal_ofSignal groups sent)

theorem isRequested_ofSignal_of_lt (sent : Signal) (known : token.group < groups.groups.length) :
    (groups.ofSignal sent).2.isRequested token = groups.isRequested token :=
  congrArg Signal.cancelled (signal_ofSignal_of_lt sent known)

theorem isRequested_request (known : token.group < groups.groups.length) :
    (groups.request token).isRequested other =
      (groups.isRequested other || decide (token = other)) := by
  unfold isRequested
  rw [signal_request known]
  by_cases same : token = other
  · rw [if_pos same, decide_eq_true same, Bool.or_true]
  · rw [if_neg same, decide_eq_false same, Bool.or_false]

theorem isReady_eq (groups : TokenGroups) (token : Token) :
    groups.isReady token = groups.isRequested token := by
  unfold isReady Waiter.poll Waiter.on Waiter.go
  cases signalled : groups.isRequested token <;> simp

end TokenGroups

/-- All that is done with tokens. They are numbered in the order in which they are made, and
nothing is done with a token before that. -/
inductive TokenHistory : Nat → Type where
  | start : TokenHistory 0
  | make {count : Nat} (before : TokenHistory count) : TokenHistory (count + 1)
  /-- A token is made from a signal that comes from elsewhere. -/
  | receive {count : Nat} (before : TokenHistory count) (sent : Signal) : TokenHistory (count + 1)
  | clone {count : Nat} (before : TokenHistory count) (original : Fin count) :
      TokenHistory (count + 1)
  /-- A token is made from what another one sends. -/
  | rebuild {count : Nat} (before : TokenHistory count) (original : Fin count) :
      TokenHistory (count + 1)
  | request {count : Nat} (before : TokenHistory count) (token : Fin count) : TokenHistory count

namespace TokenHistory

variable {count : Nat}

/-- The tokens in the order of their numbers, and the groups. -/
def state : {count : Nat} → TokenHistory count → List Token × TokenGroups
  | _, start => ([], .empty)
  | _, make before =>
      let (token, groups) := before.state.2.fresh
      (before.state.1 ++ [token], groups)
  | _, receive before sent =>
      let (token, groups) := before.state.2.ofSignal sent
      (before.state.1 ++ [token], groups)
  | _, clone before original =>
      (before.state.1 ++ [before.state.1.getD original ⟨0⟩], before.state.2)
  | _, rebuild before original =>
      let sent := before.state.2.signal (before.state.1.getD original ⟨0⟩)
      let (token, groups) := before.state.2.ofSignal sent
      (before.state.1 ++ [token], groups)
  | _, request before token =>
      (before.state.1, before.state.2.request (before.state.1.getD token ⟨0⟩))

def tokens (history : TokenHistory count) : List Token := history.state.1

def groups (history : TokenHistory count) : TokenGroups := history.state.2

def token (history : TokenHistory count) (number : Nat) : Token :=
  history.tokens.getD number ⟨0⟩

/-- Which token was made as a clone of which. -/
def Cloned : {count : Nat} → TokenHistory count → Nat → Nat → Prop
  | _, start, _, _ => False
  | _, make before, original, copy => before.Cloned original copy
  | _, receive before _, original, copy => before.Cloned original copy
  | _, @clone count before source, original, copy =>
      before.Cloned original copy ∨ original = source ∧ copy = count
  | _, rebuild before _, original, copy => before.Cloned original copy
  | _, request before _, original, copy => before.Cloned original copy

/-- Tokens that come from each other by cloning, in either direction. -/
def Connected (history : TokenHistory count) : Nat → Nat → Prop :=
  Relation.EqvGen history.Cloned

/-- Cancellation was requested of this very token, or it was made from a signal that said so
already. -/
def Marked : {count : Nat} → TokenHistory count → Nat → Prop
  | _, start, _ => False
  | _, make before, number => before.Marked number
  | _, @receive count before sent, number =>
      before.Marked number ∨ number = count ∧ sent.cancelled = true
  | _, clone before _, number => before.Marked number
  | _, @rebuild count before original, number =>
      before.Marked number ∨ number = count ∧
        ∃ other, before.Connected original other ∧ before.Marked other
  | _, request before token, number => before.Marked number ∨ number = token

/-- Some token that this one is connected to is marked. -/
def Signalled (history : TokenHistory count) (number : Nat) : Prop :=
  ∃ other, history.Connected number other ∧ history.Marked other

theorem length_tokens (history : TokenHistory count) : history.tokens.length = count := by
  induction history with
  | start => rfl
  | request before token ih => exact ih
  | make before ih | receive before sent ih | clone before original ih
  | rebuild before original ih => exact (List.length_append).trans (congrArg (· + 1) ih)

section

variable {before : TokenHistory count} {after : TokenHistory (count + 1)} {token : Token}
  {number : Nat}

theorem token_of_lt (grown : after.tokens = before.tokens ++ [token]) (old : number < count) :
    after.token number = before.token number := by
  unfold TokenHistory.token
  rw [grown, List.getD_eq_getElem?_getD, List.getD_eq_getElem?_getD,
    List.getElem?_append_left (before.length_tokens.symm ▸ old)]

theorem token_new (grown : after.tokens = before.tokens ++ [token]) :
    after.token count = token := by
  have last := List.getElem?_concat_length (l := before.tokens) (a := token)
  rw [before.length_tokens] at last
  unfold TokenHistory.token
  rw [grown, List.getD_eq_getElem?_getD, last]
  rfl

end

/-- A step that makes a token with a group of its own, in which nothing else has a part. -/
structure Founds (before : TokenHistory count) (after : TokenHistory (count + 1))
    (sent : Signal) : Prop where
  tokens : after.tokens = before.tokens ++ [⟨before.groups.groups.length⟩]
  groups : after.groups.groups = before.groups.groups ++ [sent]
  cloned : after.Cloned = before.Cloned
  marked : ∀ number, after.Marked number ↔
    before.Marked number ∨ number = count ∧ sent.cancelled = true

theorem founds_make (before : TokenHistory count) :
    Founds before before.make ⟨before.groups.nextId, false⟩ where
  tokens := rfl
  groups := rfl
  cloned := rfl
  marked number := by
    change before.Marked number ↔ _
    simp

theorem founds_receive (before : TokenHistory count) (sent : Signal) :
    Founds before (before.receive sent) sent := ⟨rfl, rfl, rfl, fun _ => Iff.rfl⟩

theorem founds_rebuild {before : TokenHistory count} {original : Fin count}
    (told : before.groups.isRequested (before.token original) = true ↔
      before.Signalled original) :
    Founds before (before.rebuild original) (before.groups.signal (before.token original)) :=
  ⟨rfl, rfl, rfl, fun _ => or_congr_right (and_congr_right fun _ => told.symm)⟩

theorem lt_of_cloned {history : TokenHistory count} {original copy : Nat}
    (cloned : history.Cloned original copy) : original < count ∧ copy < count := by
  induction history with
  | start => exact cloned.elim
  | request before token ih => exact ih cloned
  | make before ih | receive before sent ih | rebuild before source ih =>
      exact (ih cloned).imp Nat.lt_succ_of_lt Nat.lt_succ_of_lt
  | clone before source ih =>
      rcases cloned with earlier | ⟨here, last⟩
      · exact (ih earlier).imp Nat.lt_succ_of_lt Nat.lt_succ_of_lt
      · have made := source.isLt
        omega

theorem lt_of_marked {history : TokenHistory count} {number : Nat}
    (marked : history.Marked number) : number < count := by
  induction history with
  | start => exact marked.elim
  | make before ih | clone before source ih => exact Nat.lt_succ_of_lt (ih marked)
  | receive before sent ih | rebuild before source ih =>
      rcases marked with earlier | ⟨here, _⟩
      · exact Nat.lt_succ_of_lt (ih earlier)
      · omega
  | request before token ih =>
      rcases marked with earlier | here
      · exact ih earlier
      · exact here ▸ token.isLt

/-! ### Groups are clones -/

/-- What the groups have to do with the clones and the marks, at any time. -/
structure Sound (history : TokenHistory count) : Prop where
  known : ∀ number < count, (history.token number).group < history.groups.groups.length
  connected : ∀ first < count, ∀ second < count,
    history.token first = history.token second ↔ history.Connected first second
  requested : ∀ number < count, history.groups.isRequested (history.token number) = true ↔
    ∃ other < count, history.token number = history.token other ∧ history.Marked other

theorem Sound.isRequested_iff {history : TokenHistory count} (sound : history.Sound) {number : Nat}
    (made : number < count) :
    history.groups.isRequested (history.token number) = true ↔ history.Signalled number := by
  rw [sound.requested number made]
  constructor
  · intro ⟨other, otherMade, alike, marked⟩
    exact ⟨other, (sound.connected number made other otherMade).mp alike, marked⟩
  · intro ⟨other, connected, marked⟩
    have otherMade := lt_of_marked marked
    exact ⟨other, otherMade, (sound.connected number made other otherMade).mpr connected, marked⟩

/-- Whatever clones have in common, connected tokens have. -/
theorem eq_of_connected {α : Type} {history : TokenHistory count} (view : Nat → α)
    (shared : ∀ original copy, history.Cloned original copy → view original = view copy)
    {first second : Nat} (connected : history.Connected first second) :
    view first = view second := by
  induction connected with
  | rel original copy cloned => exact shared original copy cloned
  | refl number => rfl
  | symm first second _ ih => exact ih.symm
  | trans first middle second _ _ left right => exact left.trans right

namespace Founds

variable {before : TokenHistory count} {after : TokenHistory (count + 1)} {sent : Signal}
  {number : Nat}

theorem token_old (founds : Founds before after sent) (old : number < count) :
    after.token number = before.token number := token_of_lt founds.tokens old

theorem token_last (founds : Founds before after sent) :
    after.token count = ⟨before.groups.groups.length⟩ := token_new founds.tokens

theorem token_ne (founds : Founds before after sent) (sound : before.Sound)
    (old : number < count) : after.token number ≠ after.token count := by
  intro alike
  rw [founds.token_old old, founds.token_last] at alike
  have inside := sound.known number old
  rw [alike] at inside
  exact Nat.lt_irrefl _ inside

theorem connected_eq (founds : Founds before after sent) : after.Connected = before.Connected := by
  unfold Connected
  rw [founds.cloned]

theorem signal_eq (founds : Founds before after sent) (token : Token) :
    after.groups.signal token = (before.groups.ofSignal sent).2.signal token := by
  unfold TokenGroups.signal
  rw [founds.groups]
  rfl

theorem isRequested_old (founds : Founds before after sent) (sound : before.Sound)
    (old : number < count) : after.groups.isRequested (after.token number) =
      before.groups.isRequested (before.token number) := by
  unfold TokenGroups.isRequested
  rw [founds.signal_eq, founds.token_old old,
    TokenGroups.signal_ofSignal_of_lt _ (sound.known number old)]

theorem isRequested_last (founds : Founds before after sent) :
    after.groups.isRequested (after.token count) = sent.cancelled := by
  unfold TokenGroups.isRequested
  rw [founds.signal_eq, founds.token_last]
  exact TokenGroups.isRequested_ofSignal before.groups sent

theorem connected_iff (founds : Founds before after sent) (sound : before.Sound)
    {first second : Nat} (made : first < count + 1) (otherMade : second < count + 1) :
    after.token first = after.token second ↔ after.Connected first second := by
  constructor
  · intro alike
    rw [founds.connected_eq]
    rcases Nat.lt_succ_iff_lt_or_eq.mp made with old | rfl
    · rcases Nat.lt_succ_iff_lt_or_eq.mp otherMade with otherOld | rfl
      · rw [founds.token_old old, founds.token_old otherOld] at alike
        exact (sound.connected first old second otherOld).mp alike
      · exact absurd alike (founds.token_ne sound old)
    · rcases Nat.lt_succ_iff_lt_or_eq.mp otherMade with otherOld | rfl
      · exact absurd alike.symm (founds.token_ne sound otherOld)
      · exact .refl _
  · refine eq_of_connected after.token (fun original copy cloned => ?_)
    rw [founds.cloned] at cloned
    obtain ⟨originalOld, copyOld⟩ := lt_of_cloned cloned
    rw [founds.token_old originalOld, founds.token_old copyOld]
    exact (sound.connected _ originalOld _ copyOld).mpr (.rel _ _ cloned)

theorem requested_iff (founds : Founds before after sent) (sound : before.Sound)
    (made : number < count + 1) :
    after.groups.isRequested (after.token number) = true ↔
      ∃ other < count + 1, after.token number = after.token other ∧ after.Marked other := by
  rcases Nat.lt_succ_iff_lt_or_eq.mp made with old | rfl
  · rw [founds.isRequested_old sound old, sound.requested number old]
    constructor
    · intro ⟨other, otherOld, alike, marked⟩
      rw [← founds.token_old old, ← founds.token_old otherOld] at alike
      exact ⟨other, Nat.lt_succ_of_lt otherOld, alike, (founds.marked other).mpr (.inl marked)⟩
    · intro ⟨other, _otherMade, alike, marked⟩
      rcases (founds.marked other).mp marked with oldMark | ⟨rfl, _⟩
      · have otherOld := lt_of_marked oldMark
        rw [founds.token_old old, founds.token_old otherOld] at alike
        exact ⟨other, otherOld, alike, oldMark⟩
      · exact absurd alike (founds.token_ne sound old)
  · rw [founds.isRequested_last]
    constructor
    · intro cancelled
      exact ⟨number, made, rfl, (founds.marked number).mpr (.inr ⟨rfl, cancelled⟩)⟩
    · intro ⟨other, _otherMade, alike, marked⟩
      rcases (founds.marked other).mp marked with oldMark | ⟨_, cancelled⟩
      · exact absurd alike.symm (founds.token_ne sound (lt_of_marked oldMark))
      · exact cancelled

theorem sound (founds : Founds before after sent) (sound : before.Sound) : after.Sound where
  known number made := by
    rw [founds.groups, List.length_append, List.length_singleton]
    rcases Nat.lt_succ_iff_lt_or_eq.mp made with old | rfl
    · rw [founds.token_old old]
      exact Nat.lt_succ_of_lt (sound.known number old)
    · rw [founds.token_last]
      exact Nat.lt_succ_self _
  connected _ made _ otherMade := founds.connected_iff sound made otherMade
  requested _ made := founds.requested_iff sound made

end Founds

variable {before : TokenHistory count}

theorem connected_clone (original : Fin count) {first second : Nat}
    (connected : before.Connected first second) :
    (before.clone original).Connected first second :=
  @Relation.EqvGen.mono _ before.Cloned (before.clone original).Cloned
    (fun _ _ cloned => .inl cloned) first second connected

theorem exists_token_clone (original : Fin count) {number : Nat} (made : number < count + 1) :
    ∃ held < count, (before.clone original).token number = before.token held ∧
      (before.clone original).Connected number held := by
  rcases Nat.lt_succ_iff_lt_or_eq.mp made with old | rfl
  · exact ⟨number, old, token_of_lt rfl old, .refl _⟩
  · exact ⟨original, original.isLt, token_new rfl, .symm _ _ (.rel _ _ (.inr ⟨rfl, rfl⟩))⟩

theorem Sound.clone (sound : before.Sound) (original : Fin count) :
    (before.clone original).Sound where
  known number made := by
    obtain ⟨held, old, same, _connected⟩ := exists_token_clone original made
    rw [same]
    exact sound.known held old
  connected first made second otherMade := by
    constructor
    · intro alike
      obtain ⟨held, old, same, near⟩ := exists_token_clone original made
      obtain ⟨other, otherOld, otherSame, otherNear⟩ := exists_token_clone original otherMade
      rw [same, otherSame] at alike
      have joined := connected_clone original ((sound.connected held old other otherOld).mp alike)
      exact near.trans _ _ _ (joined.trans _ _ _ (otherNear.symm _ _))
    · refine eq_of_connected (before.clone original).token (fun source copy cloned => ?_)
      rcases cloned with earlier | ⟨rfl, rfl⟩
      · obtain ⟨sourceOld, copyOld⟩ := lt_of_cloned earlier
        rw [token_of_lt rfl sourceOld, token_of_lt rfl copyOld]
        exact (sound.connected _ sourceOld _ copyOld).mpr (.rel _ _ earlier)
      · rw [token_of_lt rfl original.isLt]
        exact (token_new rfl).symm
  requested number made := by
    obtain ⟨held, old, same, _connected⟩ := exists_token_clone original made
    rw [same]
    refine (sound.requested held old).trans ⟨?_, ?_⟩
    · intro ⟨other, otherOld, alike, marked⟩
      exact ⟨other, Nat.lt_succ_of_lt otherOld, alike.trans (token_of_lt rfl otherOld).symm, marked⟩
    · intro ⟨other, _otherMade, alike, marked⟩
      have otherOld : other < count := lt_of_marked marked
      exact ⟨other, otherOld, alike.trans (token_of_lt rfl otherOld), marked⟩

/-- A request reaches the tokens of one group. -/
theorem Sound.request (sound : before.Sound) (token : Fin count) : (before.request token).Sound where
  known number made := by
    change _ < (before.groups.groups.modify _ _).length
    rw [List.length_modify]
    exact sound.known number made
  connected := sound.connected
  requested number made := by
    change (before.groups.request (before.token token)).isRequested (before.token number) = true ↔ _
    rw [TokenGroups.isRequested_request (sound.known token token.isLt), Bool.or_eq_true,
      decide_eq_true_iff, sound.requested number made]
    constructor
    · rintro (⟨other, otherMade, alike, marked⟩ | same)
      · exact ⟨other, otherMade, alike, .inl marked⟩
      · exact ⟨token, token.isLt, same.symm, .inr rfl⟩
    · intro ⟨other, otherMade, alike, marked⟩
      rcases marked with earlier | rfl
      · exact .inl ⟨other, otherMade, alike, earlier⟩
      · exact .inr alike.symm

theorem sound (history : TokenHistory count) : history.Sound := by
  induction history with
  | start =>
      exact ⟨fun _ made => absurd made (Nat.not_lt_zero _),
        fun _ made => absurd made (Nat.not_lt_zero _),
        fun _ made => absurd made (Nat.not_lt_zero _)⟩
  | make before ih => exact (founds_make before).sound ih
  | receive before sent ih => exact (founds_receive before sent).sound ih
  | clone before original ih => exact ih.clone original
  | rebuild before original ih =>
      exact (founds_rebuild (ih.isRequested_iff original.isLt)).sound ih
  | request before token ih => exact ih.request token

/-! ### Later histories -/

inductive Reaches {count : Nat} (history : TokenHistory count) :
    {later : Nat} → TokenHistory later → Prop
  | here : Reaches history history
  | make {later : Nat} {after : TokenHistory later} (reached : Reaches history after) :
      Reaches history after.make
  | receive {later : Nat} {after : TokenHistory later} (reached : Reaches history after)
      (sent : Signal) : Reaches history (after.receive sent)
  | clone {later : Nat} {after : TokenHistory later} (reached : Reaches history after)
      (original : Fin later) : Reaches history (after.clone original)
  | rebuild {later : Nat} {after : TokenHistory later} (reached : Reaches history after)
      (original : Fin later) : Reaches history (after.rebuild original)
  | request {later : Nat} {after : TokenHistory later} (reached : Reaches history after)
      (token : Fin later) : Reaches history (after.request token)

structure Keeps {count later : Nat} (history : TokenHistory count) (after : TokenHistory later) :
    Prop where
  made : count ≤ later
  token : ∀ number < count, after.token number = history.token number
  requested : ∀ number < count, history.groups.isRequested (history.token number) = true →
    after.groups.isRequested (after.token number) = true

theorem Keeps.trans {count middle later : Nat} {first : TokenHistory count}
    {second : TokenHistory middle} {third : TokenHistory later} (front : first.Keeps second)
    (rest : second.Keeps third) : first.Keeps third where
  made := Nat.le_trans front.made rest.made
  token number old :=
    (rest.token number (Nat.lt_of_lt_of_le old front.made)).trans (front.token number old)
  requested number old requested :=
    rest.requested number (Nat.lt_of_lt_of_le old front.made) (front.requested number old requested)

theorem Founds.keeps {after : TokenHistory (count + 1)} {sent : Signal}
    (founds : Founds before after sent) : before.Keeps after where
  made := Nat.le_succ count
  token _ old := founds.token_old old
  requested _ old requested := (founds.isRequested_old before.sound old).trans requested

theorem keeps_clone (original : Fin count) : before.Keeps (before.clone original) where
  made := Nat.le_succ count
  token _ old := token_of_lt rfl old
  requested number old requested := by
    rw [token_of_lt rfl old]
    exact requested

theorem keeps_request (token : Fin count) : before.Keeps (before.request token) where
  made := Nat.le_refl count
  token _ _ := rfl
  requested number _ requested := by
    change (before.groups.request (before.token token)).isRequested (before.token number) = true
    rw [TokenGroups.isRequested_request (before.sound.known token token.isLt), requested,
      Bool.true_or]

theorem Reaches.keeps {history : TokenHistory count} {later : Nat} {after : TokenHistory later}
    (reached : history.Reaches after) : history.Keeps after := by
  induction reached with
  | here => exact ⟨Nat.le_refl _, fun _ _ => rfl, fun _ _ requested => requested⟩
  | make _ ih => exact ih.trans (founds_make _).keeps
  | receive _ sent ih => exact ih.trans (founds_receive _ sent).keeps
  | clone _ original ih => exact ih.trans (keeps_clone original)
  | rebuild _ original ih =>
      exact ih.trans (founds_rebuild ((sound _).isRequested_iff original.isLt)).keeps
  | request _ token ih => exact ih.trans (keeps_request token)

/-- Groups neither merge nor fall apart. -/
theorem Reaches.connected_iff {history : TokenHistory count} {later : Nat}
    {after : TokenHistory later} (reached : history.Reaches after) {first second : Nat}
    (made : first < count) (otherMade : second < count) :
    after.Connected first second ↔ history.Connected first second := by
  have keeps := reached.keeps
  rw [← after.sound.connected first (Nat.lt_of_lt_of_le made keeps.made) second
      (Nat.lt_of_lt_of_le otherMade keeps.made),
    ← history.sound.connected first made second otherMade, keeps.token first made,
    keeps.token second otherMade]

theorem not_connected_rebuild (history : TokenHistory count) (original : Fin count) :
    ¬(history.rebuild original).Connected original count := by
  have founds := founds_rebuild (history.sound.isRequested_iff original.isLt)
  rw [← (history.rebuild original).sound.connected original (Nat.lt_succ_of_lt original.isLt) count
    (Nat.lt_succ_self count)]
  exact founds.token_ne history.sound original.isLt

theorem check_eq_ok_iff {groups : TokenGroups} {token : Token} :
    groups.check token = .ok () ↔ ¬groups.isRequested token = true := by
  unfold TokenGroups.check
  cases groups.isRequested token <;> simp

/-- At any time a token is signalled just if it, or a token that it is connected to by cloning, was
signalled or came from a signal that had been sent before; and all ways to ask agree. A signal
leaves all tokens of other groups as they are, it never goes away, and groups stay apart forever, so
also that of a token and that of one rebuilt from it. -/
theorem signals_stay_in_group (history : TokenHistory count) :
    (∀ number < count,
      let token := history.token number
      (history.groups.isRequested token = true ↔ history.Signalled number) ∧
        (history.groups.check token = .ok () ↔ ¬history.Signalled number) ∧
        ((history.groups.signal token).cancelled = true ↔ history.Signalled number) ∧
        (history.groups.isReady token = true ↔ history.Signalled number)) ∧
      (∀ (token : Fin count), ∀ number < count, ¬history.Connected token number →
        (history.request token).groups.signal ((history.request token).token number) =
          history.groups.signal (history.token number)) ∧
      (∀ {later : Nat} (after : TokenHistory later), history.Reaches after →
        (∀ number < count, history.groups.isRequested (history.token number) = true →
          after.groups.isRequested (after.token number) = true) ∧
        ∀ first < count, ∀ second < count,
          after.Connected first second ↔ history.Connected first second) ∧
      ∀ (original : Fin count) {later : Nat} (after : TokenHistory later),
        (history.rebuild original).Reaches after → ¬after.Connected original count := by
  refine ⟨fun number made => ?_, fun token number made apart => ?_, fun after reached => ?_,
    fun original _later after reached connected => ?_⟩
  · have told := history.sound.isRequested_iff made
    refine ⟨told, check_eq_ok_iff.trans (not_congr told), told, ?_⟩
    rw [TokenGroups.isReady_eq]
    exact told
  · have other : history.token token ≠ history.token number :=
      mt (history.sound.connected token token.isLt number made).mp apart
    exact (TokenGroups.signal_request (history.sound.known token token.isLt)).trans (if_neg other)
  · exact ⟨reached.keeps.requested, fun first made second otherMade =>
      reached.connected_iff made otherMade⟩
  · have old := Nat.lt_succ_of_lt original.isLt
    exact not_connected_rebuild history original
      ((reached.connected_iff old (Nat.lt_succ_self count)).mp connected)

namespace Rebuilt

/-- A token with a clone, and one that was rebuilt from it before the clone was signalled. -/
def history : TokenHistory 3 := ((start.make.clone 0).rebuild 0).request 1

theorem apart : ¬history.Connected 0 2 := by
  intro connected
  have same : decide (0 < 2) = decide (2 < 2) :=
    eq_of_connected (fun number => decide (number < 2)) (fun original copy cloned => by
      obtain ⟨rfl, rfl⟩ := cloned.resolve_left False.elim
      rfl) connected
  exact absurd same (by decide)

end Rebuilt

open Rebuilt in
/-- The token is signalled with its clone, and goes on being so; the rebuilt one is not. -/
theorem signals_stay_in_group_of_rebuilt :
    (0 < 3 ∧ history.groups.isRequested (history.token 0) = true ∧ history.Signalled 0) ∧
      (¬history.Connected 0 2 ∧ (history.request 0).groups.isRequested (history.token 2) = false) ∧
      (history.Reaches (history.rebuild 0) ∧
        (history.rebuild 0).groups.isRequested ((history.rebuild 0).token 0) = true) ∧
      ¬(history.rebuild 0).Connected 0 3 := by
  obtain ⟨told, leaves, keeps, parts⟩ := signals_stay_in_group history
  have requested : history.groups.isRequested (history.token 0) = true := by decide
  have reached : history.Reaches (history.rebuild 0) := .rebuild .here 0
  refine ⟨⟨by decide, requested, (told 0 (by decide)).1.mp requested⟩, ⟨apart, ?_⟩,
    ⟨reached, (keeps _ reached).1 0 (by decide) requested⟩, parts 0 _ .here⟩
  exact congrArg Signal.cancelled (leaves 0 2 (by decide) apart)

end TokenHistory

end Reanalysis
