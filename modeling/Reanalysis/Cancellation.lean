/-
Cooperative cancellation. A token names a group; clones share the group, and so
share its signal. A group rebuilt from a signal that was sent is a group of its own
with the same number.
-/

namespace Reanalysis

/-- The number of a group and whether it was signalled, as they are sent to a worker. -/
structure Signal where
  id : Nat
  cancelled : Bool
deriving DecidableEq, Repr

/-- A token is a reference to its group. -/
structure Token where
  group : Nat
deriving DecidableEq, Repr

/-- All groups in the order of their making, and the number of the next fresh one. -/
structure TokenGroups where
  groups : List Signal
  nextId : Nat

namespace TokenGroups

def empty : TokenGroups := ⟨[], 1⟩

/-- The number and signal of a token's group; unknown tokens are unsignalled. -/
def signal (groups : TokenGroups) (token : Token) : Signal :=
  groups.groups.getD token.group ⟨0, false⟩

def fresh (groups : TokenGroups) : Token × TokenGroups :=
  (⟨groups.groups.length⟩,
    { groups := groups.groups ++ [⟨groups.nextId, false⟩], nextId := groups.nextId + 1 })

/-- A group of its own with the number and signal that were sent. -/
def ofSignal (groups : TokenGroups) (sent : Signal) :
    Token × TokenGroups :=
  (⟨groups.groups.length⟩, { groups with groups := groups.groups ++ [sent] })

def request (groups : TokenGroups) (token : Token) : TokenGroups :=
  { groups with
    groups := groups.groups.modify token.group (fun group => { group with cancelled := true }) }

def isRequested (groups : TokenGroups) (token : Token) : Bool :=
  (groups.signal token).cancelled

def check (groups : TokenGroups) (token : Token) : Except String Unit :=
  if groups.isRequested token then .error "operation cancelled" else .ok ()

end TokenGroups

inductive WaitStage where
  /-- Listed for the notice of the signal, which has not been looked at yet. -/
  | listed
  | asleep
  | ended
deriving DecidableEq, Repr

/-- Someone who waits for the signal of a token, and whether the notice of it has come. -/
structure Waiter where
  token : Token
  stage : WaitStage
  noticed : Bool
deriving DecidableEq, Repr

namespace Waiter

def on (token : Token) : Waiter := ⟨token, .listed, false⟩

/-- Does what comes next. The signal is looked at once; after that only the notice ends the wait. -/
def go (groups : TokenGroups) (waiter : Waiter) : Waiter :=
  match waiter.stage with
  | .listed => { waiter with stage := if groups.isRequested waiter.token then .ended else .asleep }
  | .asleep => if waiter.noticed then { waiter with stage := .ended } else waiter
  | .ended => waiter

def poll (groups : TokenGroups) (waiter : Waiter) : Waiter := (waiter.go groups).go groups

end Waiter

def TokenGroups.isReady (groups : TokenGroups) (token : Token) : Bool :=
  ((Waiter.on token).poll groups).stage = .ended

def Signal.describe (signal : Signal) : String :=
  "CancellationToken \x7b id: " ++ toString signal.id ++ ", cancelled: " ++
    toString signal.cancelled ++ " \x7d"

end Reanalysis
