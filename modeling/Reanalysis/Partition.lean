/-
Splitting an ordered list of work between workers: the item at a position goes
to the worker whose number is the position modulo the number of workers.
-/

namespace Reanalysis

structure Partition where
  index : Nat
  count : Nat
deriving DecidableEq, Repr

namespace Partition

/-- A share among no workers is a share among one. -/
def of (index count : Nat) : Partition := ⟨index, max count 1⟩

def contains (share : Partition) (position : Nat) : Bool :=
  position % max share.count 1 == share.index

def selectFrom {α : Type} (share : Partition) (position : Nat) (kept : List α) :
    List α → List α
  | [] => kept.reverse
  | item :: rest =>
      selectFrom share (position + 1)
        (if share.contains position then item :: kept else kept) rest

def select {α : Type} (share : Partition) (items : List α) : List α :=
  selectFrom share 0 [] items

/-- Deals the items out to `count` workers in turn; no workers means one. -/
def deal {α : Type} (items : List α) (count : Nat) : List (List α) :=
  let workers := max count 1
  let hands := items.zipIdx.foldl
    (fun hands (item, position) => hands.modify (position % workers) (item :: ·))
    (List.replicate workers [])
  hands.map List.reverse

end Partition

end Reanalysis
