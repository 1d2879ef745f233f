/-
The buffer between two cycles. What waits in it is settled by which changes arrived since it was
last drained: their order, repetitions and earlier mergers leave no trace, and a file that any of
them deletes is deleted. A drain takes out just that, so every change goes into one drain.
-/

import Reanalysis.Proofs.ChangeContents
import Reanalysis.Proofs.MapContents

namespace Reanalysis

namespace Change

variable {change other : Change} {file : SourcePath}

/-- No file is both changed and deleted. Changes that are read from outside need not be so. -/
def Settled (change : Change) : Prop :=
  ∀ file, (change.changed.contains file && change.deleted.contains file) = false

/-- Changes that differ in how they spell files, if in anything. -/
def Agrees (change other : Change) : Prop :=
  change.changed.contents = other.changed.contents ∧
    change.deleted.contents = other.deleted.contents

theorem touches_iff : change.touches file = true ↔
    change.changed.contains file = true ∨ change.deleted.contains file = true := by
  unfold touches
  rw [Bool.or_eq_true]

structure Additive (test : Change → Bool) : Prop where
  empty : test empty = false
  merge (change other : Change) : test (change.merge other) = (test change || test other)

theorem additive_deleted (file : SourcePath) :
    Additive fun change => change.deleted.contains file :=
  ⟨rfl, fun change other => deleted_merge change other file⟩

theorem additive_touches (file : SourcePath) : Additive fun change => change.touches file := by
  refine ⟨rfl, fun change other => ?_⟩
  unfold touches
  rw [changed_merge, deleted_merge]
  cases change.deleted.contains file <;> cases other.deleted.contains file <;> simp

theorem settled_merge : (change.merge other).Settled := by
  intro file
  rw [changed_merge]
  cases (change.merge other).deleted.contains file <;> simp

theorem settled_empty : Settled empty := fun _ => rfl

theorem Settled.changed_eq (settled : change.Settled) :
    change.changed.contains file = (change.touches file && !change.deleted.contains file) := by
  have apart := settled file
  unfold touches
  cases changed : change.changed.contains file with
  | false => cases change.deleted.contains file <;> rfl
  | true =>
      rw [changed, Bool.true_and] at apart
      rw [apart]
      rfl

theorem Settled.agrees (settled : change.Settled) (otherSettled : other.Settled)
    (touched : ∀ file, change.touches file = other.touches file)
    (deleted : ∀ file, change.deleted.contains file = other.deleted.contains file) :
    change.Agrees other := by
  refine ⟨PathSet.contents_eq_iff.mpr fun file => ?_, PathSet.contents_eq_iff.mpr deleted⟩
  rw [settled.changed_eq, otherSettled.changed_eq, touched, deleted]

end Change

/-- Changes that are merged with each other, in any grouping, before they reach the buffer. -/
inductive Bundle where
  | single (change : Change)
  | merged (first second : Bundle)

namespace Bundle

def total : Bundle → Change
  | single change => change
  | merged first second => first.total.merge second.total

def parts : Bundle → List Change
  | single change => [change]
  | merged first second => first.parts ++ second.parts

theorem test_total {test : Change → Bool} (additive : Change.Additive test) (bundle : Bundle) :
    test bundle.total = bundle.parts.any test := by
  induction bundle with
  | single change => exact (Bool.or_false _).symm
  | merged first second left right =>
      rw [total, parts, additive.merge, List.any_append, left, right]

end Bundle

namespace PendingChanges

/-- The buffer that has taken in some changes since it was empty. -/
def holding (changes : List Change) : PendingChanges := changes.foldl accumulate empty

theorem test_foldl {test : Change → Bool} (additive : Change.Additive test)
    (buffer : PendingChanges) (changes : List Change) :
    test (changes.foldl accumulate buffer).pending = (test buffer.pending || changes.any test) := by
  induction changes generalizing buffer with
  | nil => exact (Bool.or_false _).symm
  | cons change rest ih =>
      rw [List.foldl_cons, ih, accumulate, additive.merge, List.any_cons, Bool.or_assoc]

theorem settled_foldl {buffer : PendingChanges} (settled : buffer.pending.Settled)
    (changes : List Change) : (changes.foldl accumulate buffer).pending.Settled := by
  induction changes generalizing buffer with
  | nil => exact settled
  | cons change rest ih => exact ih Change.settled_merge

section Held

variable (changes : List Change) (file : SourcePath)

theorem test_holding {test : Change → Bool} (additive : Change.Additive test) :
    test (holding changes).pending = changes.any test := by
  refine (test_foldl additive empty changes).trans ?_
  rw [show test empty.pending = false from additive.empty, Bool.false_or]

theorem deleted_holding : (holding changes).pending.deleted.contains file =
    changes.any fun change => change.deleted.contains file :=
  test_holding changes (Change.additive_deleted file)

theorem touches_holding : (holding changes).pending.touches file =
    changes.any fun change => change.touches file :=
  test_holding changes (Change.additive_touches file)

theorem settled_holding : (holding changes).pending.Settled :=
  settled_foldl Change.settled_empty changes

/-- Whatever the order, a deletion wins over every change of the file. -/
theorem changed_holding_iff : (holding changes).pending.changed.contains file = true ↔
    (∃ change ∈ changes, change.changed.contains file = true) ∧
      ¬∃ change ∈ changes, change.deleted.contains file = true := by
  rw [(settled_holding changes).changed_eq, touches_holding, deleted_holding, Bool.and_eq_true,
    Bool.not_eq_true', ← Bool.not_eq_true, List.any_eq_true, List.any_eq_true]
  refine and_congr_left fun undeleted => exists_congr fun change =>
    and_congr_right fun member => ?_
  rw [Change.touches_iff]
  exact or_iff_left fun deleted => undeleted ⟨change, member, deleted⟩

end Held

theorem holding_agrees {bundles others : List Bundle}
    (same : ∀ change, change ∈ bundles.flatMap Bundle.parts ↔
      change ∈ others.flatMap Bundle.parts) :
    (holding (bundles.map Bundle.total)).pending.Agrees
      (holding (others.map Bundle.total)).pending := by
  have spread {test : Change → Bool} (additive : Change.Additive test) (given : List Bundle) :
      test (holding (given.map Bundle.total)).pending = (given.flatMap Bundle.parts).any test := by
    rw [test_holding _ additive, List.any_map, List.any_flatMap]
    exact congrArg given.any (funext (Bundle.test_total additive))
  have regrouped {test : Change → Bool} (additive : Change.Additive test) :
      test (holding (bundles.map Bundle.total)).pending =
        test (holding (others.map Bundle.total)).pending := by
    rw [spread additive, spread additive, Bool.eq_iff_iff, List.any_eq_true, List.any_eq_true]
    exact exists_congr fun change => and_congr_left fun _ => same change
  exact (settled_holding _).agrees (settled_holding _)
    (fun file => regrouped (Change.additive_touches file))
    (fun file => regrouped (Change.additive_deleted file))

/-! ### Runs -/

inductive Use where
  | accumulate (change : Change)
  | drain

/-- The changes that are drained on the way, and the buffer at the end. -/
def run (buffer : PendingChanges) : List Use → List Change × PendingChanges
  | [] => ([], buffer)
  | .accumulate change :: rest => (buffer.accumulate change).run rest
  | .drain :: rest =>
      let later := buffer.drain.2.run rest
      (buffer.drain.1 :: later.1, later.2)

/-- All uses, in order: each of the batches ends with a drain, and the last changes wait. -/
def uses (batches : List (List Change)) (waiting : List Change) : List Use :=
  batches.flatMap (fun batch => batch.map .accumulate ++ [.drain]) ++ waiting.map .accumulate

theorem uses_cons (batch : List Change) (batches : List (List Change)) (waiting : List Change) :
    uses (batch :: batches) waiting = batch.map .accumulate ++ .drain :: uses batches waiting := by
  unfold uses
  rw [List.flatMap_cons, List.append_assoc, List.append_assoc, List.singleton_append]

/-- Every change is in one batch, or waits. -/
theorem exists_uses (done : List Use) : ∃ batches waiting, done = uses batches waiting := by
  induction done with
  | nil => exact ⟨[], [], rfl⟩
  | cons use rest ih =>
      obtain ⟨batches, waiting, rfl⟩ := ih
      cases use with
      | drain => exact ⟨[] :: batches, waiting, (uses_cons [] batches waiting).symm⟩
      | accumulate change =>
          cases batches with
          | nil => exact ⟨[], change :: waiting, rfl⟩
          | cons batch later =>
              refine ⟨(change :: batch) :: later, waiting, ?_⟩
              rw [uses_cons, uses_cons]
              rfl

theorem run_accumulates (changes : List Change) (buffer : PendingChanges) (rest : List Use) :
    buffer.run (changes.map .accumulate ++ rest) = (changes.foldl accumulate buffer).run rest := by
  induction changes generalizing buffer with
  | nil => rfl
  | cons change later ih => exact ih (buffer.accumulate change)

theorem run_uses (batches : List (List Change)) (waiting : List Change) :
    empty.run (uses batches waiting) =
      (batches.map fun batch => (holding batch).pending, holding waiting) := by
  induction batches with
  | nil =>
      have waits := run_accumulates waiting empty []
      rw [List.append_nil] at waits
      exact waits
  | cons batch rest ih =>
      rw [uses_cons, run_accumulates]
      unfold run drain
      rw [ih]
      rfl

/-- What the buffer holds, at any time and however its changes came; and each change is drained
once, with its batch. -/
theorem pending_of_changes :
    (∀ changes : List Change,
      let buffer := holding changes
      (∀ file, (buffer.pending.deleted.contains file = true ↔
            ∃ change ∈ changes, change.deleted.contains file = true) ∧
          (buffer.pending.changed.contains file = true ↔
            (∃ change ∈ changes, change.changed.contains file = true) ∧
              ¬∃ change ∈ changes, change.deleted.contains file = true) ∧
          ¬(buffer.pending.changed.contains file = true ∧
            buffer.pending.deleted.contains file = true) ∧
          (buffer.pending.touches file = true ↔
            ∃ change ∈ changes, change.touches file = true)) ∧
        buffer.drain = (buffer.pending, empty)) ∧
      (∀ bundles others : List Bundle,
        (∀ change, change ∈ bundles.flatMap Bundle.parts ↔
          change ∈ others.flatMap Bundle.parts) →
        (holding (bundles.map Bundle.total)).pending.Agrees
          (holding (others.map Bundle.total)).pending) ∧
      ∀ done : List Use, ∃ batches waiting, done = uses batches waiting ∧
        empty.run done = (batches.map fun batch => (holding batch).pending, holding waiting) := by
  refine ⟨fun changes => ⟨fun file => ?_, rfl⟩, fun _ _ => holding_agrees, fun done => ?_⟩
  · refine ⟨?_, changed_holding_iff changes file, ?_, ?_⟩
    · rw [deleted_holding, List.any_eq_true]
    · rw [← Bool.and_eq_true, settled_holding changes file]
      exact Bool.false_ne_true
    · rw [touches_holding, List.any_eq_true]
  · obtain ⟨batches, waiting, rfl⟩ := exists_uses done
    exact ⟨batches, waiting, rfl, run_uses batches waiting⟩

namespace Regrouped

/-- As it may be read from a message: one file is in both sets. -/
def overlapping : Change :=
  ⟨PathSet.ofFiles [⟨"src/a.ts"⟩, ⟨"src/b.ts"⟩], PathSet.ofFiles [⟨"src/a.ts"⟩]⟩

/-- The file that was deleted is there again, under another spelling. -/
def restoring : Change := Change.ofFiles [⟨"src//a.ts"⟩, ⟨"src/c.ts"⟩] []

end Regrouped

open Regrouped in
/-- A change that comes twice, around another, leaves what the two leave that are merged the
other way round; the deleted file stays deleted. -/
theorem pending_of_regrouped :
    (holding [overlapping, restoring, overlapping]).pending.Agrees
        (holding [restoring.merge overlapping]).pending ∧
      (holding [restoring.merge overlapping]).pending.changed.files =
        [⟨"src/b.ts"⟩, ⟨"src/c.ts"⟩] ∧
      (holding [restoring.merge overlapping]).pending.deleted.files = [⟨"src/a.ts"⟩] := by
  refine ⟨?_, by decide +kernel, by decide +kernel⟩
  refine pending_of_changes.2.1 [.single overlapping, .single restoring, .single overlapping]
    [.merged (.single restoring) (.single overlapping)] fun change => ?_
  simp only [List.flatMap_cons, List.flatMap_nil, Bundle.parts, List.cons_append, List.nil_append,
    List.mem_cons, List.not_mem_nil, or_false]
  tauto

end PendingChanges

end Reanalysis
