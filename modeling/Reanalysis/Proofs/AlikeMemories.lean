/-
Memories that report alike. Two memories are alike when the same changes wait in them and
they hold the same issues of each file up to sorting. The same call makes the same of
alike memories: its answer, what it does to its surroundings, and memories that are alike
again.
-/

import Reanalysis.Proofs.AnalysisRun

namespace Reanalysis

namespace Memory

structure Alike (left right : Memory) : Prop where
  fresh : left.fresh = right.fresh
  pending : left.pending = right.pending
  results : ∀ key, Issue.sort ((left.results.get? key).getD []) =
    Issue.sort ((right.results.get? key).getD [])

variable {left right : Memory}

theorem Alike.record (alike : Alike left right) (file : SourcePath) (issues : List Issue) :
    Alike (left.record file issues) (right.record file issues) := by
  refine ⟨alike.fresh, alike.pending, ?_⟩
  intro key
  rw [get?_record, get?_record]
  split
  · rfl
  · exact alike.results key

theorem Alike.requeue (alike : Alike left right) (files : List SourcePath) :
    Alike (left.requeue files) (right.requeue files) := by
  refine ⟨?_, ?_, ?_⟩
  · rw [(requeue_fields left files).2, (requeue_fields right files).2, alike.fresh]
  · unfold Memory.requeue
    rw [alike.fresh]
    split
    · exact alike.pending
    · exact congrArg (PendingChanges.accumulate · _) alike.pending
  · intro key
    rw [(requeue_fields left files).1, (requeue_fields right files).1]
    exact alike.results key

end Memory

namespace Analyzer

open Memory

variable {σ : Type} (analyzer : Analyzer σ) {left right : Memory}

theorem attempt_alike (alike : Alike left right) (file : SourcePath) (rest : List SourcePath)
    (state : σ) :
    (analyzer.attempt file rest left state).1 = (analyzer.attempt file rest right state).1 ∧
      (analyzer.attempt file rest left state).2.2 =
        (analyzer.attempt file rest right state).2.2 ∧
      Alike (analyzer.attempt file rest left state).2.1
        (analyzer.attempt file rest right state).2.1 := by
  unfold attempt
  cases analyzer.signalled state with
  | true => exact ⟨rfl, rfl, alike.requeue _⟩
  | false =>
      cases analyzer.visit file state with
      | mk result after =>
          cases result with
          | ok found =>
              cases found with
              | none => exact ⟨rfl, rfl, alike⟩
              | some issues => exact ⟨rfl, rfl, alike.record file issues⟩
          | error failure =>
              cases failure with
              | error cause => exact ⟨rfl, rfl, alike.requeue _⟩
              | broke thrown => exact ⟨rfl, rfl, alike⟩

theorem work_alike (alike : Alike left right) (files : List SourcePath) (state : σ) :
    (analyzer.work files left state).1 = (analyzer.work files right state).1 ∧
      (analyzer.work files left state).2.2 = (analyzer.work files right state).2.2 ∧
      Alike (analyzer.work files left state).2.1 (analyzer.work files right state).2.1 := by
  induction files generalizing left right state with
  | nil => exact ⟨rfl, rfl, alike⟩
  | cons file rest ih =>
      have step := attempt_alike analyzer alike file rest state
      unfold work
      revert step
      cases analyzer.attempt file rest left state with
      | mk stop leftAfter =>
          cases analyzer.attempt file rest right state with
          | mk otherStop rightAfter =>
              obtain ⟨leftMemory, leftState⟩ := leftAfter
              obtain ⟨rightMemory, rightState⟩ := rightAfter
              rintro ⟨stops, states, alikeAfter⟩
              dsimp only at stops states alikeAfter
              subst stops states
              cases stop with
              | none => exact ih alikeAfter leftState
              | some failure => exact ⟨rfl, rfl, alikeAfter⟩

theorem outset_alike (alike : Alike left right) (change : Change) (state : σ) :
    analyzer.gathered change left = analyzer.gathered change right ∧
      analyzer.due change left state = analyzer.due change right state ∧
      Alike (analyzer.outset change left) (analyzer.outset change right) := by
  have gather : analyzer.gathered change left = analyzer.gathered change right := by
    unfold gathered
    rw [alike.pending]
  refine ⟨gather, ?_, alike.fresh, rfl, ?_⟩
  · unfold due
    rw [gather, alike.fresh]
  · intro key
    cases started : right.fresh with
    | true =>
        unfold outset
        rw [alike.fresh, started]
        rfl
    | false =>
        rw [get?_outset started, get?_outset (alike.fresh.trans started), gather]
        split
        · rfl
        · exact alike.results key

theorem report_alike (alike : Alike left right) (change : Change) (state : σ) :
    (analyzer.report change left state).1 = (analyzer.report change right state).1 ∧
      (analyzer.report change left state).2.2 = (analyzer.report change right state).2.2 ∧
      Alike (analyzer.report change left state).2.1
        (analyzer.report change right state).2.1 := by
  obtain ⟨gather, dues, outsets⟩ := outset_alike analyzer alike change state
  cases signalled : analyzer.signalled state with
  | true =>
      rw [report_of_signalled signalled, report_of_signalled signalled, gather]
      exact ⟨rfl, rfl, alike.fresh, rfl, alike.results⟩
  | false =>
      rcases begins_or_lost analyzer right state with begins | ⟨first, error, failed⟩
      · have begun : analyzer.Begins left state := fun first =>
          begins (alike.fresh.symm.trans first)
        rw [report_of_begins signalled begun, report_of_begins signalled begins, dues]
        obtain ⟨stops, states, lasts⟩ := work_alike analyzer outsets
          (analyzer.due change right state) state
        dsimp only
        rw [stops, states]
        cases (analyzer.work (analyzer.due change right state) (analyzer.outset change right)
          state).1 with
        | some failure => exact ⟨rfl, rfl, lasts⟩
        | none =>
            refine ⟨?_, rfl, ⟨rfl, lasts.pending, lasts.results⟩⟩
            exact congrArg Except.ok (issues_eq_of_sort lasts.results)
      · rw [report_of_lost signalled (alike.fresh.trans first) failed,
          report_of_lost signalled first failed]
        exact ⟨rfl, rfl, outsets⟩

end Analyzer

end Reanalysis
