/-
Files that are made again. A report that succeeds has the issues of every selected file
that its change names as changed, unless calls that all found their token signalled have
left the file named as deleted: then the report has no issues of the file at all.
-/

import Reanalysis.Proofs.IncrementalHistory

namespace Reanalysis

namespace Analyzer

variable {σ : Type} {analyzer : Analyzer σ} {engine : SourcePath → String → List Issue}

section Calls

variable {change : Change} {memory : Memory} {state : σ}

theorem mem_changed_report (steady : analyzer.Steady engine) (started : memory.fresh = false)
    {file : SourcePath}
    (waits : file ∈ (analyzer.report change memory state).2.1.pending.pending.changed.files) :
    file ∈ memory.pending.pending.changed.files ∨ file ∈ change.changed.files := by
  have ofGathered (member : file ∈ (analyzer.gathered change memory).changed.files) :
      file ∈ memory.pending.pending.changed.files ∨ file ∈ change.changed.files := by
    rcases mem_gathered member with before | ⟨named, _selected⟩
    · exact Or.inl before
    · exact Or.inr named
  obtain ⟨result, last, after, ran, reported⟩ := report_reported steady change memory state
  rw [ran] at waits
  cases reported with
  | refused signalled => exact ofGathered waits
  | lost unsignalled first error failed => cases started.symm.trans first
  | complete unsignalled told =>
      dsimp only at waits
      rw [(learned_fields _).1] at waits
      cases waits
  | halted unsignalled done stopped rest cause cut told =>
      rcases Memory.mem_requeue waits with before | back
      · rw [(learned_fields done).1] at before
        cases before
      · apply ofGathered
        rw [← due_of_started started, cut]
        exact List.mem_append_right done back
  | broken unsignalled done stopped rest thrown cut told broke =>
      rw [(learned_fields done).1] at waits
      cases waits

/-- A file that waits when a report succeeds is reported under the spelling it waits with. -/
theorem exists_spelling_of_waiting (steady : analyzer.Steady engine)
    (started : memory.fresh = false) {file : SourcePath}
    (waits : (analyzer.gathered change memory).changed.contains file = true) {bytes : List UInt8}
    (present : (analyzer.tree state).read (analyzer.selection.root.join file) = .ok bytes)
    {issues : List Issue} (reported : (analyzer.report change memory state).1 = .ok issues) :
    ∃ spelling ∈ (analyzer.gathered change memory).changed.files, spelling.same file = true ∧
      (engine spelling (Utf8.lenient bytes)).Subperm issues := by
  obtain ⟨spelling, waiting, alike⟩ := (PathSet.contains_iff _ _).mp waits
  refine ⟨spelling, waiting, alike, ?_⟩
  rw [← due_of_started started state] at waiting
  obtain ⟨result, last, after, ran, came⟩ := report_reported steady change memory state
  rw [ran] at reported
  cases reported
  cases came with
  | complete unsignalled told =>
      have found : analyzer.selection.finding engine (analyzer.tree state) spelling =
          some (engine spelling (Utf8.lenient bytes)) :=
        Selection.finding_of_tells (told spelling waiting) alike present
      apply Memory.subperm_issues
      exact (get?_learned (List.append_nil _).symm waiting alike).trans found

theorem issues_apart_of_deleted (steady : analyzer.Steady engine) (filing : Filing engine)
    (started : memory.fresh = false) (filed : memory.Filed) {file : SourcePath}
    (deleted : (analyzer.gathered change memory).deleted.contains file = true)
    {issues : List Issue} (reported : (analyzer.report change memory state).1 = .ok issues) :
    ∀ issue ∈ issues, issue.file.same file = false := by
  obtain ⟨result, last, after, ran, came⟩ := report_reported steady change memory state
  rw [ran] at reported
  cases reported
  cases came with
  | complete unsignalled told =>
      apply Memory.Filed.issues_apart (filed_learned filing filed _)
      have apart : ∀ other ∈ analyzer.due change memory state, other.same file = false := by
        intro other visited
        rw [due_of_started started] at visited
        rw [Bool.eq_false_iff]
        intro alike
        have waits := (PathSet.contains_iff _ _).mpr ⟨other, visited, alike⟩
        rw [deleted_gathered] at deleted
        rw [changed_gathered, deleted, Bool.not_true, Bool.and_false] at waits
        cases waits
      rw [get?_learned_of_apart apart, get?_outset started, if_pos]
      unfold Change.touches
      rw [deleted, Bool.or_true]

end Calls

theorem filed_remember (steady : analyzer.Steady engine) (filing : Filing engine)
    {start : Memory} (filed : start.Filed) (calls : List (Occasion σ)) :
    (analyzer.remember start calls).Filed := by
  induction calls using List.reverseRecOn with
  | nil => exact filed
  | append_singleton calls call ih =>
      rw [remember_concat]
      exact filed_report steady filing ih

theorem mem_changed_remember (steady : analyzer.Steady engine) {start : Memory}
    (rested : start.Rested) {calls : List (Occasion σ)} {file : SourcePath}
    (waits : file ∈ (analyzer.remember start calls).pending.pending.changed.files) :
    ∃ call ∈ calls, file ∈ call.change.changed.files := by
  induction calls using List.reverseRecOn with
  | nil =>
      change file ∈ start.pending.pending.changed.files at waits
      rw [rested.idle] at waits
      cases waits
  | append_singleton calls call ih =>
      rw [remember_concat] at waits
      have started := started_remember steady rested.started calls
      rcases mem_changed_report steady started waits with before | named
      · obtain ⟨earlier, member, named⟩ := ih before
        exact ⟨earlier, List.mem_append_left _ member, named⟩
      · exact ⟨call, List.mem_concat_self, named⟩

/-! ### Files that are made again -/

/-- A report that succeeds after some calls, and whose change names a selected file that exists,
has what the engine finds there under a spelling that a call has named, if no deletion of the
file is left over; if one is, the report has no issue of the file. -/
theorem report_of_recreated (steady : analyzer.Steady engine) {start : Memory}
    (rested : start.Rested) {calls : List (Occasion σ)} {call : Occasion σ} {file : SourcePath}
    (selected : analyzer.selection.selects file = true)
    (named : call.change.changed.contains file = true)
    (undeleted : call.change.deleted.contains file = false) {bytes : List UInt8}
    (present : (analyzer.tree call.state).read (analyzer.selection.root.join file) = .ok bytes)
    {issues : List Issue}
    (reported : (analyzer.report call.change (analyzer.remember start calls) call.state).1 =
      .ok issues) :
    (analyzer.leftDeleted calls file = false →
      ∃ spelling : SourcePath, spelling.same file = true ∧
        (∃ naming ∈ calls ++ [call], spelling ∈ naming.change.changed.files) ∧
        (engine spelling (Utf8.lenient bytes)).Subperm issues) ∧
    (analyzer.leftDeleted calls file = true → Filing engine → start.Filed →
      ∀ issue ∈ issues, issue.file.same file = false) := by
  have started := started_remember steady rested.started calls
  have left : (analyzer.remember start calls).pending.pending.deleted.contains file =
      analyzer.leftDeleted calls file := by
    apply deleted_remember steady
    rw [rested.idle]
    rfl
  constructor
  · intro recovered
    have waits : (analyzer.gathered call.change
        (analyzer.remember start calls)).changed.contains file = true := by
      rw [changed_gathered, left, recovered, named, selected, undeleted, Bool.and_self,
        Bool.or_true]
      rfl
    obtain ⟨spelling, waiting, alike, within⟩ :=
      exists_spelling_of_waiting steady started waits present reported
    refine ⟨spelling, alike, ?_, within⟩
    rcases mem_gathered waiting with before | ⟨now, _selected⟩
    · obtain ⟨earlier, member, earlierNamed⟩ := mem_changed_remember steady rested before
      exact ⟨earlier, List.mem_append_left _ member, earlierNamed⟩
    · exact ⟨call, List.mem_concat_self, now⟩
  · intro lost filing filed
    apply issues_apart_of_deleted steady filing started (filed_remember steady filing filed calls)
      _ reported
    rw [deleted_gathered, left, lost, Bool.true_or]

namespace Remade

def full : Occasion Rehearsal := ⟨Change.empty, ⟨sources [("a.ts", "call(")], none⟩⟩

def start : Memory := (Trial.reporter.report full.change Memory.new full.state).2.1

def removed : Occasion Rehearsal := ⟨Change.ofFiles [] [⟨"src/a.ts"⟩], ⟨sources [], some 0⟩⟩

def heard : Occasion Rehearsal := ⟨Change.empty, ⟨sources [], none⟩⟩

def made : Occasion Rehearsal :=
  ⟨Change.ofFiles [⟨"src/a.ts"⟩] [], ⟨sources [("a.ts", "call[")], none⟩⟩

def unclosed : Issue :=
  ⟨⟨"src/a.ts"⟩, 1, 5, .error, "E001", "unclosed delimiter '['", .typeCheck⟩

theorem start_rested : start.Rested := by
  have succeeded : (Trial.reporter.report full.change Memory.new full.state).1.toOption =
      some [⟨⟨"src/a.ts"⟩, 1, 5, .error, "E001", "unclosed delimiter '('", .typeCheck⟩] := by
    decide +kernel
  exact rested_of_report (rehearsing_steady _ _ _) (eq_ok_of_toOption succeeded)

end Remade

/-- The file is made again after a run has taken up its removal. -/
theorem report_of_recreated_heard :
    Trial.reporter.leftDeleted [Remade.removed, Remade.heard] ⟨"src/a.ts"⟩ = false ∧
      ∃ spelling : SourcePath, spelling.same ⟨"src/a.ts"⟩ = true ∧
        (Delimiters.analyze spelling "call[").Subperm [Remade.unclosed] := by
  have present : (Remade.made.state.tree.read ⟨"/p/src/a.ts"⟩).toOption =
      some ("call[".toList.map (UInt8.ofNat ·.toNat)) := by decide +kernel
  have reported : (Trial.reporter.report Remade.made.change
      (Trial.reporter.remember Remade.start [Remade.removed, Remade.heard])
      Remade.made.state).1.toOption = some [Remade.unclosed] := by decide +kernel
  have text : Utf8.lenient ("call[".toList.map (UInt8.ofNat ·.toNat)) = "call[" := by
    decide +kernel
  have recovered : Trial.reporter.leftDeleted [Remade.removed, Remade.heard] ⟨"src/a.ts"⟩ =
      false := by decide +kernel
  have steady : Trial.reporter.Steady Delimiters.analyze := rehearsing_steady _ _ _
  have selected : Trial.reporter.selection.selects ⟨"src/a.ts"⟩ = true := by decide +kernel
  have named : Remade.made.change.changed.contains ⟨"src/a.ts"⟩ = true := by decide +kernel
  have undeleted : Remade.made.change.deleted.contains ⟨"src/a.ts"⟩ = false := by decide +kernel
  have outcome := report_of_recreated steady Remade.start_rested selected named undeleted
    (eq_ok_of_toOption present) (eq_ok_of_toOption reported)
  obtain ⟨spelling, alike, _naming, within⟩ := outcome.1 recovered
  rw [text] at within
  exact ⟨recovered, spelling, alike, within⟩

/-- The file is made again before any run has taken up its removal: the report that names it as
changed has nothing of it. -/
theorem recreated_file_not_reported :
    Remade.start.fresh = false ∧
      Remade.removed.change.deleted.contains ⟨"src/a.ts"⟩ = true ∧
      Remade.removed.state.tree.isFile ⟨"/p/src/a.ts"⟩ = false ∧
      Remade.made.change.changed.contains ⟨"src/a.ts"⟩ = true ∧
      Remade.made.change.deleted.contains ⟨"src/a.ts"⟩ = false ∧
      sourceSelection.selects ⟨"src/a.ts"⟩ = true ∧
      sourceSelection.finding Delimiters.analyze Remade.made.state.tree ⟨"src/a.ts"⟩ =
        some [Remade.unclosed] ∧
      (Trial.reporter.report Remade.made.change
        (Trial.reporter.remember Remade.start [Remade.removed]) Remade.made.state).1 = .ok [] := by
  have reported : (Trial.reporter.report Remade.made.change
      (Trial.reporter.remember Remade.start [Remade.removed]) Remade.made.state).1.toOption =
        some [] := by decide +kernel
  refine ⟨Remade.start_rested.started, ?_, ?_, ?_, ?_, ?_, ?_, eq_ok_of_toOption reported⟩
  · decide +kernel
  · decide +kernel
  · decide +kernel
  · decide +kernel
  · decide +kernel
  · decide +kernel

end Analyzer

end Reanalysis
