/-
Runs that break off. A run that fails puts back the files it did not finish; one that
breaks off loses them. A lost file is visited again once a later call names it, and not
before, so that a report without changes is complete only if the lost files have no
issues.
-/

import Reanalysis.Proofs.IncrementalHistory

namespace Reanalysis

/-- Two trees have the same selected files with the same contents, some given files apart. -/
def Selection.AgreeOff (selection : Selection) (files : List SourcePath)
    (tree other : FileTree) : Prop :=
  ∀ file : SourcePath, (∀ given ∈ files, given.same file = false) →
    (file ∈ selection.inventory tree ↔ file ∈ selection.inventory other) ∧
      (file ∈ selection.inventory tree →
        tree.read (selection.root.join file) = other.read (selection.root.join file))

/-- Whether a file has a result, or waits to be visited. -/
def Memory.covers (memory : Memory) (file : SourcePath) : Bool :=
  (memory.results.get? file).isSome || memory.pending.pending.changed.contains file

namespace Memory

/-- A memory that lacks some files reports what the whole one does just if these files have no
issues. -/
theorem issues_eq_iff_of_missing {part whole : Memory} {keep : SourcePath → Bool}
    (respects : ∀ left right : SourcePath, left.same right = true → keep left = keep right)
    (missing : ∀ key, part.results.get? key =
      if keep key then whole.results.get? key else none) :
    part.issues = whole.issues ↔
      ∀ key found, keep key = false → whole.results.get? key = some found → found = [] := by
  let kept : Memory :=
    { whole with results := ⟨whole.results.results.filter (fun held _ => keep held)⟩ }
  have sameKept : part.issues = kept.issues := by
    apply issues_congr
    intro key
    rw [missing]
    exact congrArg (Option.getD · [])
      (PathMap.find?_filter whole.results.results keep respects key).symm
  constructor
  · intro equal key found dropped held
    -- Reports of one length leave no room for issues of the files that are missing.
    have lengths : kept.issues.length = whole.issues.length := by rw [← sameKept, equal]
    unfold issues Issue.sort at lengths
    rw [List.length_mergeSort, List.length_mergeSort, snapshot_flatten, snapshot_flatten] at lengths
    have parted := (List.filter_append_perm (fun entry => keep entry.1)
      whole.results.results.entries).flatMap_right (·.2) |>.length_eq
    rw [List.flatMap_append, List.length_append] at parted
    have nothing : ((whole.results.results.entries.filter (fun entry => !keep entry.1)).flatMap
        (·.2)).length = 0 := by
      change ((whole.results.results.entries.filter (fun entry => keep entry.1)).flatMap
        (·.2)).length = _ at lengths
      omega
    obtain ⟨spelling, present, alike⟩ := PathMap.exists_of_lookup held
    have inDropped : (spelling, found) ∈
        whole.results.results.entries.filter (fun entry => !keep entry.1) := by
      refine List.mem_filter.mpr ⟨present, ?_⟩
      rw [respects spelling key alike, dropped]
      rfl
    exact List.flatMap_eq_nil_iff.mp (List.length_eq_zero_iff.mp nothing) _ inDropped
  · intro blank
    apply issues_congr
    intro key
    rw [missing]
    cases keeps : keep key with
    | true => rfl
    | false =>
        cases held : whole.results.get? key with
        | none => rfl
        | some found =>
            rw [blank key found keeps held]
            rfl

end Memory

theorem Selection.get?_survey_of_agree {selection : Selection}
    {engine : SourcePath → String → List Issue} {files : List SourcePath} {tree other : FileTree}
    (agree : selection.AgreeOff files tree other) {key : SourcePath}
    (apart : ∀ given ∈ files, given.same key = false) :
    (selection.survey engine tree).results.get? key =
      (selection.survey engine other).results.get? key := by
  have agreeAt {file : SourcePath} (alike : file.same key = true) := agree file
    (fun given member => by rw [SourcePath.same_congr_right alike]; exact apart given member)
  by_cases present : ∃ file ∈ selection.inventory tree, file.same key = true
  · obtain ⟨file, member, alike⟩ := present
    obtain ⟨both, read⟩ := agreeAt alike
    rw [get?_survey member alike, get?_survey (both.mp member) alike]
    unfold finding
    rw [read member]
  · have absent : ∀ file ∈ selection.inventory tree, file.same key = false :=
      fun file member => Bool.eq_false_iff.mpr (fun alike => present ⟨file, member, alike⟩)
    have absentToo : ∀ file ∈ selection.inventory other, file.same key = false :=
      fun file member => Bool.eq_false_iff.mpr
        (fun alike => present ⟨file, (agreeAt alike).1.mpr member, alike⟩)
    rw [get?_survey_of_apart absent, get?_survey_of_apart absentToo]

namespace Analyzer

variable {σ : Type} {analyzer : Analyzer σ} {engine : SourcePath → String → List Issue}

section Calls

variable {change : Change} {memory : Memory} {state : σ}

/-- A run that breaks off forgets the file it broke off at and all files behind it, and nothing
waits. -/
theorem lost_of_break (steady : analyzer.Steady engine) {thrown : Thrown}
    (broke : (analyzer.report change memory state).1 = .error (.broke thrown)) :
    ∃ done file rest, analyzer.due change memory state = done ++ file :: rest ∧
      (∃ around, analyzer.tree around = analyzer.tree state ∧
        (analyzer.visit file around).1 = .error (.broke thrown)) ∧
      (analyzer.report change memory state).2.1 =
        analyzer.learned change memory state engine done ∧
      ∀ other ∈ file :: rest,
        (analyzer.report change memory state).2.1.covers other = false := by
  obtain ⟨result, last, after, ran, reported⟩ := report_reported steady change memory state
  rw [ran] at broke ⊢
  cases broke
  cases reported with
  | broken unsignalled done file rest _thrown cut told brokeAt =>
      refine ⟨done, file, rest, cut, brokeAt, rfl, ?_⟩
      intro other member
      have apart : ∀ visited ∈ done, visited.same other = false := by
        have pairs := due_apart analyzer change memory state
        rw [cut] at pairs
        exact fun visited inDone => (List.pairwise_append.mp pairs).2.2 visited inDone other member
      have inDue : other ∈ analyzer.due change memory state := by
        rw [cut]
        exact List.mem_append_right done member
      unfold Memory.covers
      rw [get?_learned_of_apart apart, get?_outset_of_due inDue (SourcePath.same_refl other),
        (learned_fields done).1]
      rfl

section Cover

variable {done rest : List SourcePath} {file : SourcePath}

theorem waits_of_mem_due (started : memory.fresh = false)
    (cut : analyzer.due change memory state = done ++ rest) {visited : SourcePath}
    (member : visited ∈ done ++ rest) (alike : visited.same file = true) :
    (analyzer.gathered change memory).changed.contains file = true := by
  rw [PathSet.contains_iff]
  refine ⟨visited, ?_, alike⟩
  rw [← due_of_started started state, cut]
  exact member

theorem not_waits_of_apart (started : memory.fresh = false)
    (cut : analyzer.due change memory state = done ++ rest)
    (apartDone : ∀ other ∈ done, other.same file = false)
    (apartRest : ∀ other ∈ rest, other.same file = false) :
    (analyzer.gathered change memory).changed.contains file = false := by
  rw [Bool.eq_false_iff]
  intro contained
  obtain ⟨other, member, alike⟩ := (PathSet.contains_iff _ _).mp contained
  rw [← due_of_started started state, cut] at member
  rcases List.mem_append.mp member with inDone | inRest
  · rw [apartDone other inDone] at alike; cases alike
  · rw [apartRest other inRest] at alike; cases alike

/-- A run has learned of a file that it has visited, still knows one that did not wait, and has
nothing on one that remains. -/
theorem isSome_learned (started : memory.fresh = false)
    (undeleted : (analyzer.gathered change memory).deleted.contains file = false)
    {bytes : List UInt8}
    (present : (analyzer.tree state).read (analyzer.selection.root.join file) = .ok bytes)
    (cut : analyzer.due change memory state = done ++ rest)
    (told : ∀ other ∈ done, (analyzer.tree state).Tells (analyzer.selection.root.join other)) :
    (((analyzer.learned change memory state engine done).results.get? file).isSome ||
      rest.any (·.same file)) =
        ((memory.results.get? file).isSome ||
          (analyzer.gathered change memory).changed.contains file) := by
  by_cases visited : ∃ other ∈ done, other.same file = true
  · obtain ⟨other, member, alike⟩ := visited
    rw [waits_of_mem_due started cut (List.mem_append_left _ member) alike, Bool.or_true,
      get?_learned cut member alike,
      Selection.finding_of_tells (told other member) alike present]
    rfl
  · have apartDone : ∀ other ∈ done, other.same file = false :=
      fun other member => Bool.eq_false_iff.mpr (fun alike => visited ⟨other, member, alike⟩)
    cases left : rest.any (·.same file) with
    | true =>
        obtain ⟨other, member, alike⟩ := List.any_eq_true.mp left
        rw [waits_of_mem_due started cut (List.mem_append_right _ member) alike, Bool.or_true,
          Bool.or_true]
    | false =>
        have apartRest : ∀ other ∈ rest, other.same file = false := by
          rw [List.any_eq_false] at left
          exact fun other member => Bool.eq_false_iff.mpr (left other member)
        have unnamed := not_waits_of_apart started cut apartDone apartRest
        have untouched : (analyzer.gathered change memory).touches file = false := by
          unfold Change.touches
          rw [unnamed, undeleted]
          rfl
        rw [get?_learned_of_apart apartDone, get?_outset started, untouched, unnamed,
          if_neg Bool.false_ne_true]

end Cover

theorem covers_report (steady : analyzer.Steady engine) (started : memory.fresh = false)
    {file : SourcePath} (selected : analyzer.selection.selects file = true)
    (standing : memory.pending.pending.deleted.contains file = false)
    (undeleted : change.deleted.contains file = false) {bytes : List UInt8}
    (present : (analyzer.tree state).read (analyzer.selection.root.join file) = .ok bytes)
    (returned : ∀ thrown, (analyzer.report change memory state).1 ≠ .error (.broke thrown)) :
    (analyzer.report change memory state).2.1.covers file =
      (memory.covers file || change.changed.contains file) := by
  have waits : (analyzer.gathered change memory).changed.contains file =
      (memory.pending.pending.changed.contains file || change.changed.contains file) := by
    rw [changed_gathered, standing, undeleted, selected]
    simp
  have notDeleted : (analyzer.gathered change memory).deleted.contains file = false := by
    rw [deleted_gathered, standing, undeleted]
    rfl
  obtain ⟨result, last, after, ran, reported⟩ := report_reported steady change memory state
  rw [ran] at returned ⊢
  unfold Memory.covers
  rw [Bool.or_assoc, ← waits]
  cases reported with
  | refused signalled => rfl
  | lost unsignalled first error failed => cases started.symm.trans first
  | complete unsignalled told =>
      rw [← isSome_learned started notDeleted present (List.append_nil _).symm told]
      change (_ || (analyzer.learned change memory state engine _).pending.pending.changed.contains
        file) = _
      rw [(learned_fields _).1]
      rfl
  | halted unsignalled done stopped rest cause cut told =>
      have startedRun : (analyzer.learned change memory state engine done).fresh = false :=
        (learned_fields done).2.trans started
      rw [← isSome_learned started notDeleted present cut told, (Memory.requeue_fields _ _).1,
        Memory.changed_requeue startedRun, (learned_fields done).1]
      change (_ || ((false || _) && true)) = _
      rw [Bool.false_or, Bool.and_true]
  | broken unsignalled done stopped rest thrown cut told broke => cases returned thrown rfl

theorem selects_of_waits (steady : analyzer.Steady engine)
    (selected : ∀ file ∈ memory.pending.pending.changed.files,
      analyzer.selection.selects file = true) {file : SourcePath}
    (waits : file ∈ (analyzer.report change memory state).2.1.pending.pending.changed.files) :
    analyzer.selection.selects file = true := by
  have ofGathered {other : SourcePath}
      (member : other ∈ (analyzer.gathered change memory).changed.files) :
      analyzer.selection.selects other = true := by
    rcases mem_gathered member with before | ⟨_named, judged⟩
    · exact selected other before
    · exact judged
  obtain ⟨result, last, after, ran, reported⟩ := report_reported steady change memory state
  rw [ran] at waits
  cases reported with
  | refused signalled => exact ofGathered waits
  | lost unsignalled first error failed =>
      rw [(learned_fields _).1] at waits
      cases waits
  | complete unsignalled told =>
      dsimp only at waits
      rw [(learned_fields _).1] at waits
      cases waits
  | halted unsignalled done stopped rest cause cut told =>
      cases started : memory.fresh with
      | true =>
          unfold Memory.requeue at waits
          rw [(learned_fields done).2, started, if_pos rfl, (learned_fields done).1] at waits
          cases waits
      | false =>
          rcases Memory.mem_requeue waits with before | back
          · rw [(learned_fields done).1] at before
            cases before
          · apply ofGathered
            rw [← due_of_started started state, cut]
            exact List.mem_append_right done back
  | broken unsignalled done stopped rest thrown cut told broke =>
      rw [(learned_fields done).1] at waits
      cases waits

theorem quiet_report (steady : analyzer.Steady engine) (started : memory.fresh = false)
    (quiet : ∀ key, memory.pending.pending.touches key = false)
    (silent : ∀ key, change.touches key = false) (state : σ) :
    (∀ key, (analyzer.report change memory state).2.1.pending.pending.touches key = false) ∧
      (∀ key, (analyzer.report change memory state).2.1.results.get? key =
        memory.results.get? key) ∧
      ∀ issues, (analyzer.report change memory state).1 = .ok issues →
        issues = memory.issues := by
  have untouched (key : SourcePath) : (analyzer.gathered change memory).touches key = false := by
    have waits := quiet key
    have names := silent key
    unfold Change.touches at waits names ⊢
    rw [Bool.or_eq_false_iff] at waits names
    rw [changed_gathered, deleted_gathered, waits.1, waits.2, names.1, names.2]
    rfl
  have nothing : analyzer.due change memory state = [] := by
    rw [due_of_started started, List.eq_nil_iff_forall_not_mem]
    intro file member
    have touched := untouched file
    unfold Change.touches at touched
    rw [PathSet.contains_of_mem member] at touched
    cases touched
  have same (key : SourcePath) :
      (analyzer.learned change memory state engine []).results.get? key =
        memory.results.get? key := by
    rw [get?_learned_of_apart (fun file member => by cases member), get?_outset started,
      untouched, if_neg Bool.false_ne_true]
  obtain ⟨result, last, after, ran, reported⟩ := report_reported steady change memory state
  rw [ran]
  cases reported with
  | refused signalled =>
      exact ⟨untouched, fun key => rfl, fun issues succeeded => by cases succeeded⟩
  | lost unsignalled first error failed => cases started.symm.trans first
  | complete unsignalled told =>
      rw [nothing]
      refine ⟨?_, same, ?_⟩
      · intro key
        change (analyzer.learned change memory state engine []).pending.pending.touches key = false
        rw [(learned_fields _).1]
        rfl
      · intro issues succeeded
        cases succeeded
        exact Memory.issues_congr (fun key => by rw [same])
  | halted unsignalled done stopped rest cause cut told =>
      rw [nothing] at cut
      simp at cut
  | broken unsignalled done stopped rest thrown cut told broke =>
      rw [nothing] at cut
      simp at cut

end Calls

/-! ### What later calls make of it -/

theorem leftDeleted_of_undeleted {calls : List (Occasion σ)} {file : SourcePath}
    (undeleted : ∀ call ∈ calls, call.change.deleted.contains file = false) :
    analyzer.leftDeleted calls file = false := by
  induction calls using List.reverseRecOn with
  | nil => rfl
  | append_singleton calls call ih =>
      have earlier := fun other member => undeleted other (List.mem_append_left [call] member)
      rw [leftDeleted_concat, ih earlier, undeleted call List.mem_concat_self]
      exact Bool.and_false _

theorem covers_remember (steady : analyzer.Steady engine) {start : Memory}
    (started : start.fresh = false) {file : SourcePath}
    (selected : analyzer.selection.selects file = true)
    (standing : start.pending.pending.deleted.contains file = false)
    {calls : List (Occasion σ)} (returned : analyzer.Returns start calls)
    (undeleted : ∀ call ∈ calls, call.change.deleted.contains file = false)
    (present : ∀ call ∈ calls, ∃ bytes,
      (analyzer.tree call.state).read (analyzer.selection.root.join file) = .ok bytes) :
    (analyzer.remember start calls).covers file =
      (start.covers file || calls.any (·.change.changed.contains file)) := by
  induction calls using List.reverseRecOn with
  | nil => exact (Bool.or_false _).symm
  | append_singleton calls call ih =>
      have isLast : call ∈ calls ++ [call] := List.mem_concat_self
      have earlier := fun other member => undeleted other (List.mem_append_left [call] member)
      have readable := fun other member => present other (List.mem_append_left [call] member)
      obtain ⟨bytes, read⟩ := present call isLast
      have stillStanding :
          (analyzer.remember start calls).pending.pending.deleted.contains file = false := by
        rw [deleted_remember steady standing]
        exact leftDeleted_of_undeleted earlier
      rw [remember_concat, covers_report steady (started_remember steady started calls) selected
        stillStanding (undeleted call isLast) read (returned calls call [] rfl),
        ih returned.front earlier readable, List.any_append, Bool.or_assoc]
      simp

theorem selects_of_remember (steady : analyzer.Steady engine) {calls : List (Occasion σ)}
    {file : SourcePath}
    (waits : file ∈ (analyzer.remember Memory.new calls).pending.pending.changed.files) :
    analyzer.selection.selects file = true := by
  induction calls using List.reverseRecOn generalizing file with
  | nil => cases waits
  | append_singleton calls call ih =>
      rw [remember_concat] at waits
      exact selects_of_waits steady (fun other waited => ih waited) waits

theorem quiet_remember (steady : analyzer.Steady engine) {start : Memory}
    (started : start.fresh = false) (quiet : ∀ key, start.pending.pending.touches key = false)
    {calls : List (Occasion σ)}
    (silent : ∀ call ∈ calls, ∀ key, call.change.touches key = false) :
    (∀ key, (analyzer.remember start calls).pending.pending.touches key = false) ∧
      ∀ key, (analyzer.remember start calls).results.get? key = start.results.get? key := by
  induction calls using List.reverseRecOn with
  | nil => exact ⟨quiet, fun key => rfl⟩
  | append_singleton calls call ih =>
      obtain ⟨quietBefore, same⟩ :=
        ih (fun other member => silent other (List.mem_append_left _ member))
      have isLast : call ∈ calls ++ [call] := List.mem_concat_self
      obtain ⟨quietAfter, kept, _reports⟩ := quiet_report steady
        (started_remember steady started calls) quietBefore (silent call isLast) call.state
      rw [remember_concat]
      exact ⟨quietAfter, fun key => (kept key).trans (same key)⟩

theorem not_touches_of_isEmpty {change : Change} (empty : change.isEmpty = true)
    (key : SourcePath) : change.touches key = false := by
  unfold Change.isEmpty PathMap.isEmpty at empty
  rw [Bool.and_eq_true, List.isEmpty_iff, List.isEmpty_iff] at empty
  unfold Change.touches PathMap.contains PathMap.find?
  rw [empty.1, empty.2]
  rfl

/-! ### Lost files -/

/-- By the next report that succeeds, a file that was not covered and stays readable has been
visited just if a call has named it as changed. -/
theorem isSome_iff_of_uncovered (steady : analyzer.Steady engine) {after : Memory}
    (started : after.fresh = false) {lost : SourcePath}
    (selected : analyzer.selection.selects lost = true)
    (standing : after.pending.pending.deleted.contains lost = false)
    (uncovered : after.covers lost = false) {since : List (Occasion σ)} {last : Occasion σ}
    (returned : analyzer.Returns after since)
    (stays : ∀ later ∈ since ++ [last], later.change.deleted.contains lost = false ∧
      ∃ bytes, (analyzer.tree later.state).read (analyzer.selection.root.join lost) = .ok bytes)
    {issues : List Issue}
    (reported : (analyzer.report last.change (analyzer.remember after since) last.state).1 =
      .ok issues) :
    ((analyzer.remember after (since ++ [last])).results.get? lost).isSome = true ↔
      ∃ later ∈ since ++ [last], later.change.changed.contains lost = true := by
  have isLast : last ∈ since ++ [last] := List.mem_concat_self
  have earlier := fun other member => stays other (List.mem_append_left [last] member)
  have covered := covers_remember steady started selected standing returned
    (fun other member => (earlier other member).1) (fun other member => (earlier other member).2)
  have stillStanding :
      (analyzer.remember after since).pending.pending.deleted.contains lost = false := by
    rw [deleted_remember steady standing]
    exact leftDeleted_of_undeleted (fun other member => (earlier other member).1)
  obtain ⟨undeleted, bytes, read⟩ := stays last isLast
  have atLast := covers_report steady (started_remember steady started since) selected
    stillStanding undeleted read (fun thrown broke => by rw [reported] at broke; cases broke)
  have rested := rested_of_report steady reported
  rw [covered, uncovered, Bool.false_or] at atLast
  unfold Memory.covers at atLast
  rw [rested.idle] at atLast
  change ((analyzer.report last.change (analyzer.remember after since)
    last.state).2.1.results.get? lost).isSome.or false = _ at atLast
  rw [Bool.or_false] at atLast
  rw [remember_concat, atLast, ← List.any_eq_true, List.any_append, List.any_cons, List.any_nil,
    Bool.or_false]

/-- Without changes and edits, the next report that succeeds lacks just the issues of the files
that were lost. -/
theorem issues_eq_iff_of_lost (steady : analyzer.Steady engine) {after : Memory}
    (started : after.fresh = false)
    (quiet : ∀ key, after.pending.pending.touches key = false) {tree : FileTree}
    {lost : List SourcePath}
    (known : ∀ key, after.results.get? key =
      if lost.any (·.same key) then none
      else (analyzer.selection.survey engine tree).results.get? key)
    (plain : ∀ file ∈ lost, file.Plain ∧ analyzer.selection.selects file = true)
    (regular : analyzer.selection.Regular)
    {since : List (Occasion σ)} {last : Occasion σ}
    (silent : ∀ later ∈ since ++ [last], later.change.isEmpty = true)
    (agree : analyzer.selection.AgreeOff lost tree (analyzer.tree last.state))
    {issues : List Issue}
    (reported : (analyzer.report last.change (analyzer.remember after since) last.state).1 =
      .ok issues) :
    issues = (analyzer.selection.survey engine (analyzer.tree last.state)).issues ↔
      ∀ file ∈ lost, ∀ found,
        analyzer.selection.finding engine (analyzer.tree last.state) file = some found →
          found = [] := by
  have silentKeys := fun later member key =>
    not_touches_of_isEmpty (silent later member) key
  obtain ⟨quietBefore, same⟩ := quiet_remember steady started quiet
    (fun later member => silentKeys later (List.mem_append_left [last] member))
  have isLast : last ∈ since ++ [last] := List.mem_concat_self
  obtain ⟨_quietAfter, _kept, reports⟩ := quiet_report steady
    (started_remember steady started since) quietBefore (silentKeys last isLast) last.state
  rw [reports issues reported]
  have respects : ∀ left right : SourcePath, left.same right = true →
      (!lost.any (·.same left)) = !lost.any (·.same right) := by
    intro left right alike
    congr 2
    funext file
    exact SourcePath.same_congr_right alike file
  have missing : ∀ key, (analyzer.remember after since).results.get? key =
      if !lost.any (·.same key) then
        (analyzer.selection.survey engine (analyzer.tree last.state)).results.get? key
      else none := by
    intro key
    rw [same, known]
    cases gone : lost.any (·.same key) with
    | true => rfl
    | false =>
        rw [List.any_eq_false] at gone
        exact Selection.get?_survey_of_agree agree
          (fun file member => Bool.eq_false_iff.mpr (gone file member))
  rw [Memory.issues_eq_iff_of_missing respects missing]
  constructor
  · intro blank file member found learned
    have gone : (!lost.any (·.same file)) = false := by
      rw [Bool.not_eq_false', List.any_eq_true]
      exact ⟨file, member, SourcePath.same_refl file⟩
    apply blank file found gone
    rw [Selection.get?_survey_of_plain regular (plain file member).1 (plain file member).2
      (SourcePath.same_refl file)]
    exact learned
  · intro blank key found gone held
    rw [Bool.not_eq_false', List.any_eq_true] at gone
    obtain ⟨file, member, alike⟩ := gone
    apply blank file member found
    rw [← Selection.get?_survey_of_plain regular (plain file member).1 (plain file member).2 alike]
    exact held

/-- When a run of a reporter that has finished a full run breaks off, the file it broke off at
and all files behind it are lost. By the next report that succeeds, a lost file that stays
readable has been visited just if a call since then has named it as changed. With no changes
since then, and no edits but to lost files, that report is the first report of a new reporter
just if the lost files have no issues. -/
theorem report_after_break (steady : analyzer.Steady engine) {calls : List (Occasion σ)}
    {call : Occasion σ} (started : (analyzer.remember Memory.new calls).fresh = false)
    {thrown : Thrown} {after : Memory} {around : σ}
    (broke : analyzer.report call.change (analyzer.remember Memory.new calls) call.state =
      (.error (.broke thrown), after, around)) :
    ∃ done file rest,
      analyzer.due call.change (analyzer.remember Memory.new calls) call.state =
        done ++ file :: rest ∧
      (∃ meanwhile, analyzer.tree meanwhile = analyzer.tree call.state ∧
        (analyzer.visit file meanwhile).1 = .error (.broke thrown)) ∧
      ∀ since last issues,
        (analyzer.report last.change (analyzer.remember after since) last.state).1 = .ok issues →
        (∀ lost ∈ file :: rest,
          analyzer.Returns after since →
          (∀ later ∈ since ++ [last], later.change.deleted.contains lost = false ∧
            ∃ bytes, (analyzer.tree later.state).read (analyzer.selection.root.join lost) =
              .ok bytes) →
          (((analyzer.remember after (since ++ [last])).results.get? lost).isSome = true ↔
            ∃ later ∈ since ++ [last], later.change.changed.contains lost = true)) ∧
        (analyzer.selection.Regular → analyzer.Faithful (calls ++ [call]) →
          analyzer.Returns Memory.new calls →
          (∀ later ∈ since ++ [last], later.change.isEmpty = true) →
          analyzer.selection.AgreeOff (file :: rest) (analyzer.tree call.state)
            (analyzer.tree last.state) →
          ∀ first state others, analyzer.tree state = analyzer.tree last.state →
            (analyzer.report first Memory.new state).1 = .ok others →
            (issues = others ↔ ∀ lost ∈ file :: rest, ∀ found,
              analyzer.selection.finding engine (analyzer.tree last.state) lost = some found →
                found = [])) := by
  obtain ⟨done, file, rest, cut, brokeAt, learns, uncovered⟩ :=
    lost_of_break steady (congrArg Prod.fst broke)
  rw [broke] at learns uncovered
  change after = _ at learns
  have idle : after.pending = PendingChanges.empty := by
    rw [learns]
    exact (learned_fields done).1
  have startedAfter : after.fresh = false := by
    rw [learns, (learned_fields done).2]
    exact started
  have waited : ∀ lost ∈ file :: rest,
      lost ∈ (analyzer.gathered call.change
        (analyzer.remember Memory.new calls)).changed.files := by
    intro lost member
    rw [← due_of_started started call.state, cut]
    exact List.mem_append_right done member
  refine ⟨done, file, rest, cut, brokeAt, ?_⟩
  intro since last issues reported
  constructor
  · intro lost member returnedSince stays
    have selected : analyzer.selection.selects lost = true := by
      rcases mem_gathered (waited lost member) with before | ⟨_named, judged⟩
      · exact selects_of_remember steady before
      · exact judged
    exact isSome_iff_of_uncovered steady startedAfter selected (by rw [idle]; rfl)
      (uncovered lost member) returnedSince stays reported
  · intro regular faithful returned silent agree first state others sameTree succeeded
    have current := faithful.ready regular steady returned started
    have plain := fun lost member => current.spelled lost (waited lost member)
    have known : ∀ key, after.results.get? key =
        if (file :: rest).any (·.same key) then none
        else (analyzer.selection.survey engine (analyzer.tree call.state)).results.get? key := by
      intro key
      cases gone : (file :: rest).any (·.same key) with
      | true =>
          obtain ⟨lost, member, alike⟩ := List.any_eq_true.mp gone
          have nothing := uncovered lost member
          unfold Memory.covers at nothing
          rw [Bool.or_eq_false_iff, Option.isSome_eq_false_iff,
            Option.isNone_iff_eq_none] at nothing
          exact (PathMap.find?_congr after.results.results alike).symm.trans nothing.1
      | false =>
          rw [List.any_eq_false] at gone
          rw [learns]
          exact current.get?_learned regular started cut
            (fun lost member => Bool.eq_false_iff.mpr (gone lost member))
    rw [first_report steady succeeded, sameTree]
    exact issues_eq_iff_of_lost steady startedAfter (fun key => by rw [idle]; rfl) known plain
      regular silent agree reported

namespace Break

/-- Breaks off at a file with a mark. -/
def reporter : Analyzer Rehearsal :=
  rehearsing sourceSelection Delimiters.analyze (fun text => text == "@(")

def full : Occasion Rehearsal := ⟨Change.empty, ⟨sources [("a.ts", "call(")], none⟩⟩

def breaking : Occasion Rehearsal :=
  ⟨Change.ofFiles [⟨"src/a.ts"⟩] [], ⟨sources [("a.ts", "@(")], none⟩⟩

def restored : Occasion Rehearsal := ⟨Change.empty, ⟨sources [("a.ts", "call(")], none⟩⟩

def unclosed : Issue :=
  ⟨⟨"src/a.ts"⟩, 1, 5, .error, "E001", "unclosed delimiter '('", .typeCheck⟩

/-- What is remembered after the full run, and after the run that breaks off. -/
def before : Memory := reporter.remember Memory.new [full]

def after : Memory := (reporter.report breaking.change before breaking.state).2.1

theorem full_report : (reporter.report full.change Memory.new full.state).1 = .ok [unclosed] := by
  apply eq_ok_of_toOption
  decide +kernel

theorem breaking_report :
    (reporter.report breaking.change before breaking.state).1 =
      .error (.broke (.text "@(")) := by
  have stop : (reporter.work (reporter.due breaking.change before breaking.state)
      (reporter.outset breaking.change before) breaking.state).1 =
        some (.broke (.text "@(")) := by decide +kernel
  have unsignalled : reporter.signalled breaking.state = false := by decide
  have started : before.fresh = false := by decide +kernel
  rw [report_of_begins unsignalled (begins_of_started started breaking.state)]
  dsimp only
  rw [stop]
  rfl

theorem restored_report :
    (reporter.report restored.change after restored.state).1 = .ok [] := by
  apply eq_ok_of_toOption
  decide +kernel

theorem faithful : reporter.Faithful ([full] ++ [breaking]) := by
  have first : reporter.Faithful ([] ++ [full]) := by
    apply Faithful.single
    · exact fun file member => rfl
    · exact fun file member => by cases member
  apply first.concat
  · constructor
    · have named : ∀ file ∈ sourceSelection.inventory breaking.state.tree,
          breaking.change.changed.contains file = true := by decide +kernel
      exact fun file member _edited => named file member
    · have stays : ∀ file ∈ sourceSelection.inventory full.state.tree,
          file ∈ sourceSelection.inventory breaking.state.tree := by decide +kernel
      exact fun file member missing => absurd (stays file member) missing
  · exact fun file member => rfl
  · have named : breaking.change.changed.files = [⟨"src/a.ts"⟩] := by decide +kernel
    rw [named]
    intro file member
    rw [List.mem_singleton.mp member]
    exact Trial.plain_source "a.ts" (by unfold SourcePath.IsStep; decide)
  · intro file left
    cases left

end Break

/-- The engine breaks off at a file, which is then restored to a text with an issue. -/
theorem report_after_break_restored :
    Break.before.fresh = false ∧
      (Break.reporter.report Break.breaking.change Break.before Break.breaking.state).1 =
        .error (.broke (.text "@(")) ∧
      ∃ done file rest,
        Break.reporter.due Break.breaking.change Break.before Break.breaking.state =
          done ++ file :: rest ∧
        (([] : List Issue) = [Break.unclosed] ↔ ∀ lost ∈ file :: rest, ∀ found,
          sourceSelection.finding Delimiters.analyze Break.restored.state.tree lost = some found →
            found = []) := by
  have steady : Break.reporter.Steady Delimiters.analyze := rehearsing_steady _ _ _
  have started : Break.before.fresh = false := (rested_of_report steady Break.full_report).started
  have broke : Break.reporter.report Break.breaking.change
      (Break.reporter.remember Memory.new [Break.full]) Break.breaking.state =
        (.error (.broke (.text "@(")), Break.after,
          (Break.reporter.report Break.breaking.change Break.before Break.breaking.state).2.2) :=
    Prod.ext Break.breaking_report rfl
  obtain ⟨done, file, rest, cut, _brokeAt, outcome⟩ := report_after_break steady started broke
  have due : Break.reporter.due Break.breaking.change Break.before Break.breaking.state =
      [⟨"src/a.ts"⟩] := by decide +kernel
  have returned : Break.reporter.Returns Memory.new [Break.full] := by
    intro front call others only thrown broke
    cases front with
    | nil =>
        cases only
        have reported := Break.full_report
        rw [show Break.reporter.remember Memory.new [] = Memory.new from rfl, reported] at broke
        cases broke
    | cons first more =>
        have lengths := congrArg List.length only
        simp at lengths
  have agree : sourceSelection.AgreeOff (file :: rest) Break.breaking.state.tree
      Break.restored.state.tree := by
    change Break.reporter.due Break.breaking.change Break.before Break.breaking.state = _ at cut
    rw [due] at cut
    have given : (⟨"src/a.ts"⟩ : SourcePath) ∈ file :: rest := by
      cases done with
      | nil =>
          cases cut
          exact List.mem_cons_self
      | cons visited more =>
          have lengths := congrArg List.length cut
          simp at lengths
    have found : sourceSelection.inventory Break.breaking.state.tree = [⟨"src/a.ts"⟩] ∧
        sourceSelection.inventory Break.restored.state.tree = [⟨"src/a.ts"⟩] := by decide +kernel
    intro other apart
    rw [found.1, found.2]
    refine ⟨Iff.rfl, ?_⟩
    intro member
    have clash := apart _ given
    rw [List.mem_singleton.mp member, SourcePath.same_refl] at clash
    cases clash
  refine ⟨started, Break.breaking_report, done, file, rest, cut, ?_⟩
  exact (outcome [] Break.restored [] Break.restored_report).2 sourceSelection_regular
    Break.faithful returned (by decide) agree Change.empty Break.restored.state [Break.unclosed]
    rfl Break.full_report

/-- After the engine has broken off at a file, a report on the restored file has nothing of it,
though a new reporter has. -/
theorem lost_file_not_reported :
    Break.before.fresh = false ∧
      Break.breaking.change.changed.contains ⟨"src/a.ts"⟩ = true ∧
      (Break.reporter.report Break.breaking.change Break.before Break.breaking.state).1 =
        .error (.broke (.text "@(")) ∧
      (Break.reporter.report Change.empty Break.after Break.restored.state).1 = .ok [] ∧
      (Break.reporter.report Change.empty Memory.new Break.restored.state).1 =
        .ok [Break.unclosed] := by
  refine ⟨(rested_of_report (rehearsing_steady _ Delimiters.analyze _) Break.full_report).started,
    ?_, Break.breaking_report, Break.restored_report, Break.full_report⟩
  decide +kernel

end Analyzer

end Reanalysis
