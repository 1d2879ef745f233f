/-
Spellings of files. The selection judges a path by its steps below the root, whereas changes
and results go by the path as it is written. As long as changes spell selected files by their
steps alone, each file has one result, and a report says of it what was found when it was
examined last, after it was named last. Under any other spelling that the selection accepts
the result of a file stays beside a second one, and outlives the file.
-/

import Mathlib.Data.List.Pairwise
import Reanalysis.Proofs.Recreation

namespace Reanalysis

namespace Selection

variable {selection : Selection} {left right file key : SourcePath}

/-- Whether two paths denote one file: their steps agree below the root, without `.` steps. -/
def OneFile (selection : Selection) (left right : SourcePath) : Prop :=
  selection.relative left = selection.relative right

/-- Whether a path is spelled by the steps that the selection judges it by. -/
def Bare (selection : Selection) (file : SourcePath) : Prop :=
  selection.relative file = file.components

instance (selection : Selection) (left right : SourcePath) :
    Decidable (selection.OneFile left right) :=
  inferInstanceAs (Decidable (selection.relative left = selection.relative right))

instance (selection : Selection) (file : SourcePath) : Decidable (selection.Bare file) :=
  inferInstanceAs (Decidable (selection.relative file = file.components))

theorem oneFile_of_same (alike : left.same right = true) : selection.OneFile left right := by
  unfold OneFile relative SourcePath.below SourcePath.startsWith
  rw [SourcePath.same_iff.mp alike]

theorem Bare.congr (bare : selection.Bare left) (alike : left.same right = true) :
    selection.Bare right := by
  have steps : selection.OneFile left right := oneFile_of_same alike
  unfold Bare OneFile at *
  rw [← steps, bare, SourcePath.same_iff.mp alike]

theorem Bare.same (leftBare : selection.Bare left) (rightBare : selection.Bare right)
    (one : selection.OneFile left right) : left.same right = true := by
  rw [SourcePath.same_iff, ← leftBare, ← rightBare]
  exact one

theorem bare_of_mem_inventory (regular : selection.Regular) {tree : FileTree}
    (member : file ∈ selection.inventory tree) : selection.Bare file := by
  obtain ⟨_selected, parts, allSteps, rfl⟩ := of_mem_inventory regular member
  unfold Bare
  rw [relative_ofComponents regular.absolute allSteps,
    SourcePath.components_ofComponents allSteps]

end Selection

def Memory.Single (selection : Selection) (memory : Memory) : Prop :=
  memory.results.files.Pairwise fun left right => ¬selection.OneFile left right

theorem Memory.Single.same {selection : Selection} {memory : Memory} {left right : SourcePath}
    (single : memory.Single selection) (inLeft : (memory.results.get? left).isSome = true)
    (inRight : (memory.results.get? right).isSome = true)
    (one : selection.OneFile left right) : left.same right = true := by
  have stored {key : SourcePath} (known : (memory.results.get? key).isSome = true) :
      ∃ held ∈ memory.results.files, held.same key = true := by
    obtain ⟨found, here⟩ := Option.isSome_iff_exists.mp known
    obtain ⟨held, present, alike⟩ := PathMap.exists_of_lookup here
    exact ⟨held, List.mem_map.mpr ⟨(held, found), present, rfl⟩, alike⟩
  obtain ⟨first, inFirst, firstAlike⟩ := stored inLeft
  obtain ⟨second, inSecond, secondAlike⟩ := stored inRight
  have both : selection.OneFile first second :=
    (Selection.oneFile_of_same firstAlike).trans
      (one.trans (Selection.oneFile_of_same secondAlike).symm)
  by_cases equal : first = second
  · subst equal
    exact SourcePath.same_trans (SourcePath.same_symm firstAlike) secondAlike
  · have symmetric : Std.Symm fun left right => ¬selection.OneFile left right :=
      ⟨fun _ _ apart one => apart one.symm⟩
    exact absurd both (List.Pairwise.forall single inFirst inSecond equal)

namespace Analyzer

variable {σ : Type} (analyzer : Analyzer σ)

/-- A selected path that is spelled by its steps. -/
def Fits (file : SourcePath) : Prop :=
  analyzer.selection.selects file = true ∧ analyzer.selection.Bare file

/-- The change names the file as deleted, however it spells it. -/
def Deletes (change : Change) (key : SourcePath) : Prop :=
  ∃ file ∈ change.deleted.files, analyzer.selection.OneFile file key

def Names (change : Change) (key : SourcePath) : Prop :=
  ∃ file ∈ change.changed.files ++ change.deleted.files, analyzer.selection.OneFile file key

/-- A change that spells the selected files it names by their steps. -/
def NamesBare (change : Change) : Prop :=
  ∀ file ∈ change.changed.files ++ change.deleted.files,
    analyzer.selection.selects file = true → analyzer.selection.Bare file

/-- A result was found in some call; no later call names its file, unless a run that starts over
or waits for the file is still to come. Only full runs examine a file that they are told is
deleted. -/
def Backed (engine : SourcePath → String → List Issue) (calls : List (Occasion σ))
    (key : SourcePath) (found : List Issue) (awaited : Prop) : Prop :=
  ∃ front seen later, calls = front ++ seen :: later ∧
    (∃ spelling, spelling.same key = true ∧
      analyzer.selection.finding engine (analyzer.tree seen.state) spelling = some found) ∧
    (analyzer.Deletes seen.change key → (analyzer.remember Memory.new front).fresh = true) ∧
    ((∃ after ∈ later, analyzer.Names after.change key) → awaited)

variable {analyzer} {engine : SourcePath → String → List Issue} {change : Change}
  {memory : Memory} {state : σ} {file key : SourcePath} {found : List Issue}

theorem Fits.congr (fits : analyzer.Fits file) (alike : file.same key = true) :
    analyzer.Fits key :=
  ⟨(Selection.selects_of_same alike).symm.trans fits.1, fits.2.congr alike⟩

theorem NamesBare.same (bare : analyzer.NamesBare change) (fits : analyzer.Fits key)
    (named : file ∈ change.changed.files ++ change.deleted.files)
    (one : analyzer.selection.OneFile file key) : file.same key = true := by
  have selected : analyzer.selection.selects file = true :=
    (Selection.selects_congr one).trans fits.1
  exact (bare file named selected).same fits.2 one

theorem NamesBare.deleted (bare : analyzer.NamesBare change) (fits : analyzer.Fits key)
    (deletes : analyzer.Deletes change key) : change.deleted.contains key = true := by
  obtain ⟨file, named, one⟩ := deletes
  have alike := bare.same fits (List.mem_append_right _ named) one
  exact (PathSet.contains_iff _ _).mpr ⟨file, named, alike⟩

theorem NamesBare.touches (bare : analyzer.NamesBare change) (fits : analyzer.Fits key)
    (names : analyzer.Names change key) : change.touches key = true := by
  obtain ⟨file, named, one⟩ := names
  have alike := bare.same fits named one
  unfold Change.touches
  rw [Bool.or_eq_true, PathSet.contains_iff, PathSet.contains_iff]
  rcases List.mem_append.mp named with changed | deleted
  · exact .inl ⟨file, changed, alike⟩
  · exact .inr ⟨file, deleted, alike⟩

theorem not_names_of_gathered (bare : analyzer.NamesBare change) (fits : analyzer.Fits key)
    (untouched : (analyzer.gathered change memory).touches key = false) :
    ¬analyzer.Names change key := by
  intro names
  obtain ⟨_before, undeleted, unchanged⟩ := touches_gathered untouched
  have touched := bare.touches fits names
  unfold Change.touches at touched
  rw [undeleted, unchanged fits.1] at touched
  cases touched

theorem fits_of_due (regular : analyzer.selection.Regular) (bare : analyzer.NamesBare change)
    (waits : ∀ file ∈ memory.pending.pending.changed.files, analyzer.Fits file)
    (member : file ∈ analyzer.due change memory state) : analyzer.Fits file := by
  cases started : memory.fresh with
  | true =>
      unfold due at member
      rw [started, if_pos rfl] at member
      exact ⟨(Selection.of_mem_inventory regular member).1,
        Selection.bare_of_mem_inventory regular member⟩
  | false =>
      rw [due_of_started started] at member
      rcases mem_gathered member with before | ⟨named, selected⟩
      · exact waits file before
      · exact ⟨selected, bare file (List.mem_append_left _ named) selected⟩

/-- A result is new, or was there before and stays since its file does not wait. -/
theorem entry_report (steady : analyzer.Steady engine)
    (held : (analyzer.report change memory state).2.1.results.get? key = some found) :
    (∃ file ∈ analyzer.due change memory state, file.same key = true ∧
      analyzer.selection.finding engine (analyzer.tree state) file = some found) ∨
    (memory.results.get? key = some found ∧ (analyzer.signalled state = false →
      memory.fresh = false ∧ (analyzer.gathered change memory).touches key = false)) := by
  have ofLearned {done rest : List SourcePath}
      (cut : analyzer.due change memory state = done ++ rest)
      (held : (analyzer.learned change memory state engine done).results.get? key = some found) :
      (∃ file ∈ analyzer.due change memory state, file.same key = true ∧
        analyzer.selection.finding engine (analyzer.tree state) file = some found) ∨
      (memory.results.get? key = some found ∧ (analyzer.signalled state = false →
        memory.fresh = false ∧ (analyzer.gathered change memory).touches key = false)) := by
    by_cases visited : ∃ file ∈ done, file.same key = true
    · obtain ⟨file, member, alike⟩ := visited
      rw [get?_learned cut member alike] at held
      exact .inl ⟨file, by rw [cut]; exact List.mem_append_left rest member, alike, held⟩
    · have apart : ∀ file ∈ done, file.same key = false := fun file member =>
        Bool.eq_false_iff.mpr fun alike => visited ⟨file, member, alike⟩
      rw [get?_learned_of_apart apart] at held
      cases started : memory.fresh with
      | true =>
          unfold outset at held
          rw [started, if_pos rfl] at held
          cases held
      | false =>
          rw [get?_outset started] at held
          split at held
          · cases held
          · rename_i untouched
            exact .inr ⟨held, fun _ => ⟨rfl, Bool.eq_false_iff.mpr untouched⟩⟩
  obtain ⟨result, last, after, ran, reported⟩ := report_reported steady change memory state
  rw [ran] at held
  cases reported with
  | refused signalled =>
      refine .inr ⟨held, fun unsignalled => ?_⟩
      rw [signalled] at unsignalled
      cases unsignalled
  | lost unsignalled first error failed => exact ofLearned (List.nil_append _).symm held
  | complete unsignalled told => exact ofLearned (List.append_nil _).symm held
  | halted unsignalled done stopped rest cause cut told =>
      dsimp only at held
      rw [(Memory.requeue_fields _ _).1] at held
      exact ofLearned cut held
  | broken unsignalled done stopped rest thrown cut told broke => exact ofLearned cut held

theorem waits_report (steady : analyzer.Steady engine) (regular : analyzer.selection.Regular)
    (bare : analyzer.NamesBare change)
    (waits : ∀ file ∈ memory.pending.pending.changed.files, analyzer.Fits file)
    (member : file ∈ (analyzer.report change memory state).2.1.pending.pending.changed.files) :
    analyzer.Fits file := by
  obtain ⟨result, last, after, ran, reported⟩ := report_reported steady change memory state
  rw [ran] at member
  cases reported with
  | refused signalled =>
      rcases mem_gathered member with before | ⟨named, selected⟩
      · exact waits file before
      · exact ⟨selected, bare file (List.mem_append_left _ named) selected⟩
  | lost unsignalled first error failed =>
      rw [(learned_fields _).1] at member
      cases member
  | complete unsignalled told =>
      dsimp only at member
      rw [(learned_fields _).1] at member
      cases member
  | halted unsignalled done stopped rest cause cut told =>
      rcases Memory.mem_requeue member with before | back
      · rw [(learned_fields done).1] at before
        cases before
      · apply fits_of_due regular bare waits
        rw [cut]
        exact List.mem_append_right done back
  | broken unsignalled done stopped rest thrown cut told broke =>
      rw [(learned_fields done).1] at member
      cases member

/-! ### Histories -/

/-- What is remembered fits, and each result is backed by a call. -/
structure Accounted (analyzer : Analyzer σ) (engine : SourcePath → String → List Issue)
    (calls : List (Occasion σ)) (memory : Memory) : Prop where
  waits : ∀ file ∈ memory.pending.pending.changed.files, analyzer.Fits file
  fits : ∀ key found, memory.results.get? key = some found → analyzer.Fits key
  backed : ∀ key found, memory.results.get? key = some found →
    analyzer.Backed engine calls key found
      (memory.fresh = true ∨ memory.pending.pending.touches key = true)

theorem fresh_of_deletes (bare : analyzer.NamesBare change)
    (waits : file ∈ analyzer.due change memory state) (fits : analyzer.Fits file)
    (deletes : analyzer.Deletes change file) : memory.fresh = true := by
  cases started : memory.fresh with
  | true => rfl
  | false =>
      rw [due_of_started started] at waits
      have waiting := PathSet.contains_of_mem waits
      rw [changed_gathered, bare.deleted fits deletes, Bool.or_true, Bool.not_true,
        Bool.and_false] at waiting
      cases waiting

theorem awaited_of_names (bare : analyzer.NamesBare change) (fits : analyzer.Fits key)
    (stays : analyzer.signalled state = false →
      memory.fresh = false ∧ (analyzer.gathered change memory).touches key = false)
    (named : analyzer.Names change key ∨ memory.fresh = true ∨
      memory.pending.pending.touches key = true) :
    (analyzer.report change memory state).2.1.fresh = true ∨
      (analyzer.report change memory state).2.1.pending.pending.touches key = true := by
  cases signalled : analyzer.signalled state with
  | true =>
      rw [report_of_signalled signalled]
      cases touched : (analyzer.gathered change memory).touches key with
      | true => exact .inr rfl
      | false =>
          rcases named with names | fresh | waits
          · exact absurd names (not_names_of_gathered bare fits touched)
          · exact .inl fresh
          · exact absurd (waits.symm.trans (touches_gathered touched).1) (by simp)
  | false =>
      obtain ⟨started, untouched⟩ := stays signalled
      rcases named with names | fresh | waits
      · exact absurd names (not_names_of_gathered bare fits untouched)
      · exact absurd (fresh.symm.trans started) (by simp)
      · exact absurd (waits.symm.trans (touches_gathered untouched).1) (by simp)

theorem Accounted.report (regular : analyzer.selection.Regular)
    (steady : analyzer.Steady engine) {calls : List (Occasion σ)} {call : Occasion σ}
    (accounted : analyzer.Accounted engine calls (analyzer.remember Memory.new calls))
    (bare : analyzer.NamesBare call.change) :
    analyzer.Accounted engine (calls ++ [call])
      (analyzer.remember Memory.new (calls ++ [call])) := by
  rw [remember_concat]
  refine ⟨fun file => waits_report steady regular bare accounted.waits, ?_, ?_⟩
  · intro key found held
    rcases entry_report steady held with ⟨file, visited, alike, _learned⟩ | ⟨before, _stays⟩
    · exact (fits_of_due regular bare accounted.waits visited).congr alike
    · exact accounted.fits key found before
  · intro key found held
    rcases entry_report steady held with ⟨file, visited, alike, learned⟩ | ⟨before, stays⟩
    · have fits := fits_of_due regular bare accounted.waits visited
      refine ⟨calls, call, [], rfl, ⟨file, alike, learned⟩, ?_, nofun⟩
      rintro ⟨name, named, one⟩
      refine fresh_of_deletes bare visited fits ⟨name, named, ?_⟩
      exact one.trans (Selection.oneFile_of_same (SourcePath.same_symm alike))
    · have fits := accounted.fits key found before
      obtain ⟨front, seen, later, cut, learned, full, awaited⟩ :=
        accounted.backed key found before
      refine ⟨front, seen, later ++ [call], by simp [cut], learned, full, ?_⟩
      rintro ⟨after, member, names⟩
      apply awaited_of_names bare fits stays
      rcases List.mem_append.mp member with earlier | last
      · exact .inr (awaited ⟨after, earlier, names⟩)
      · cases List.mem_singleton.mp last
        exact .inl names

theorem accounted_remember (regular : analyzer.selection.Regular)
    (steady : analyzer.Steady engine) {calls : List (Occasion σ)}
    (bare : ∀ call ∈ calls, analyzer.NamesBare call.change) :
    analyzer.Accounted engine calls (analyzer.remember Memory.new calls) := by
  induction calls using List.reverseRecOn with
  | nil => exact ⟨nofun, nofun, nofun⟩
  | append_singleton calls call ih =>
      exact (ih fun other member => bare other (List.mem_append_left _ member)).report regular
        steady (bare call List.mem_concat_self)

theorem Accounted.single {calls : List (Occasion σ)}
    (accounted : analyzer.Accounted engine calls memory) :
    memory.Single analyzer.selection := by
  have fits : ∀ key ∈ memory.results.files, analyzer.Fits key := by
    intro key member
    obtain ⟨⟨held, found⟩, present, rfl⟩ := List.mem_map.mp member
    exact accounted.fits held found (PathMap.find?_of_mem _ present)
  refine (PathMap.keys_apart memory.results.results).imp_of_mem ?_
  intro left right inLeft inRight apart one
  rw [(fits left inLeft).2.same (fits right inRight).2 one] at apart
  cases apart

theorem issues_of_report (steady : analyzer.Steady engine) {issues : List Issue}
    (succeeded : (analyzer.report change memory state).1 = .ok issues) :
    issues = (analyzer.report change memory state).2.1.issues := by
  obtain ⟨result, last, after, ran, reported⟩ := report_reported steady change memory state
  rw [ran] at succeeded ⊢
  cases reported with
  | refused signalled => cases succeeded
  | lost unsignalled first error failed => cases succeeded
  | complete unsignalled told =>
      cases succeeded
      rfl
  | halted unsignalled done file rest cause cut told => cases succeeded
  | broken unsignalled done file rest thrown cut told broke => cases succeeded

theorem backed_of_report (regular : analyzer.selection.Regular)
    (steady : analyzer.Steady engine) {calls : List (Occasion σ)} {call : Occasion σ}
    (bare : ∀ other ∈ calls ++ [call], analyzer.NamesBare other.change) {issues : List Issue}
    (succeeded : (analyzer.report call.change (analyzer.remember Memory.new calls)
      call.state).1 = .ok issues) :
    ∀ issue ∈ issues, ∃ key found, issue ∈ found ∧
      (analyzer.remember Memory.new (calls ++ [call])).results.get? key = some found ∧
      analyzer.Backed engine (calls ++ [call]) key found False := by
  intro issue member
  rw [issues_of_report steady succeeded, ← remember_concat] at member
  obtain ⟨key, found, held, inFound⟩ := Memory.mem_issues member
  have rested := rested_of_report steady succeeded
  rw [← remember_concat] at rested
  obtain ⟨front, seen, later, cut, learned, full, awaited⟩ :=
    (accounted_remember regular steady bare).backed key found held
  refine ⟨key, found, inFound, held, front, seen, later, cut, learned, full, fun names => ?_⟩
  rcases awaited names with fresh | waits
  · exact absurd (fresh.symm.trans rested.started) (by simp)
  · rw [rested.idle] at waits
    cases waits

/-! ### Other spellings -/

section Spellings

variable {calls : List (Occasion σ)} {spelling : SourcePath} {old issues : List Issue}

theorem gathered_rested (rested : memory.Rested) (change : Change) (key : SourcePath) :
    (analyzer.gathered change memory).touches key =
      ((change.changed.contains key && analyzer.selection.selects key) ||
        change.deleted.contains key) := by
  have nothing : memory.pending.pending.changed.contains key = false ∧
      memory.pending.pending.deleted.contains key = false := by
    rw [rested.idle]
    exact ⟨rfl, rfl⟩
  unfold Change.touches
  rw [changed_gathered, deleted_gathered, nothing.1, nothing.2]
  cases change.deleted.contains key <;> simp

theorem get?_report_of_untouched (steady : analyzer.Steady engine)
    (started : memory.fresh = false)
    (untouched : (analyzer.gathered change memory).touches key = false) :
    (analyzer.report change memory state).2.1.results.get? key = memory.results.get? key := by
  have apart {done rest : List SourcePath}
      (cut : analyzer.due change memory state = done ++ rest) :
      ∀ file ∈ done, file.same key = false := by
    intro file member
    rw [Bool.eq_false_iff]
    intro alike
    have visited : file ∈ analyzer.due change memory state := by
      rw [cut]
      exact List.mem_append_left rest member
    rw [due_of_started started] at visited
    have waits := (PathSet.contains_iff _ _).mpr ⟨file, visited, alike⟩
    unfold Change.touches at untouched
    rw [waits] at untouched
    cases untouched
  have kept {done rest : List SourcePath}
      (cut : analyzer.due change memory state = done ++ rest) :
      (analyzer.learned change memory state engine done).results.get? key =
        memory.results.get? key := by
    rw [get?_learned_of_apart (apart cut), get?_outset started, untouched,
      if_neg Bool.false_ne_true]
  obtain ⟨result, last, after, ran, reported⟩ := report_reported steady change memory state
  rw [ran]
  cases reported with
  | refused signalled => rfl
  | lost unsignalled first error failed => cases started.symm.trans first
  | complete unsignalled told => exact kept (List.append_nil _).symm
  | halted unsignalled done file rest cause cut told =>
      dsimp only
      rw [(Memory.requeue_fields _ _).1]
      exact kept cut
  | broken unsignalled done file rest thrown cut told broke => exact kept cut

theorem isSome_report_of_waiting (steady : analyzer.Steady engine)
    (started : memory.fresh = false)
    (waits : (analyzer.gathered change memory).changed.contains file = true) {bytes : List UInt8}
    (present : (analyzer.tree state).read (analyzer.selection.root.join file) = .ok bytes)
    (succeeded : (analyzer.report change memory state).1 = .ok issues) :
    ((analyzer.report change memory state).2.1.results.get? file).isSome = true := by
  obtain ⟨held, waiting, alike⟩ := (PathSet.contains_iff _ _).mp waits
  rw [← due_of_started started state] at waiting
  obtain ⟨result, last, after, ran, reported⟩ := report_reported steady change memory state
  rw [ran] at succeeded ⊢
  cases reported with
  | refused signalled => cases succeeded
  | lost unsignalled first error failed => cases succeeded
  | complete unsignalled told =>
      have found : analyzer.selection.finding engine (analyzer.tree state) held =
          some (engine held (Utf8.lenient bytes)) :=
        Selection.finding_of_tells (told held waiting) alike present
      dsimp only
      rw [get?_learned (List.append_nil _).symm waiting alike, found]
      rfl
  | halted unsignalled done stopped rest cause cut told => cases succeeded
  | broken unsignalled done stopped rest thrown cut told broke => cases succeeded

/-- Under a spelling that is not bare a file gets a second result. -/
theorem changed_under_spelling (steady : analyzer.Steady engine) (rested : memory.Rested)
    (fits : analyzer.Fits file) (held : memory.results.get? file = some old)
    (one : analyzer.selection.OneFile spelling file) (other : ¬analyzer.selection.Bare spelling)
    {bytes : List UInt8}
    (present : (analyzer.tree state).read (analyzer.selection.root.join spelling) = .ok bytes)
    (succeeded : (analyzer.report (Change.ofFiles [spelling] []) memory state).1 = .ok issues) :
    ¬(analyzer.report (Change.ofFiles [spelling] []) memory state).2.1.Single
        analyzer.selection ∧
      old.Subperm issues := by
  have apart : spelling.same file = false := by
    rw [Bool.eq_false_iff]
    exact fun alike => other (fits.2.congr (SourcePath.same_symm alike))
  have selected : analyzer.selection.selects spelling = true :=
    (Selection.selects_congr one).trans fits.1
  have named : (Change.ofFiles [spelling] []).changed.contains spelling = true := by
    simp [Change.changed_ofFiles, SourcePath.same_refl]
  have kept : (analyzer.report (Change.ofFiles [spelling] []) memory state).2.1.results.get?
      file = some old := by
    rw [get?_report_of_untouched steady rested.started, held]
    simp [gathered_rested rested, Change.changed_ofFiles, Change.deleted_ofFiles, apart]
  constructor
  · intro single
    have waits : (analyzer.gathered (Change.ofFiles [spelling] []) memory).changed.contains
        spelling = true := by
      have nothing : memory.pending.pending.deleted.contains spelling = false := by
        rw [rested.idle]
        rfl
      simp [changed_gathered, named, selected, nothing, Change.deleted_ofFiles]
    have added := isSome_report_of_waiting steady rested.started waits present succeeded
    rw [single.same added (by simp [kept]) one] at apart
    cases apart
  · rw [issues_of_report steady succeeded]
    exact Memory.subperm_issues kept

/-- Under a spelling that is not bare a file keeps its result when it is named as deleted. -/
theorem deleted_under_spelling (steady : analyzer.Steady engine) (filing : Filing engine)
    (rested : memory.Rested) (filed : memory.Filed) (fits : analyzer.Fits file)
    (held : memory.results.get? file = some old)
    (one : analyzer.selection.OneFile spelling file)
    (succeeded : (analyzer.report (Change.ofFiles [] [spelling]) memory state).1 = .ok issues) :
    (analyzer.selection.Bare spelling → ∀ issue ∈ issues, issue.file.same file = false) ∧
      (¬analyzer.selection.Bare spelling → old.Subperm issues) := by
  constructor
  · intro bare
    have alike := bare.same fits.2 one
    apply issues_apart_of_deleted steady filing rested.started filed ?_ succeeded
    simp [deleted_gathered, Change.deleted_ofFiles, alike]
  · intro other
    have apart : spelling.same file = false := by
      rw [Bool.eq_false_iff]
      exact fun alike => other (fits.2.congr (SourcePath.same_symm alike))
    rw [issues_of_report steady succeeded]
    apply Memory.subperm_issues
    rw [get?_report_of_untouched steady rested.started, held]
    simp [gathered_rested rested, Change.changed_ofFiles, Change.deleted_ofFiles, apart]

end Spellings

theorem namesBare_ofFiles {spelling : SourcePath} (bare : analyzer.selection.Bare spelling) :
    analyzer.NamesBare (Change.ofFiles [spelling] []) := by
  intro name member _selected
  rcases List.mem_append.mp member with changed | deleted
  · cases List.mem_singleton.mp (Change.mem_changed_ofFiles changed)
    exact bare
  · cases deleted

/-- Along every history whose changes spell selected files by their steps each file has one
result, and a report that succeeds says of each file what was found in a call after which no
call names the file; that call was a full run if it was told that the file is deleted. A file
with a result that is then named as changed gets no second result just if it is spelled so; one
that is named as deleted has issues in the next report just if it is not. -/
theorem one_result_of_bare_names (regular : analyzer.selection.Regular)
    (steady : analyzer.Steady engine) {calls : List (Occasion σ)}
    (bare : ∀ call ∈ calls, analyzer.NamesBare call.change) :
    let before := analyzer.remember Memory.new calls
    before.Single analyzer.selection ∧
    (∀ front call issues, calls = front ++ [call] →
      (analyzer.report call.change (analyzer.remember Memory.new front) call.state).1 =
        .ok issues →
      ∀ issue ∈ issues, ∃ key found, issue ∈ found ∧ before.results.get? key = some found ∧
        analyzer.Backed engine calls key found False) ∧
    (before.Rested → ∀ file old spelling state, before.results.get? file = some old →
      analyzer.selection.OneFile spelling file →
      (∀ bytes issues,
        (analyzer.tree state).read (analyzer.selection.root.join spelling) = .ok bytes →
        (analyzer.report (Change.ofFiles [spelling] []) before state).1 = .ok issues →
        ((analyzer.report (Change.ofFiles [spelling] []) before state).2.1.Single
            analyzer.selection ↔ analyzer.selection.Bare spelling) ∧
          (¬analyzer.selection.Bare spelling → old.Subperm issues)) ∧
      (∀ issues, Filing engine → old ≠ [] →
        (analyzer.report (Change.ofFiles [] [spelling]) before state).1 = .ok issues →
        ((∃ issue ∈ issues, issue.file.same file = true) ↔
          ¬analyzer.selection.Bare spelling))) := by
  dsimp only
  have accounted := accounted_remember regular steady bare
  refine ⟨accounted.single, ?_, fun rested file old spelling state held one => ⟨?_, ?_⟩⟩
  · rintro front call issues rfl succeeded
    exact backed_of_report regular steady bare succeeded
  · intro bytes issues present succeeded
    have fits := accounted.fits file old held
    refine ⟨⟨fun single => ?_, fun spelled => ?_⟩, fun other =>
      (changed_under_spelling steady rested fits held one other present succeeded).2⟩
    · by_contra other
      exact (changed_under_spelling steady rested fits held one other present succeeded).1 single
    · have next : analyzer.Accounted engine (calls ++ [⟨_, state⟩]) _ :=
        accounted.report regular steady (namesBare_ofFiles spelled)
      rw [remember_concat] at next
      exact next.single
  · intro issues filing nonempty succeeded
    have filed := filed_remember steady filing Memory.filed_new calls
    have outcome := deleted_under_spelling steady filing rested filed
      (accounted.fits file old held) held one succeeded
    constructor
    · rintro ⟨issue, member, alike⟩ spelled
      rw [outcome.1 spelled issue member] at alike
      cases alike
    · intro other
      obtain ⟨issue, inOld⟩ := List.exists_mem_of_ne_nil old nonempty
      exact ⟨issue, (outcome.2 other).subset inOld, filed file old held issue inOld⟩

namespace Spelled

def reporter : Analyzer Rehearsal :=
  rehearsing sourceSelection Delimiters.analyze (fun _ => false)

def full : Occasion Rehearsal := ⟨Change.empty, ⟨sources [("a.ts", "call(")], none⟩⟩

def mended : Occasion Rehearsal :=
  ⟨Change.ofFiles [⟨"./src/a.ts"⟩] [], ⟨sources [("a.ts", "call()")], none⟩⟩

def removed : Occasion Rehearsal :=
  ⟨Change.ofFiles [] [⟨"./src/a.ts"⟩], ⟨sources [], none⟩⟩

/-- What is remembered after the full run, and after the run on the mended file. -/
def before : Memory := reporter.remember Memory.new [full]

def after : Memory := (reporter.report mended.change before mended.state).2.1

def unclosed : Issue :=
  ⟨⟨"src/a.ts"⟩, 1, 5, .error, "E001", "unclosed delimiter '('", .typeCheck⟩

theorem full_report : (reporter.report full.change Memory.new full.state).1 = .ok [unclosed] := by
  apply eq_ok_of_toOption
  decide +kernel

theorem mended_report :
    (reporter.report mended.change before mended.state).1 = .ok [unclosed] := by
  apply eq_ok_of_toOption
  decide +kernel

theorem removed_report :
    (reporter.report removed.change before removed.state).1 = .ok [unclosed] := by
  apply eq_ok_of_toOption
  decide +kernel

theorem before_result : before.results.get? ⟨"src/a.ts"⟩ = some [unclosed] := by
  decide +kernel

theorem filing : Filing Delimiters.analyze := by
  intro file text issue member
  obtain ⟨defect, _inDefects, rfl⟩ := List.mem_map.mp member
  exact SourcePath.same_refl file

end Spelled

/-- After a full run the file is named with a leading dot, as changed or as deleted. -/
theorem one_result_of_bare_names_of_dots :
    Spelled.before.Single sourceSelection ∧
      ¬(Spelled.reporter.report Spelled.mended.change Spelled.before
        Spelled.mended.state).2.1.Single sourceSelection ∧
      ∃ issue ∈ [Spelled.unclosed], issue.file.same ⟨"src/a.ts"⟩ = true := by
  have regular : Spelled.reporter.selection.Regular := sourceSelection_regular
  have steady : Spelled.reporter.Steady Delimiters.analyze := rehearsing_steady _ _ _
  have bare : ∀ call ∈ [Spelled.full], Spelled.reporter.NamesBare call.change := by
    intro call member
    rw [List.mem_singleton.mp member]
    exact fun file named _selected => by cases named
  obtain ⟨single, _backed, spellings⟩ := one_result_of_bare_names regular steady bare
  have rested : Spelled.before.Rested := rested_of_report steady Spelled.full_report
  have one : sourceSelection.OneFile ⟨"./src/a.ts"⟩ ⟨"src/a.ts"⟩ := by decide +kernel
  have dotted : ¬sourceSelection.Bare ⟨"./src/a.ts"⟩ := by decide +kernel
  have changes := (spellings rested _ _ _ Spelled.mended.state Spelled.before_result one).1
  have deletes := (spellings rested _ _ _ Spelled.removed.state Spelled.before_result one).2
  refine ⟨single, fun second => ?_, ?_⟩
  · have read : Spelled.mended.state.tree.read (sourceSelection.root.join ⟨"./src/a.ts"⟩) =
        .ok ("call()".toList.map (UInt8.ofNat ·.toNat)) := by
      apply eq_ok_of_toOption
      decide +kernel
    exact dotted ((changes _ _ read Spelled.mended_report).1.mp second)
  · exact (deletes _ Spelled.filing (by simp) Spelled.removed_report).mpr dotted

/-- A file with an issue is mended, and a change names it with a leading dot, as the selection
accepts: the report still has the issue, and there are two results. So has the next report, when
the file is removed and the change names it so as deleted. -/
theorem dotted_file_still_reported :
    sourceSelection.selects ⟨"./src/a.ts"⟩ = true ∧
      sourceSelection.OneFile ⟨"./src/a.ts"⟩ ⟨"src/a.ts"⟩ ∧
      (Spelled.reporter.report Spelled.full.change Memory.new Spelled.full.state).1 =
        .ok [Spelled.unclosed] ∧
      sourceSelection.finding Delimiters.analyze Spelled.mended.state.tree ⟨"src/a.ts"⟩ =
        some [] ∧
      (Spelled.reporter.report Spelled.mended.change Spelled.before Spelled.mended.state).1 =
        .ok [Spelled.unclosed] ∧
      Spelled.after.results.files = [⟨"./src/a.ts"⟩, ⟨"src/a.ts"⟩] ∧
      sourceSelection.finding Delimiters.analyze Spelled.removed.state.tree ⟨"src/a.ts"⟩ =
        none ∧
      (Spelled.reporter.report Spelled.removed.change Spelled.after Spelled.removed.state).1 =
        .ok [Spelled.unclosed] := by
  refine ⟨?_, ?_, Spelled.full_report, ?_, Spelled.mended_report, ?_, ?_, ?_⟩
  case refine_6 => exact eq_ok_of_toOption (by decide +kernel)
  all_goals decide +kernel

end Analyzer

end Reanalysis
