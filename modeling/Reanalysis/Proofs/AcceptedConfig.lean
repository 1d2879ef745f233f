/-
Configurations that are accepted. There is some engine to be run, each of those that run has
workers and somewhere to look, and what is said about the others has no part in the checks.
-/

import Mathlib.Data.List.Basic
import Reanalysis.Config

namespace Reanalysis

structure EngineTable.Runnable (table : EngineTable) : Prop where
  workers : 1 ≤ table.workers ∧ table.workers ≤ 64
  included : table.included ≠ some []
  longestLine : 0 < table.longestLine

namespace Config

/-- There is something to be run, and nothing against it. Engines that are switched off may be
configured in any way. -/
structure Runnable (config : Config) : Prop where
  name : config.project.name ≠ ""
  included : config.files.included ≠ []
  extensions : config.files.extensions ≠ []
  leastSeverity : ∀ severity, config.issues.leastSeverity = some severity →
    severity = "warning" ∨ severity = "error"
  enabled : ∃ kind table, config.engines.find? kind = some table ∧ table.enabled = true
  engines : ∀ kind table, config.engines.find? kind = some table → table.enabled = true →
    table.Runnable

variable {config : Config} {kind : EngineKind} {table : EngineTable}

theorem mem_enabledEngines : (kind, table) ∈ config.enabledEngines ↔
    config.engines.find? kind = some table ∧ table.enabled = true := by
  unfold enabledEngines
  rw [List.mem_filterMap]
  constructor
  · rintro ⟨other, _, made⟩
    obtain ⟨held, found, same⟩ := Option.map_eq_some_iff.mp made
    cases same
    exact Option.filter_eq_some_iff.mp found
  · intro found
    have known : kind ∈ EngineKind.all := by cases kind <;> decide
    exact ⟨kind, known, Option.map_eq_some_iff.mpr ⟨table, Option.filter_eq_some_iff.mpr found, rfl⟩⟩

theorem enabledEngines_ne_nil_iff : config.enabledEngines ≠ [] ↔
    ∃ kind table, config.engines.find? kind = some table ∧ table.enabled = true := by
  constructor
  · intro present
    obtain ⟨⟨kind, table⟩, member⟩ := List.exists_mem_of_ne_nil _ present
    exact ⟨kind, table, mem_enabledEngines.mp member⟩
  · rintro ⟨kind, table, found⟩
    exact List.ne_nil_of_mem (mem_enabledEngines.mpr found)

def enables (config : Config) (kind : EngineKind) : Bool :=
  (config.engines.find? kind).any EngineTable.enabled

theorem kinds_enabledEngines (config : Config) :
    config.enabledEngines.map Prod.fst = EngineKind.all.filter config.enables := by
  unfold enabledEngines
  rw [List.map_filterMap, ← List.filterMap_eq_filter]
  refine List.filterMap_congr fun kind _ => ?_
  unfold enables Option.guard
  cases found : config.engines.find? kind with
  | none => simp [found]
  | some table => cases enabled : table.enabled <;> simp [Option.filter, found, enabled]

theorem demand_eq_nil {sound : Bool} {error : ConfigError} :
    demand sound error = [] ↔ sound = true := by
  cases sound <;> simp [demand]

theorem engineProblems_eq_nil : engineProblems kind table = [] ↔ table.Runnable := by
  unfold engineProblems
  simp only [List.append_eq_nil_iff, demand_eq_nil, Bool.and_eq_true, decide_eq_true_eq, and_assoc]
  constructor
  · rintro ⟨least, most, included, line⟩
    exact ⟨⟨least, most⟩, included, Nat.pos_of_ne_zero line⟩
  · rintro ⟨⟨least, most⟩, included, line⟩
    exact ⟨least, most, included, Nat.pos_iff_ne_zero.mp line⟩

theorem validate_eq_ok_iff : config.validate = .ok () ↔ config.Runnable := by
  have accepted : config.validate = .ok () ↔ config.problems = [] := by
    unfold validate
    cases config.problems <;> simp
  have severity : config.issues.leastSeverity.all (["warning", "error"].contains ·) = true ↔
      ∀ severity, config.issues.leastSeverity = some severity →
        severity = "warning" ∨ severity = "error" := by
    cases config.issues.leastSeverity <;> simp
  rw [accepted]
  unfold problems
  simp only [List.append_eq_nil_iff, demand_eq_nil, decide_eq_true_eq, severity,
    enabledEngines_ne_nil_iff, List.flatMap_eq_nil_iff, Prod.forall, mem_enabledEngines, engineProblems_eq_nil, and_imp]
  constructor
  · rintro ⟨⟨⟨⟨⟨name, included⟩, extensions⟩, severity⟩, enabled⟩, engines⟩
    exact ⟨name, included, extensions, severity, enabled, engines⟩
  · rintro ⟨name, included, extensions, severity, enabled, engines⟩
    exact ⟨⟨⟨⟨⟨name, included⟩, extensions⟩, severity⟩, enabled⟩, engines⟩

theorem validate_of_enabled {engines : EnginesTable}
    (same : ∀ kind, (engines.find? kind).filter EngineTable.enabled =
      (config.engines.find? kind).filter EngineTable.enabled) :
    { config with engines := engines }.validate = config.validate := by
  have alike : { config with engines := engines }.enabledEngines = config.enabledEngines :=
    List.filterMap_congr fun kind _ => congrArg (Option.map _) (same kind)
  unfold validate problems
  rw [alike]

end Config

end Reanalysis
