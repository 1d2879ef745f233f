/-
Sites whose reporters are confined. A worker in this process fails by the name of its engine or is
cancelled, and alters nothing but its memory; what the crews of a site keep, the site keeps.
-/

import Reanalysis.Proofs.ConfinedSessions
import Reanalysis.Proofs.Placement

namespace Reanalysis

variable {may : Failure → Prop}

theorem Analyzer.finish_confined {σ : Type} {kind : EngineKind} {table : EngineTable}
    {selection : Selection} {tree : σ → FileTree} {signalled : σ → Bool}
    {start : Except AnalysisError (List SourcePath) × Memory}
    (refused : ∀ cause, start.1 = .error cause → cause.IsOf kind.name)
    (own : ∀ cause : AnalysisError, cause.IsOf kind.name → may (.error cause)) (state : σ) :
    FailsAs may ((builtIn kind table selection tree signalled).finish start state).1 ∧
      ((builtIn kind table selection tree signalled).finish start state).2.2 = state := by
  rw [finish_builtIn]
  refine ⟨fun failure failed => ?_, rfl⟩
  obtain ⟨cause, rfl, isOf⟩ := own_finish refused failed
  exact own cause isOf

namespace Site

variable {holds : Site → Prop} {crew index : Nat} {kind : EngineKind}

theorem localWorker_confined (project : Project) (table : EngineTable)
    (kept : ∀ memory site, holds site → holds (setMember crew index (.here memory) site))
    (own : ∀ cause : AnalysisError, cause.IsOf kind.name → may (.error cause)) :
    (localWorker project kind table crew index).Confined holds may := by
  let analyzer := Analyzer.builtIn kind table (project.selection kind) Site.tree
    fun site => site.token.cancelled
  have ran (change : Change) (share : Option Partition) (site : Site) (held : holds site) :
      let start := Service.takeUpOrder analyzer change share (memoryAt crew index site) site
      let ended := analyzer.finish start site
      FailsAs may ended.1 ∧ holds (setMember crew index (.here ended.2.1) ended.2.2) := by
    obtain ⟨fits, same⟩ := Analyzer.finish_confined
      (fun _ refused => Analyzer.own_takeUp refused) own site
    exact ⟨fits, kept _ _ (same.symm ▸ held)⟩
  constructor
  case connect => exact fun site held => ⟨failsAs_ok (), held⟩
  case report => exact fun change site => ran change none site
  case reportShare => exact fun share site => ran Change.empty (some share) site
  case seed => exact fun issues site held => ⟨failsAs_ok (), kept _ site held⟩
  case disconnect => exact fun site held => ⟨failsAs_ok (), held⟩

theorem inPool_confined {α : Type} {found : Crew} {site : Site}
    {call : Pool Site → Call (Pooled Site) α}
    (leaves : ∀ crew (pooled : Pooled Site), holds pooled.around → holds (leave crew pooled))
    (confined : Call.Confined (fun pooled : Pooled Site => holds pooled.around) may
      (call (poolOf site.project crew found))) (held : holds site) :
    FailsAs may (inPool crew found call site).1 ∧ holds (inPool crew found call site).2 := by
  obtain ⟨fits, kept⟩ := confined ⟨found.done, site⟩ held
  exact ⟨fits, leaves crew _ kept⟩

/-- What has to do with neither tokens nor announcements, nor with whether a full run is over, is
kept by a site if each of its pools keeps it. -/
theorem reporters_confined
    (pools : ∀ site crew found, holds site → site.crews[crew]? = some found →
      (poolOf site.project crew found).Confined holds may)
    (leaves : ∀ crew (pooled : Pooled Site), holds pooled.around → holds (leave crew pooled))
    (tokens : ∀ site token, holds site → holds { site with token := token })
    (announces : ∀ site announced, holds site → holds { site with announced := announced }) :
    reporters.Confined holds may := by
  constructor
  case connect =>
    intro crew site held
    change FailsAs may (connect crew site).1 ∧ holds (connect crew site).2
    unfold connect
    split
    · exact ⟨failsAs_ok (), held⟩
    · rename_i found here
      exact inPool_confined leaves (pools site crew found held here).connect held
  case ask =>
    intro number crew change signalled before kept
    have held := tokens before ⟨number, signalled⟩ kept
    have reported : FailsAs may (report crew change { before with token := ⟨number, signalled⟩ }).1 ∧
        holds (report crew change { before with token := ⟨number, signalled⟩ }).2 := by
      unfold report
      split
      · exact ⟨failsAs_ok [], held⟩
      · rename_i found here
        have confined := pools _ crew found held here
        split
        · rename_i only alone
          have member := alone ▸ List.mem_cons_self
          exact (confined.workers only member).report change _ held
        · exact inPool_confined leaves (confined.report change) held
    exact ⟨fun answer is => Option.some.inj is ▸ reported.1, reported.2⟩
  case disconnect =>
    intro crew site held
    change FailsAs may (disconnect crew site).1 ∧ holds (disconnect crew site).2
    unfold disconnect
    split
    · exact ⟨failsAs_ok (), held⟩
    · rename_i found here
      exact inPool_confined leaves (pools site crew found held here).disconnect held
  case signal => exact fun _ site held => ⟨List.forall_mem_nil _, held⟩
  case announce => exact fun _ site held => announces site _ held

theorem mem_poolOf {project : Project} {found : Crew} {worker : Worker Site}
    (member : worker ∈ (poolOf project crew found).workers) :
    ∃ index, ∃ held ∈ found.members, worker = workerAt project crew found index held := by
  obtain ⟨⟨held, index⟩, placed, rfl⟩ := List.mem_map.mp member
  exact ⟨index, held, List.fst_mem_of_mem_zipIdx placed, rfl⟩

end Site

end Reanalysis
