/-
A watch as it runs. A session alters nothing of its surroundings but through its reporters, and
those of a site leave its project alone; so whatever a watch has been through, a look compares
the files with what they were when it last saw all of them.
-/

import Reanalysis.Proofs.ConfinedSites
import Reanalysis.Proofs.PolledChanges

namespace Reanalysis

namespace Site

variable {project : Project}

theorem reporters_keep_project :
    reporters.Confined (fun site => site.project = project) fun _ => True := by
  refine reporters_confined (fun site crew found _ _ => ?_) (fun _ _ held => held)
    (fun _ _ held => held) (fun _ _ held => held)
  refine ⟨fun worker member => ?_, fun _ => trivial, trivial⟩
  obtain ⟨index, held, _, rfl⟩ := mem_poolOf member
  cases held with
  | here memory => exact localWorker_confined _ _ (fun _ _ held => held) fun _ _ => trivial
  | elsewhere handle =>
      have kept {α : Type} (result : Except Failure α) {later site : Site}
          (same : later.project = site.project) (held : site.project = project) :
          FailsAs (fun _ => True) result ∧ later.project = project :=
        ⟨fun _ _ => trivial, same.trans held⟩
      exact ⟨fun _ => kept _ rfl, fun _ _ => kept _ rfl, fun _ _ => kept _ rfl,
        fun _ _ => kept _ rfl, fun _ => kept _ rfl⟩

theorem of_new {placement : Placement} {tree : FileTree} {site : Site}
    (made : Site.new project placement tree = .ok site) :
    site.project = project ∧ site.tree = tree := by
  unfold Site.new at made
  cases crews : (project.config.enabledEngines.map Prod.fst).mapM (crewOf project placement) with
  | error cause => rw [crews] at made; cases made
  | ok held =>
      rw [crews] at made
      cases made
      exact ⟨rfl, rfl⟩

end Site

namespace Commands.Watch

variable {watch : Watch} {project : Project} {before : FileTree}

/-- A watch over a project that has last looked at its files in some tree. -/
structure LookedAt (watch : Watch) (project : Project) (tree : FileTree) : Prop where
  atWork : watch.workplace.site.project = project
  scanned : watch.workplace.scanned = project.hashes tree

theorem LookedAt.hear (looked : watch.LookedAt project before) (event : HostEvent) :
    (watch.hear event).1.LookedAt project before := by
  have posted : Session.Confined (fun site : Site => site.project = project) (fun _ => True)
      (watch.workplace.session.post event, watch.workplace.site) :=
    .of_any _ looked.atWork
  unfold Watch.hear Workplace.hear Workplace.idle Workplace.carry
  exact ⟨(posted.idle Site.reporters_keep_project).around, looked.scanned⟩

theorem of_openSite {settings : Settings} {inProcess : Bool} {tree : FileTree} {here : SourcePath}
    {site : Site} (opened : openSite settings inProcess tree here = .ok site) :
    openProject settings tree here = .ok site.project ∧ site.tree = tree := by
  unfold openSite at opened
  cases found : openProject settings tree here with
  | error explanation => rw [found] at opened; cases opened
  | ok project =>
      rw [found] at opened
      change (Site.new project (placement inProcess) tree).mapError _ = .ok site at opened
      cases made : Site.new project (placement inProcess) tree with
      | error cause => rw [made] at opened; cases opened
      | ok held =>
          rw [made] at opened
          cases opened
          obtain ⟨rfl, sameTree⟩ := Site.of_new made
          exact ⟨rfl, sameTree⟩

theorem lookedAt_of_start {settings : Settings} {interval : Option Nat} {inProcess terminal : Bool}
    {tree : FileTree} {here : SourcePath} {printed : Printed}
    (started : start settings interval inProcess terminal tree here = .ok (watch, printed)) :
    ∃ project, openProject settings tree here = .ok project ∧ project.Explorable tree ∧
      watch.LookedAt project tree := by
  unfold start at started
  cases opened : openSite settings inProcess tree here with
  | error explanation => rw [opened] at started; cases started
  | ok site =>
      rw [opened] at started
      obtain ⟨found, rfl⟩ := of_openSite opened
      rcases Project.scan_cases (Workplace.new site) with ⟨explorable, scanned⟩ | ⟨_, error, failed⟩
      · simp only [bind, Except.bind, pure, Except.pure, Except.mapError, scanned] at started
        have fresh : LookedAt ⟨⟨site.session, site, site.project.hashes site.tree⟩,
            consoleFor settings .text terminal site,
            max (interval.getD site.project.config.watch.pollMilliseconds) 1⟩ site.project
              site.tree :=
          ⟨rfl, rfl⟩
        have same := (Prod.mk.inj (Except.ok.inj started)).1
        rw [← same]
        exact ⟨site.project, found, explorable, fresh.hear .initial⟩
      · simp only [bind, Except.bind, Except.mapError, failed] at started
        cases started

/-- A look hands on the edits since the last one, if there are any. -/
theorem look_eq (looked : watch.LookedAt project before) {after : FileTree}
    (explorable : project.Explorable after) :
    ∃ next : Watch, next.LookedAt project after ∧
      watch.look after =
        if (project.edits before after).isEmpty then (next, .nothing)
        else next.hear (.incremental (project.edits before after).toChange) := by
  obtain ⟨rfl, scanned⟩ := looked
  refine ⟨{ watch with workplace := { watch.workplace.withTree after with
    scanned := watch.workplace.site.project.hashes after } }, ⟨rfl, rfl⟩, ?_⟩
  rcases Project.scan_cases (watch.workplace.withTree after) with ⟨_, taken⟩ | ⟨closed, _⟩
  · unfold look Project.edits
    rw [← scanned]
    dsimp only
    rw [taken]
    rfl
  · exact absurd explorable closed

theorem look_of_closed (looked : watch.LookedAt project before) {after : FileTree}
    (closed : ¬project.Explorable after) :
    ∃ next : Watch, next.LookedAt project before ∧ watch.look after = (next, .nothing) := by
  obtain ⟨rfl, scanned⟩ := looked
  refine ⟨{ watch with workplace := watch.workplace.withTree after }, ⟨rfl, scanned⟩, ?_⟩
  rcases Project.scan_cases (watch.workplace.withTree after) with ⟨explorable, _⟩ | ⟨_, error, failed⟩
  · exact absurd explorable closed
  · unfold look
    dsimp only
    rw [failed]

/-- The last tree, of those that a watch has come upon, in which it could see all files. -/
def lastSeen (project : Project) (first : FileTree) (trees : List FileTree) : FileTree :=
  (trees.filter (project.Explorable ·)).getLastD first

theorem lastSeen_cons (project : Project) (first tree : FileTree) (rest : List FileTree) :
    lastSeen project first (tree :: rest) =
      lastSeen project (if project.Explorable tree then tree else first) rest := by
  unfold lastSeen
  by_cases explorable : project.Explorable tree
  · rw [List.filter_cons, if_pos (decide_eq_true explorable), if_pos explorable,
      List.getLastD_cons]
  · rw [List.filter_cons, if_neg (mt of_decide_eq_true explorable), if_neg explorable]

/-- Whatever trees a watch comes upon, it has looked at the last one in which it saw all files. -/
theorem LookedAt.looks (looked : watch.LookedAt project before) (trees : List FileTree) :
    (trees.foldl (fun watch tree => (watch.look tree).1) watch).LookedAt project
      (lastSeen project before trees) := by
  induction trees generalizing watch before with
  | nil => exact looked
  | cons tree rest ih =>
      rw [List.foldl_cons, lastSeen_cons]
      refine ih ?_
      by_cases explorable : project.Explorable tree
      · obtain ⟨next, lookedNext, looks⟩ := look_eq looked explorable
        rw [looks, if_pos explorable]
        split
        · exact lookedNext
        · exact lookedNext.hear _
      · obtain ⟨next, lookedNext, looks⟩ := look_of_closed looked explorable
        rw [looks, if_neg explorable]
        exact lookedNext

/-- From its start on, a watch hands on at each look what has become of the files of its project
since it last saw all of them, and nothing if that is nothing or if it cannot see them. -/
theorem looks_hand_on_edits {settings : Settings} {interval : Option Nat}
    {inProcess terminal : Bool} {first : FileTree} {here : SourcePath} {printed : Printed}
    (started : start settings interval inProcess terminal first here = .ok (watch, printed)) :
    ∃ project, openProject settings first here = .ok project ∧
      ∀ (trees : List FileTree) (after : FileTree),
        let reached := trees.foldl (fun watch tree => (watch.look tree).1) watch
        let seen := lastSeen project first trees
        let edits := project.edits seen after
        (project.Explorable after → ∃ next : Watch, next.LookedAt project after ∧
          reached.look after =
            if edits.isEmpty then (next, .nothing) else next.hear (.incremental edits.toChange)) ∧
        (¬project.Explorable after → ∃ next : Watch, next.LookedAt project seen ∧
          reached.look after = (next, .nothing)) := by
  obtain ⟨project, opened, _explorable, looked⟩ := lookedAt_of_start started
  exact ⟨project, opened, fun trees after =>
    ⟨look_eq (looked.looks trees), look_of_closed (looked.looks trees)⟩⟩

end Commands.Watch

end Reanalysis
