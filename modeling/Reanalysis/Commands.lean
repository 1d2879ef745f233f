/-
The commands of the program as functions of the file tree: one analysis of a
project, its repetition as files change, and a worker for one engine. What the
program logs is left out.
-/

import Reanalysis.Console
import Reanalysis.Workplace

namespace Reanalysis

structure Exit where
  code : Nat
  printed : Printed
deriving DecidableEq, Repr

namespace Exit

def failed (explanation : String) : Exit := ⟨1, ⟨"", "error: " ++ explanation ++ "\n"⟩⟩

end Exit

namespace Commands

def placement (inProcess : Bool) : Placement := if inProcess then .inProcess else .workers

/-- Whether to color; `terminal` says whether the error stream goes to one. -/
def colored (choice : ColorChoice) (terminal : Bool) : Bool :=
  match choice with
  | .auto => terminal
  | .always => true
  | .never => false

def openProject (settings : Settings) (tree : FileTree) (here : SourcePath) :
    Except String Project := do
  let path ← Project.locate tree here settings.config
  (Project.load tree here path).mapError ConfigError.describe

def openSite (settings : Settings) (inProcess : Bool) (tree : FileTree) (here : SourcePath) :
    Except String Site := do
  let project ← openProject settings tree here
  (Site.new project (placement inProcess) tree).mapError AnalysisError.describe

def consoleFor (settings : Settings) (format : ReportFormat) (terminal : Bool) (site : Site) :
    Console :=
  ⟨⟨colored settings.color terminal, some site.project.root⟩, format, settings.quiet⟩

def heading (settings : Settings) (verb : String) (site : Site) (note : String) :
    Printed :=
  if settings.quiet then .nothing
  else
    let engines := String.intercalate ", " (site.crews.map fun crew => crew.kind.name)
    ⟨"", "   " ++ verb ++ " " ++ site.project.config.project.name ++ " (" ++ engines ++ ")" ++
      note ++ "\n"⟩

/-- What comes of the first cycle of a site, which is torn down afterwards. -/
def analyzeOnce (site : Site) : Option Outcome :=
  ((Workplace.new site).settle [Change.empty]).teardown.outcome? 1

def checkSite (settings : Settings) (format : ReportFormat) (terminal : Bool) (site : Site) :
    Exit :=
  let console := consoleFor settings format terminal site
  let head := heading settings "Checking" site ""
  let ending : Exit :=
    match analyzeOnce site with
    | some (.resolved issues) =>
        ⟨if (Tally.ofIssues issues).hasErrors then 1 else 0, console.report site.tree issues⟩
    | some (.errored error) => ⟨2, ⟨"", "error: " ++ error.describe ++ "\n"⟩⟩
    | some .cancelled => Exit.failed "analysis was cancelled"
    | none => Exit.failed "analysis did not complete"
  ⟨ending.code, head ++ ending.printed⟩

def check (settings : Settings) (format : ReportFormat) (inProcess terminal : Bool)
    (tree : FileTree) (here : SourcePath) : Exit :=
  match openSite settings inProcess tree here with
  | .error explanation => Exit.failed explanation
  | .ok site => checkSite settings format terminal site

/-- A watch over a project, and where its reports are printed. -/
structure Watch where
  workplace : Workplace
  console : Console
  interval : Nat

namespace Watch

def hear (watch : Watch) (event : HostEvent) : Watch × Printed :=
  let (workplace, announced) := watch.workplace.hear event
  let printed := announced.foldl
    (fun printed announcement =>
      printed ++ watch.console.announce workplace.site.tree announcement) .nothing
  ({ watch with workplace := workplace }, printed)

/-- Starts with a first look at the files and an analysis of everything. The interval is at
least one millisecond. -/
def start (settings : Settings) (interval : Option Nat) (inProcess terminal : Bool)
    (tree : FileTree) (here : SourcePath) : Except Exit (Watch × Printed) := do
  let site ← (openSite settings inProcess tree here).mapError Exit.failed
  let head := heading settings "Watching" site ", press Ctrl-C to stop"
  let (_, place) ← (Workplace.new site).scan.mapError fun error =>
    ⟨1, head ++ (Exit.failed error.describe).printed⟩
  let watch : Watch :=
    { workplace := place
      console := consoleFor settings .text terminal site
      interval := max (interval.getD site.project.config.watch.pollMilliseconds) 1 }
  let (next, printed) := watch.hear .initial
  pure (next, head ++ printed)

/-- Looks at the files again, and analyzes those that have changed, if any have. Files that
cannot be found are looked at another time. -/
def look (watch : Watch) (tree : FileTree) : Watch × Printed :=
  let place := watch.workplace.withTree tree
  match place.scan with
  | .error _ => ({ watch with workplace := place }, .nothing)
  | .ok (difference, scanned) =>
      let next := { watch with workplace := scanned }
      if difference.isEmpty then (next, .nothing)
      else next.hear (.incremental difference.toChange)

def stop (watch : Watch) : Exit := ⟨0, (watch.hear .teardown).2⟩

end Watch

/-- The worker process for an engine that was named on the command line. -/
def worker (settings : Settings) (engine : String) (tree : FileTree) (here : SourcePath) :
    Except String WorkerProcess :=
  match EngineKind.ofName? engine, settings.config with
  | none, _ => .error ("unknown engine '" ++ engine ++ "'")
  | some _, none => .error "worker requires --config"
  | some kind, some path => do
      let project ← (Project.load tree here path).mapError ConfigError.describe
      let table ← (project.engineTable kind).mapError AnalysisError.describe
      pure (.serving project kind table (Service.new kind.name))

def version : String := "vigil 0.1.0"

def usage : String :=
  "Usage: vigil [OPTIONS] <COMMAND>\n\n" ++
    "Commands:\n" ++
    "  check  Analyze the project once and report every issue\n" ++
    "  watch  Analyze the project, then re-analyze changed files until interrupted\n" ++
    "  help   Print this message\n\n" ++
    "Options:\n" ++
    "  -q, --quiet            Suppress all output except errors\n" ++
    "  -v, --verbose          Enable verbose output\n" ++
    "      --color <COLOR>    Control colored output [auto, always, never]\n" ++
    "      --config <CONFIG>  Path to a custom configuration file\n" ++
    "  -h, --help             Print help\n" ++
    "  -V, --version          Print version\n"

/-- What a command does that needs no further input: a watch is ended as soon as its first
report is there, and a worker that hears nothing has nothing to say. -/
def run (invocation : Invocation) (terminal : Bool) (tree : FileTree) (here : SourcePath) : Exit :=
  match invocation with
  | .refused => ⟨2, ⟨"", usage⟩⟩
  | .help => ⟨0, ⟨usage, ""⟩⟩
  | .version => ⟨0, ⟨version ++ "\n", ""⟩⟩
  | .run settings (.check format inProcess) =>
      check settings format inProcess terminal tree here
  | .run settings (.watch interval inProcess) =>
      match Watch.start settings interval inProcess terminal tree here with
      | .error exit => exit
      | .ok (watch, printed) => ⟨0, printed ++ watch.stop.printed⟩
  | .run settings (.worker engine) =>
      match worker settings engine tree here with
      | .error explanation => Exit.failed explanation
      | .ok _ => ⟨0, .nothing⟩

end Commands

end Reanalysis
