/-
The engines themselves, and the workers that run them over one memory each.
-/

import Reanalysis.Config
import Reanalysis.Engine.Analyzer
import Reanalysis.Engine.Delimiters
import Reanalysis.Engine.LineRules
import Reanalysis.Pool

namespace Reanalysis

namespace EngineTable

def rules (table : EngineTable) : LineRules :=
  LineRules.of table.allowed table.denied table.longestLine

/-- What an engine finds in a file, under the settings of its table. -/
def examine (table : EngineTable) (kind : EngineKind) (file : SourcePath) (text : String) :
    List Issue :=
  match kind with
  | .check => Delimiters.analyze file text
  | .lint => table.rules.analyze file text

end EngineTable

/-- A worker in the same surroundings as its analyzer, which also hold its memory. -/
def Analyzer.worker {σ : Type} (analyzer : Analyzer σ) (held : σ → Memory)
    (hold : Memory → σ → σ) : Worker σ :=
  let run := fun (call : Memory → σ → Except Failure (List Issue) × Memory × σ) (state : σ) =>
    let (result, memory, after) := call (held state) state
    (result, hold memory after)
  { connect := fun state => (.ok (), state)
    report := fun change => run (analyzer.report change)
    reportShare := fun share => run (analyzer.reportShare share)
    seed := fun issues state => (.ok (), hold ((held state).seed issues) state)
    disconnect := fun state => (.ok (), state) }

end Reanalysis
