import Reanalysis.Binary64
import Reanalysis.Cancellation
import Reanalysis.Change
import Reanalysis.CommandLine
import Reanalysis.Commands
import Reanalysis.Config
import Reanalysis.Console
import Reanalysis.Digest
import Reanalysis.Engine.Analyzer
import Reanalysis.Engine.BuiltIn
import Reanalysis.Engine.Delimiters
import Reanalysis.Engine.LineRules
import Reanalysis.Failure
import Reanalysis.FileTree
import Reanalysis.Issue
import Reanalysis.IssueFilter
import Reanalysis.Json.Fields
import Reanalysis.Json.Printer
import Reanalysis.Json.Reader
import Reanalysis.Json.Value
import Reanalysis.Lifecycle
import Reanalysis.Main
import Reanalysis.Partition
import Reanalysis.PathMap
import Reanalysis.Pool
import Reanalysis.Project
import Reanalysis.Remote
import Reanalysis.Renderer
import Reanalysis.ResultCache
import Reanalysis.Selection
import Reanalysis.Service
import Reanalysis.Session
import Reanalysis.Site
import Reanalysis.Snapshot
import Reanalysis.SourcePath
import Reanalysis.Text
import Reanalysis.Toml.Reader
import Reanalysis.Toml.Table
import Reanalysis.Utf8
import Reanalysis.Wire.Channel
import Reanalysis.Wire.Endpoint
import Reanalysis.Wire.Lines
import Reanalysis.Wire.Message
import Reanalysis.Wire.Payload
import Reanalysis.Workplace
import Reanalysis.Proofs.ChangeContents
import Reanalysis.Proofs.Discovery
import Reanalysis.Proofs.AlikeMemories
import Reanalysis.Proofs.BrokenRuns
import Reanalysis.Proofs.PoolRefinement
import Reanalysis.Proofs.Recreation
import Reanalysis.Proofs.CallSettlement
import Reanalysis.Proofs.HandOver
import Reanalysis.Proofs.CycleRelay
import Reanalysis.Proofs.SignalWaits
import Reanalysis.Proofs.IdleWorkers
import Reanalysis.Proofs.HostedRuns
import Reanalysis.Proofs.FileSpellings
import Reanalysis.Proofs.JoinedEndpoints
import Reanalysis.Proofs.MalformedLines
import Reanalysis.Proofs.Placement
import Reanalysis.Proofs.CancelledRuns
import Reanalysis.Proofs.CheckVerdict
import Reanalysis.Proofs.WatchLoop
import Reanalysis.Proofs.WellNested
import Reanalysis.Proofs.SelectedFiles
import Reanalysis.Proofs.LeastWork
import Reanalysis.Proofs.CycleOutcome
import Reanalysis.Proofs.HiddenText
import Reanalysis.Proofs.PendingBuffer
import Reanalysis.Proofs.IssuePlaces
import Reanalysis.Proofs.RuleLists
import Reanalysis.Proofs.LineFindings
import Reanalysis.Proofs.PathPrefixes
import Reanalysis.Proofs.RunnableConfig
