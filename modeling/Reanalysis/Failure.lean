/-
Why work did not produce a result: in setting it up, on the wire, in a call, in an
analysis and in a whole cycle. Each kind of failure is a cause; its wording is one
function.
-/

import Reanalysis.FileTree

namespace Reanalysis

/-- Why there is no configuration to work with, or a directory that it names cannot be
searched. -/
inductive ConfigError where
  | unreadable (path : SourcePath) (fault : FileFault)
  | malformed
  | missing (field : String)
  | invalid (explanation : String)
deriving DecidableEq, Repr

def ConfigError.describe : ConfigError → String
  | .unreadable path fault => "failed to read " ++ path.text ++ ": " ++ fault.message
  | .malformed => "failed to parse configuration"
  | .missing field => "missing required field: " ++ field
  | .invalid explanation => "validation error: " ++ explanation

/-- What went wrong, in one word that both sides of a channel know. -/
inductive FaultKind where
  | cancelled
  | transportClosed
  | engine
  | configuration
  | protocol
deriving DecidableEq, Repr

namespace FaultKind

def all : List FaultKind := [.cancelled, .transportClosed, .engine, .configuration, .protocol]

def name : FaultKind → String
  | .cancelled => "cancelled"
  | .transportClosed => "transport_closed"
  | .engine => "engine"
  | .configuration => "configuration"
  | .protocol => "protocol"

def ofName? (text : String) : Option FaultKind := all.find? (fun kind => kind.name == text)

end FaultKind

/-- A failure that one side of a channel reports to the other. -/
structure Fault where
  kind : FaultKind
  message : String
deriving DecidableEq, Repr

def Fault.describe (fault : Fault) : String := fault.kind.name ++ ": " ++ fault.message

/-- Why a call over a channel has no answer of the expected type. -/
inductive CallError where
  | closed (reason : String)
  | refused (fault : Fault)
  | malformed (explanation : String)
  | broken (explanation : String)
deriving DecidableEq, Repr

def CallError.describe : CallError → String
  | .closed reason => "transport closed: " ++ reason
  | .refused fault => "remote error: " ++ fault.describe
  | .malformed explanation => "codec error: " ++ explanation
  | .broken explanation => "I/O error: " ++ explanation

inductive AnalysisError where
  | cancelled
  | transportClosed (reason : String)
  | engine (name message : String)
  | configuration (message : String)
  | protocol (message : String)
deriving DecidableEq, Repr

namespace AnalysisError

def describe : AnalysisError → String
  | .cancelled => "analysis cancelled"
  | .transportClosed reason => "transport closed: " ++ reason
  | .engine name message => name ++ " failed: " ++ message
  | .configuration message => "configuration error: " ++ message
  | .protocol message => "protocol error: " ++ message

def kind : AnalysisError → FaultKind
  | .cancelled => .cancelled
  | .transportClosed _ => .transportClosed
  | .engine _ _ => .engine
  | .configuration _ => .configuration
  | .protocol _ => .protocol

/-- The name of a failing engine is sent in front of its message. -/
def toFault (error : AnalysisError) : Fault :=
  { kind := error.kind
    message :=
      match error with
      | .cancelled => "analysis cancelled"
      | .transportClosed reason => reason
      | .engine name message => name ++ ": " ++ message
      | .configuration message => message
      | .protocol message => message }

/-- Cuts a text at its first colon that a space follows. -/
def cutName (before : List Char) : List Char → Option (List Char × List Char)
  | ':' :: ' ' :: rest => some (before.reverse, rest)
  | char :: rest => cutName (char :: before) rest
  | [] => none

/-- An engine fault without a name in front is one of the worker itself. -/
def ofFault (fault : Fault) : AnalysisError :=
  match fault.kind with
  | .cancelled => .cancelled
  | .transportClosed => .transportClosed fault.message
  | .engine =>
      match cutName [] fault.message.toList with
      | some (name, message) => .engine (String.ofList name) (String.ofList message)
      | none => .engine "worker" fault.message
  | .configuration => .configuration fault.message
  | .protocol => .protocol fault.message

def ofConfig (error : ConfigError) : AnalysisError := .configuration error.describe

def ofCall : CallError → AnalysisError
  | .closed reason => .transportClosed reason
  | .refused fault => ofFault fault
  | .malformed explanation => .protocol explanation
  | .broken explanation => .transportClosed explanation

end AnalysisError

inductive Thrown where
  | text (message : String)
  | other
deriving DecidableEq, Repr

def Thrown.message : Thrown → String
  | .text message => message
  | .other => "unknown panic payload"

/-- Why a call inside the process has no result: it failed, or it broke off. -/
inductive Failure where
  | error (cause : AnalysisError)
  | broke (thrown : Thrown)
deriving DecidableEq, Repr

/-- A call that breaks off counts as a failure of its engine. -/
def Failure.toError (engine : String) : Failure → AnalysisError
  | .error cause => cause
  | .broke thrown => .engine engine ("panicked: " ++ thrown.message)

structure CycleError where
  engine : String
  source : AnalysisError
deriving DecidableEq, Repr

def CycleError.describe (error : CycleError) : String :=
  error.engine ++ " engine failed: " ++ error.source.describe

end Reanalysis
