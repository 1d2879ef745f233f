/-
Reading the command line. Arguments are taken from left to right, and the first one
that does not fit ends the reading. Global options may stand before or after the name
of the command; what stands after it counts.
-/

import Reanalysis.SourcePath

namespace Reanalysis

inductive ColorChoice where
  | auto
  | always
  | never
deriving DecidableEq, Repr

namespace ColorChoice

def name : ColorChoice → String
  | .auto => "auto"
  | .always => "always"
  | .never => "never"

def ofName? (text : String) : Option ColorChoice :=
  [ColorChoice.auto, .always, .never].find? (fun choice => choice.name == text)

end ColorChoice

inductive ReportFormat where
  | text
  | json
deriving DecidableEq, Repr

namespace ReportFormat

def name : ReportFormat → String
  | .text => "text"
  | .json => "json"

def ofName? (text : String) : Option ReportFormat :=
  [ReportFormat.text, .json].find? (fun format => format.name == text)

end ReportFormat

structure Settings where
  quiet : Bool
  verbose : Bool
  color : ColorChoice
  config : Option SourcePath
deriving DecidableEq, Repr

inductive Errand where
  | check (format : ReportFormat) (inProcess : Bool)
  | watch (interval : Option Nat) (inProcess : Bool)
  | worker (engine : String)
deriving DecidableEq, Repr

inductive Invocation where
  | run (settings : Settings) (errand : Errand)
  | version
  | help
  /-- The arguments do not fit together. -/
  | refused
deriving DecidableEq, Repr

namespace CommandLine

structure OptionSpec where
  long : String
  short : Option Char
  takes : Option (String → Bool)

private def isNumber (bits : Nat) (text : String) : Option Nat :=
  let digits := match text.toList with | '+' :: rest => rest | chars => chars
  if digits.isEmpty ∨ !digits.all Char.isDigit then none
  else
    let value := digits.foldl (fun sum digit => sum * 10 + (digit.toNat - '0'.toNat)) 0
    if value < Nat.pow 2 bits then some value else none

def globalOptions : List OptionSpec :=
  [⟨"quiet", some 'q', none⟩, ⟨"verbose", some 'v', none⟩,
    ⟨"color", none, some fun text => (ColorChoice.ofName? text).isSome⟩,
    ⟨"config", none, some fun text => text ≠ ""⟩]

def formatOption : OptionSpec :=
  ⟨"format", some 'f', some fun text => (ReportFormat.ofName? text).isSome⟩

def inProcessOption : OptionSpec := ⟨"in-process", none, none⟩

def intervalOption : OptionSpec := ⟨"interval-ms", none, some fun text => (isNumber 64 text).isSome⟩

def engineOption : OptionSpec := ⟨"engine", none, some fun _ => true⟩

/-! ### Taking arguments -/

/-- Options that were given, each with its value; a flag has the empty one. -/
abbrev Given := List (String × String)

inductive Stop where
  | ended (given : Given)
  | word (given : Given) (word : String) (rest : List String)
  | version
  | help
  | refused

private def give (given : Given) (spec : OptionSpec) (value : String) : Option Given :=
  if given.any (fun entry => entry.1 == spec.long) then none
  else if (spec.takes.map (· value)).getD true then some (given ++ [(spec.long, value)])
  else none

/-- What one argument amounts to: options that are complete, and one that waits for its
value, or an end. -/
inductive Taken where
  | options (given : Given) (waiting : Option OptionSpec)
  | stop (stop : Stop)

private def takeLong (specs : List OptionSpec) (given : Given) (body : List Char) : Taken :=
  let name := String.ofList (body.takeWhile (· ≠ '='))
  let value := (body.dropWhile (· ≠ '=')).tail?.map String.ofList
  match specs.find? (fun spec => spec.long == name) with
  | none => .stop .refused
  | some spec =>
      match spec.takes, value with
      | none, none => ((give given spec "").map (Taken.options · none)).getD (.stop .refused)
      | none, some _ => .stop .refused
      | some _, some value =>
          ((give given spec value).map (Taken.options · none)).getD (.stop .refused)
      | some _, none => .options given (some spec)

private def takeShort (specs : List OptionSpec) (top : Bool) (given : Given) : List Char → Taken
  | [] => .options given none
  | letter :: rest =>
      if letter = 'h' then .stop .help
      else if top && letter = 'V' then .stop .version
      else
        match specs.find? (fun spec => spec.short = some letter) with
        | none => .stop .refused
        | some spec =>
            if spec.takes.isNone then
              match give given spec "" with
              | none => .stop .refused
              | some next => takeShort specs top next rest
            else if rest.isEmpty then .options given (some spec)
            else
              let value := String.ofList (match rest with | '=' :: tail => tail | whole => whole)
              ((give given spec value).map (Taken.options · none)).getD (.stop .refused)

/-- Takes arguments up to the first word that belongs to no option. -/
private def take (specs : List OptionSpec) (top : Bool) (given : Given)
    (waiting : Option OptionSpec) : List String → Stop
  | [] => if waiting.isSome then .refused else .ended given
  | argument :: rest =>
      let chars := argument.toList
      let isWord := chars.head? ≠ some '-' || chars = ['-']
      match waiting with
      | some spec =>
          if isWord then
            match give given spec argument with
            | none => .refused
            | some next => take specs top next none rest
          else .refused
      | none =>
          if isWord then .word given argument rest
          else if chars = ['-', '-'] then (if rest.isEmpty then .ended given else .refused)
          else
            let taken :=
              match chars with
              | '-' :: '-' :: body =>
                  if body = "help".toList then Taken.stop .help
                  else if top && body = "version".toList then .stop .version
                  else takeLong specs given body
              | _ => takeShort specs top given (chars.drop 1)
            match taken with
            | .stop stop => stop
            | .options next waiting => take specs top next waiting rest

private def value? (given : Given) (spec : OptionSpec) : Option String :=
  (given.find? (fun entry => entry.1 == spec.long)).map Prod.snd

private def has (given : Given) (name : String) : Bool :=
  given.any (fun entry => entry.1 == name)

private def settings (given : Given) : Settings :=
  let find := fun (name : String) => (given.find? (fun entry => entry.1 == name)).map Prod.snd
  { quiet := has given "quiet"
    verbose := has given "verbose"
    color := ((find "color").bind ColorChoice.ofName?).getD .auto
    config := (find "config").map SourcePath.mk }

private def command (specs : List OptionSpec) (before : Given) (rest : List String)
    (build : Given → Option Errand) : Invocation :=
  match take (globalOptions ++ specs) false [] none rest with
  | .ended given =>
      match build given with
      | some errand => .run (settings (given ++ before)) errand
      | none => .refused
  | .help => .help
  | _ => .refused

def parse (arguments : List String) : Invocation :=
  match take globalOptions true [] none arguments with
  | .version => .version
  | .help => .help
  | .refused => .refused
  | .ended _ => .refused
  | .word before "check" rest =>
      command [formatOption, inProcessOption] before rest fun given =>
        some (.check (((value? given formatOption).bind ReportFormat.ofName?).getD .text)
          (has given inProcessOption.long))
  | .word before "watch" rest =>
      command [intervalOption, inProcessOption] before rest fun given =>
        some (.watch ((value? given intervalOption).bind (isNumber 64))
          (has given inProcessOption.long))
  | .word before "worker" rest =>
      command [engineOption] before rest fun given => (value? given engineOption).map .worker
  | .word _ "help" rest =>
      match rest with
      | [] => .help
      | [topic] => if ["check", "watch", "worker", "help"].contains topic then .help else .refused
      | _ => .refused
  | .word _ _ _ => .refused

end CommandLine

end Reanalysis
