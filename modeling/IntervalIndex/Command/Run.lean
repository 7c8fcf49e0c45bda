import IntervalIndex.Command.Inputs
import IntervalIndex.Command.Options
import IntervalIndex.Document.Stats

namespace IntervalIndex.Command

open Files Records Scratch

structure Report where
  output : String
  failure : Option Failure

def Report.ofExcept : Except Failure String → Report
  | .ok output => ⟨output, none⟩
  | .error why => ⟨"", some why⟩

def readCatalog (inputs : Inputs) (path : String) : Except Failure Catalog := do
  let records ← readRecordsWith decompress inputs path
  (Catalog.ofRecords records).mapError (.cannotArrange path)

def readConfig (inputs : Inputs) : Option String → Except Failure Config
  | none => .ok default
  | some path => (Config.load inputs.look path).mapError fun _ => .cannotLoadConfig path

def prepareQuery (inputs : Inputs) (defaults : QueryDefaults) (args : QueryArguments) :
    Except Failure (Catalog × QuerySettings × Stream) := do
  let options ← (args.options defaults).mapError .invalidRelation
  let catalog ← readCatalog inputs args.intervals
  let queries ← (inputs.after args.intervals).stream args.queries
  return (catalog, options, queries)

def answerQueries (inputs : Inputs) (config : Config) (args : QueryArguments) : Report :=
  match prepareQuery inputs config.query args with
  | .error why => ⟨"", some why⟩
  | .ok (catalog, options, queries) =>
    let answers := Answers.ofStream catalog options queries (.withLimits config.limits)
    match answers.count with
    | .ok _ => ⟨answers.text, none⟩
    | .error why => ⟨answers.text, some (.cannotAnswer why)⟩

def reportStats (inputs : Inputs) (args : StatsArguments) : Report :=
  .ofExcept do
    let catalog ← readCatalog inputs args.intervals
    catalog.stats.mapError .fault

def Invocation.run (inputs : Inputs) (i : Invocation) : Report :=
  match readConfig inputs i.config with
  | .error why => ⟨"", some why⟩
  | .ok config =>
    match i.task with
    | .query args => answerQueries inputs config args
    | .stats args => reportStats inputs args

structure Outcome where
  exitCode : Nat
  output : String
  complaint : Option String
deriving DecidableEq, Repr

def versionText : String := "spantree 0.3.0\n"

def UsageError.outcome : UsageError → Outcome
  | version => ⟨0, versionText, none⟩
  | help => ⟨0, "", none⟩
  | _ => ⟨2, "", none⟩

def Report.outcome (r : Report) : Outcome :=
  match r.failure with
  | none => ⟨0, r.output, none⟩
  | some why => ⟨1, r.output, some ("Error: " ++ why.message)⟩

def run (args : List String) (inputs : Inputs) : Outcome :=
  match readInvocation args with
  | .error e => e.outcome
  | .ok i => (i.run inputs).outcome

def Invocation.paths (i : Invocation) : List String :=
  let named := match i.task with
    | .query args => [args.intervals, args.queries]
    | .stats args => [args.intervals]
  (i.config.toList ++ named.filter fun path => !isStandard path)

end IntervalIndex.Command
