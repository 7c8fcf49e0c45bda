import IntervalIndex.Command.Arguments
import IntervalIndex.Config
import IntervalIndex.Document.Answers

namespace IntervalIndex.Command

def globalOptions : List OptionSpec :=
  [⟨"verbose", some 'v', .flag⟩, ⟨"config", some 'c', .value⟩]

def mainOptions : List OptionSpec :=
  globalOptions ++ [helpOption, ⟨"version", some 'V', .version⟩]

def intervalsOption : OptionSpec := ⟨"intervals", some 'i', .value⟩

def queryOptions : List OptionSpec :=
  [intervalsOption, ⟨"queries", some 'q', .value⟩, ⟨"predicate", some 'p', .value⟩,
    ⟨"first", none, .flag⟩, ⟨"exists", none, .flag⟩, helpOption]

def statsOptions : List OptionSpec := [intervalsOption, helpOption]

structure QueryArguments where
  intervals : String
  queries : String
  relation : Option String
  firstOnly : Bool
  existsOnly : Bool
deriving DecidableEq, Repr

structure StatsArguments where
  intervals : String
deriving DecidableEq, Repr

def queryArguments (g : Given) : Except UsageError QueryArguments := do
  let g ← requireSome g
  let g ← exclude "exists" "first" g
  let g ← requireAll ["intervals", "queries"] g
  return { intervals := (g.value? "intervals").getD "", queries := (g.value? "queries").getD "",
           relation := g.value? "predicate", firstOnly := g.has "first", existsOnly := g.has "exists" }

def statsArguments (g : Given) : Except UsageError StatsArguments := do
  let g ← requireSome g
  let g ← requireAll ["intervals"] g
  return ⟨(g.value? "intervals").getD ""⟩

def readQuery (args : List String) : Except UsageError QueryArguments := do
  queryArguments (← readArguments queryOptions [] args {}).given

def readStats (args : List String) : Except UsageError StatsArguments := do
  statsArguments (← readArguments statsOptions [] args {}).given

/-- The options of a query: what the arguments say comes before the defaults. A name that is no
relation's is given back. -/
def QueryArguments.options (a : QueryArguments) (defaults : QueryDefaults) :
    Except String QuerySettings :=
  match a.relation with
  | none => .ok (withRelation defaults.relation)
  | some name =>
    match Relation.parse? name with
    | some r => .ok (withRelation r)
    | none => .error name
where
  withRelation (r : Relation) : QuerySettings :=
    ⟨r, a.firstOnly || defaults.firstOnly, a.existsOnly⟩

inductive Task where
  | query (args : QueryArguments)
  | stats (args : StatsArguments)
deriving DecidableEq, Repr

structure Invocation where
  config : Option String
  task : Task
deriving DecidableEq, Repr

/-- Reads a whole command line. A configuration named behind the subcommand comes before one named
in front of it. -/
def readInvocation (args : List String) : Except UsageError Invocation := do
  let outer ← readArguments mainOptions ["query", "stats"] args {}
  match outer.subcommand with
  | none => .error .missingSubcommand
  | some (name, args) =>
    let config (g : Given) : Option String := (g.value? "config").or (outer.given.value? "config")
    if name = "query" then
      let g := (← readArguments (queryOptions ++ globalOptions) [] args {}).given
      return ⟨config g, .query (← queryArguments g)⟩
    else
      let g := (← readArguments (statsOptions ++ globalOptions) [] args {}).given
      return ⟨config g, .stats (← statsArguments g)⟩

end IntervalIndex.Command
