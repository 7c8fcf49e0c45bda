import IntervalIndex.Text.Split

namespace IntervalIndex.Command

inductive UsageError where
  | unknownArgument
  /-- An option twice, or two that exclude each other. -/
  | conflict
  | missingRequired
  | missingValue
  | unexpectedValue
  | missingSubcommand
  | noArguments
  | help
  | version
deriving DecidableEq, Repr

inductive Effect where
  | flag
  | value
  | help
  | version
deriving DecidableEq, Repr

structure OptionSpec where
  long : String
  short : Option Char
  effect : Effect
deriving DecidableEq, Repr

def helpOption : OptionSpec := ⟨"help", some 'h', .help⟩

structure Given where
  options : List (String × String) := []
  pending : Option (OptionSpec × Option String) := none

namespace Given

def has (g : Given) (name : String) : Bool := g.options.any (·.1 == name)

def value? (g : Given) (name : String) : Option String := g.options.lookup name

def record (g : Given) (spec : OptionSpec) (value : String) : Except UsageError Given :=
  if g.has spec.long then .error .conflict
  else .ok { g with options := g.options ++ [(spec.long, value)] }

/-- Closes the option that was open. It is counted only now, so what is wrong with it is found after
what is wrong with the argument that follows it. -/
def settle (g : Given) : Except UsageError Given :=
  match g.pending with
  | none => .ok g
  | some (_, none) => .error .missingValue
  | some (spec, some value) => record { g with pending := none } spec value

def complete (g : Given) (spec : OptionSpec) (value : String) : Except UsageError Given := do
  let g ← g.settle
  match spec.effect with
  | .help => .error .help
  | .version => .error .version
  | _ => g.record spec value

def await (g : Given) (spec : OptionSpec) : Except UsageError Given := do
  let g ← g.settle
  return { g with pending := some (spec, none) }

end Given

def longOption (specs : List OptionSpec) (body : List Char) (g : Given) : Except UsageError Given :=
  let (name, rest) := body.span (· != '=')
  match specs.find? (·.long.toList == name) with
  | none => .error .unknownArgument
  | some spec =>
    match spec.effect, rest with
    | .value, [] => g.await spec
    | .value, _ :: value => g.complete spec (String.ofList value)
    | _, [] => g.complete spec ""
    | _, _ :: _ => .error .unexpectedValue

/-- Short options in one argument. One that takes a value takes the rest, less an equals sign. -/
def shortOptions (specs : List OptionSpec) : List Char → Given → Except UsageError Given
  | [], g => .ok g
  | c :: cs, g =>
    match specs.find? (·.short == some c) with
    | none => .error .unknownArgument
    | some spec =>
      match spec.effect, cs with
      | .value, [] => g.await spec
      | .value, '=' :: value => g.complete spec (String.ofList value)
      | .value, value => g.complete spec (String.ofList value)
      | _, _ => do shortOptions specs cs (← g.complete spec "")

/-- What came of the arguments: the options, and the subcommand that ended them with its own
arguments. -/
structure Parsed where
  given : Given
  subcommand : Option (String × List String)

/-- Reads arguments from left to right. An argument that is no option is the value that is waited
for, or else a subcommand. After two dashes there is neither. -/
def readArguments (specs : List OptionSpec) (subcommands : List String) :
    List String → Given → Except UsageError Parsed
  | [], g => do return ⟨← g.settle, none⟩
  | arg :: args, g =>
    match arg.toList, g.pending with
    | ['-', '-'], _ => if args.isEmpty then do return ⟨← g.settle, none⟩ else .error .unknownArgument
    | '-' :: '-' :: body, _ => do readArguments specs subcommands args (← longOption specs body g)
    | '-' :: c :: cs, _ => do readArguments specs subcommands args (← shortOptions specs (c :: cs) g)
    | _, some (spec, none) =>
      readArguments specs subcommands args { g with pending := some (spec, some arg) }
    | _, _ =>
      if subcommands.contains arg then do return ⟨← g.settle, some (arg, args)⟩
      else .error .unknownArgument

def requireAll (names : List String) (g : Given) : Except UsageError Given :=
  if names.all g.has then .ok g else .error .missingRequired

def exclude (a b : String) (g : Given) : Except UsageError Given :=
  if g.has a && g.has b then .error .conflict else .ok g

def requireSome (g : Given) : Except UsageError Given :=
  if g.options.isEmpty then .error .noArguments else .ok g

end IntervalIndex.Command
