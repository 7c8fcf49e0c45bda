import IntervalIndex.Files.Directory
import IntervalIndex.Predicate
import IntervalIndex.Scratch.Pool
import IntervalIndex.Toml.Standard

namespace IntervalIndex

structure QueryDefaults where
  relation : Relation := default
  firstOnly : Bool := false
deriving DecidableEq, Repr

instance : Inhabited QueryDefaults := ⟨{}⟩

structure Config where
  limits : Scratch.Limits := {}
  query : QueryDefaults := {}
deriving DecidableEq, Repr

instance : Inhabited Config := ⟨{}⟩

inductive ConfigError where
  | invalidFileType
  | cannotOpen (why : Files.OpenError)
  | cannotRead (why : Records.ReadFailure)
  | invalidToml
deriving DecidableEq, Repr

def ConfigError.message : ConfigError → String
  | invalidFileType => "Missing or invalid file extension in index config file. It must be `toml`"
  | cannotOpen why => why.message
  | cannotRead why => why.message
  | invalidToml => "invalid TOML"

namespace Config

open Toml

def limitsDeclaration (lib : Library) : Declaration Scratch.Limits Nat Nat where
  first := ⟨"max_buffers", lib.natural, some (default : Scratch.Limits).maxBuffers⟩
  second := ⟨"max_capacity", lib.natural, some (default : Scratch.Limits).maxCapacity⟩
  make := .mk
  parts limits := (limits.maxBuffers, limits.maxCapacity)

def queryDeclaration (lib : Library) : Declaration QueryDefaults Relation Bool where
  first := ⟨"predicate", lib.choice Relation.all Relation.name, some default⟩
  second := ⟨"first_only", lib.boolean, some false⟩
  make := .mk
  parts query := (query.relation, query.firstOnly)

def declaration (lib : Library) : Declaration Config Scratch.Limits QueryDefaults where
  first := ⟨"pool", lib.record (limitsDeclaration lib), some default⟩
  second := ⟨"query", lib.record (queryDeclaration lib), some default⟩
  make := .mk
  parts c := (c.limits, c.query)

def codec (lib : Library) : Codec Config := lib.record (declaration lib)

def parseWith? (lib : Library) (text : String) : Option Config := do
  (codec lib).read? (.table .header (← lib.read? text))

def toTextWith? (lib : Library) (c : Config) : Option String :=
  match (codec lib).write c with
  | .table _ entries => lib.write? entries
  | _ => none

def toText (c : Config) : String := (toTextWith? standard c).getD ""

def readText (s : Records.Stream) : Except Records.ReadFailure String :=
  match s.failure with
  | some e => .error e
  | none => Records.Stream.decode s.bytes

/-- Reads a configuration file. Its name is checked before it is opened. -/
def loadWith (lib : Library) (look : Files.Lookup) (path : String) : Except ConfigError Config :=
  if Files.extension? path = some "toml" then do
    let s ← (Files.openPlain look path).mapError .cannotOpen
    let text ← (readText s).mapError .cannotRead
    match parseWith? lib text with
    | some c => .ok c
    | none => .error .invalidToml
  else .error .invalidFileType

def load : Files.Lookup → String → Except ConfigError Config := loadWith standard

end Config

end IntervalIndex
