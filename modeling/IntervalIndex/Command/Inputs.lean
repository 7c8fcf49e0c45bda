import IntervalIndex.Command.Failure

namespace IntervalIndex.Command

open Files Records

structure Inputs where
  look : Lookup
  standard : List UInt8

def isStandard (path : String) : Bool := path == "-"

namespace Inputs

/-- The standard input is never taken to be compressed. -/
def streamWith (decoder : Stream → Stream) (inputs : Inputs) (path : String) : Except Failure Stream :=
  if isStandard path then .ok (.ofBytes inputs.standard)
  else (openWith decoder inputs.look path).mapError (.cannotOpen path)

def stream : Inputs → String → Except Failure Stream := streamWith decompress

/-- The standard input has nothing more to give once it has been read. -/
def after (inputs : Inputs) (path : String) : Inputs :=
  if isStandard path then { inputs with standard := [] } else inputs

end Inputs

def readRecordsWith (decoder : Stream → Stream) (inputs : Inputs) (path : String) :
    Except Failure (List Record) := do
  let s ← inputs.streamWith decoder path
  s.records.mapError (.cannotParse path)

/-- The records of a file, where there is nothing on the standard input. -/
def readRecords (look : Lookup) (path : String) : Except Failure (List Record) :=
  readRecordsWith decompress ⟨look, []⟩ path

end IntervalIndex.Command
