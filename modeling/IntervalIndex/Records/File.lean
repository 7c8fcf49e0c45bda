import IntervalIndex.Records.Line
import IntervalIndex.Records.Stream

namespace IntervalIndex.Records

inductive FileError where
  | line (number : Nat) (why : LineError)
  | read (why : ReadFailure)
deriving DecidableEq, Repr

/-- The line number is the error's, counted from one. -/
def LineError.message (number : Nat) : LineError → String
  | missingStart => syntaxMessage "missing start field"
  | missingLength => syntaxMessage "missing length field"
  | notAnOffset field why => syntaxMessage s!"'{field}' is not an integer offset: {why.message}"
  | invalidSpan why => s!"Invalid interval on line {decimal}: {why.message}"
where
  decimal : String := String.ofList (Text.Decimal.ofNat number)
  syntaxMessage (reason : String) : String := s!"Error parsing interval on line {decimal}: {reason}"

def FileError.message : FileError → String
  | line number why => why.message number
  | read why => why.message

/-- One line of a file, as read: its record, or none, or the reason to stop there. -/
def readLine (number : Nat) : Except ReadFailure String → Except FileError (Option Record)
  | .error why => .error (.read why)
  | .ok line => (parseLine line).mapError (.line number)

def Stream.entries (s : Stream) : List (Except FileError (Option Record)) :=
  (s.lines.zipIdx 1).map fun (line, number) => readLine number line

def collect : List (Except FileError (Option Record)) → Except FileError (List Record)
  | [] => .ok []
  | .error e :: _ => .error e
  | .ok none :: rest => collect rest
  | .ok (some r) :: rest => (collect rest).map (r :: ·)

def Stream.records (s : Stream) : Except FileError (List Record) := collect s.entries

def parse (bytes : List UInt8) : Except FileError (List Record) := (Stream.ofBytes bytes).records

end IntervalIndex.Records
