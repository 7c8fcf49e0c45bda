import IntervalIndex.Records.Offset
import IntervalIndex.Text.Blank
import IntervalIndex.Text.Split

namespace IntervalIndex.Records

inductive LineError where
  | missingStart
  | missingLength
  | notAnOffset (field : String) (why : OffsetError)
  | invalidSpan (why : SpanError .i64)
deriving DecidableEq, Repr

def columns (cs : List Char) : List Char × List (List Char) := Text.splitOn '\t' cs

def isLineEnd (c : Char) : Bool := c == '\r' || c == '\n'

def isComment (cs : List Char) : Bool := cs.head? == some '#'

def offsetColumn (missing : LineError) : Option (List Char) → Except LineError Offset
  | none => .error missing
  | some cs =>
    match Offset.ofChars (Text.trim cs) with
    | .ok value => .ok value
    | .error why => .error (.notAnOffset (String.ofList cs) why)

def labelColumn : Option (List Char) → Option String
  | none | some [] => none
  | some cs => some (String.ofList cs)

/-- A line `document  start  length  [label]`. Columns past the label are ignored, and a blank line
or a comment holds no record. -/
def parseLine (line : String) : Except LineError (Option Record) :=
  let cs := Text.dropTrailing isLineEnd line.toList
  if cs.all Text.isBlank || isComment cs then .ok none
  else do
    let (document, others) := columns cs
    let start ← offsetColumn .missingStart others[0]?
    let length ← offsetColumn .missingLength others[1]?
    match Span.ofLength start length with
    | .ok _ => .ok (some ⟨String.ofList document, start, length, labelColumn others[2]?⟩)
    | .error why => .error (.invalidSpan why)

end IntervalIndex.Records
