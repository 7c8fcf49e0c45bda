namespace IntervalIndex.Records

/-- Why bytes stop coming, or why they are no text. -/
inductive ReadFailure where
  | notUtf8
  | isDirectory
  | unexpectedEnd
  | incompleteDeflate
  | invalidGzipHeader
  | gzipHeaderFieldTooLong
  | gzipChecksumMismatch
  | corruptDeflate
  | other (message : String)
deriving DecidableEq, Repr

def ReadFailure.message : ReadFailure → String
  | notUtf8 => "stream did not contain valid UTF-8"
  | isDirectory => "Is a directory (os error 21)"
  | unexpectedEnd => "unexpected end of file"
  | incompleteDeflate => "incomplete deflate stream"
  | invalidGzipHeader => "invalid gzip header"
  | gzipHeaderFieldTooLong => "gzip header field too long"
  | gzipChecksumMismatch => "corrupt gzip stream does not have a matching checksum"
  | corruptDeflate => "corrupt deflate stream"
  | other message => message

structure Stream where
  bytes : List UInt8
  failure : Option ReadFailure
deriving DecidableEq, Repr

namespace Stream

def ofBytes (bytes : List UInt8) : Stream := ⟨bytes, none⟩

def failed (failure : ReadFailure) : Stream := ⟨[], some failure⟩

def splitLines : List UInt8 → List (List UInt8) × List UInt8
  | [] => ([], [])
  | b :: bs =>
    match splitLines bs with
    | (lines, rest) =>
      if b = 10 then ([] :: lines, rest)
      else match lines with
        | [] => ([], b :: rest)
        | line :: lines => ((b :: line) :: lines, rest)

/-- A carriage return just before the line feed belongs to the line's end. -/
def dropCarriageReturn (line : List UInt8) : List UInt8 :=
  if line.getLast? = some 13 then line.dropLast else line

def decode (bytes : List UInt8) : Except ReadFailure String :=
  match String.fromUTF8? ⟨bytes.toArray⟩ with
  | some s => .ok s
  | none => .error .notUtf8

/-- What follows the last line feed: the failure that cut it short, or one more line. -/
def lastLine (failure : Option ReadFailure) (rest : List UInt8) :
    List (Except ReadFailure String) :=
  match failure, rest with
  | some e, _ => [.error e]
  | none, [] => []
  | none, rest => [decode rest]

/-- The lines as a reader meets them, each either text or the reason why it cannot be read. Readers
stop at the first such reason. -/
def lines (s : Stream) : List (Except ReadFailure String) :=
  let (ended, rest) := splitLines s.bytes
  ended.map (decode ∘ dropCarriageReturn) ++ lastLine s.failure rest

end Stream

end IntervalIndex.Records
