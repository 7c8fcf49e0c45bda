import IntervalIndex.Gzip.Checksum
import IntervalIndex.Gzip.Inflate
import IntervalIndex.Records.Stream

namespace IntervalIndex.Gzip

open Records

def byteAt (data : Array UInt8) (i : Nat) : Except ReadFailure UInt8 :=
  match data[i]? with
  | some byte => .ok byte
  | none => .error .unexpectedEnd

def numberAt (data : Array UInt8) : Nat → Nat → Except ReadFailure Nat
  | 0, _ => .ok 0
  | width + 1, i => do
    let low ← byteAt data i
    let high ← numberAt data width (i + 1)
    return low.toNat + 256 * high

namespace Header

def fixedSize : Nat := 10

def hasFlag (flags : UInt8) (bit : Nat) : Bool := flags.toNat.testBit bit

/-- The two magic bytes, the one known method, and no flag without a meaning. -/
def isKnown (data : Array UInt8) (i : Nat) : Bool :=
  data.getD i 0 == 0x1F && data.getD (i + 1) 0 == 0x8B && data.getD (i + 2) 0 == 8 &&
    data.getD (i + 3) 0 &&& 0xE0 == 0

def skipExtra (data : Array UInt8) (i : Nat) : Except ReadFailure Nat := do
  let length ← numberAt data 2 i
  if data.size < i + 2 + length then .error .unexpectedEnd else return i + 2 + length

def skipText (data : Array UInt8) : Nat → Nat → Except ReadFailure Nat
  | 0, i => do
    if (← byteAt data i) = 0 then return i + 1 else .error .gzipHeaderFieldTooLong
  | room + 1, i => do
    if (← byteAt data i) = 0 then return i + 1 else skipText data room (i + 1)

def skipChecksum (data : Array UInt8) (start i : Nat) : Except ReadFailure Nat := do
  let expected ← numberAt data 2 i
  if crc32 (data.extract start i) % 0x10000 = expected then return i + 2
  else .error .gzipChecksumMismatch

def skipIf (present : Bool) (skip : Nat → Except ReadFailure Nat) (i : Nat) : Except ReadFailure Nat :=
  if present then skip i else .ok i

def skip (data : Array UInt8) (start : Nat) : Except ReadFailure Nat := do
  if data.size < start + fixedSize then .error .unexpectedEnd
  else if !isKnown data start then .error .invalidGzipHeader
  else
    let flags := data.getD (start + 3) 0
    let i ← skipIf (hasFlag flags 2) (skipExtra data) (start + fixedSize)
    let i ← skipIf (hasFlag flags 3) (skipText data 65535) i
    let i ← skipIf (hasFlag flags 4) (skipText data 65535) i
    skipIf (hasFlag flags 1) (skipChecksum data start) i

end Header

def trailer (data : Array UInt8) (out : Array UInt8) (i : Nat) : Except ReadFailure Nat := do
  let checksum ← numberAt data 4 i
  let size ← numberAt data 4 (i + 4)
  if checksum = crc32 out ∧ size = out.size % 0x100000000 then return i + 8
  else .error .gzipChecksumMismatch

def window : Nat := 32768

def request : Nat := 8192

/-- Compressed bytes come in pieces of this size, and what they yield is passed on piece by piece. -/
def piece : Nat := 32768

/-- What the whole pieces before the corrupt place yield: the most of them that are only cut short. -/
def yielded (data : Array UInt8) (start : Nat) : Nat → Nat
  | 0 => 0
  | pieces + 1 =>
    match inflate ⟨data.take ((pieces + 1) * piece), start⟩ with
    | ⟨out, .error .truncated⟩ => out.size
    | _ => yielded data start pieces

/-- How many bytes have been passed on when the data turn out to be corrupt. The bytes of a window are
lost with it, also when the window is full but the next byte has not come. A window that began
after a piece is not passed on alone when it has less than was asked for. -/
def passedOn (yielded produced : Nat) : Nat :=
  let whole := (produced - 1) / window * window
  if whole < yielded + request then yielded else whole

def member (data : Array UInt8) (start : Nat) : Array UInt8 × Except ReadFailure Nat :=
  match Header.skip data start with
  | .error e => (#[], .error e)
  | .ok i =>
    match inflate ⟨data, 8 * i⟩ with
    | ⟨out, .error .truncated⟩ => (out, .error .incompleteDeflate)
    | ⟨out, .error .corrupt⟩ =>
      let before := yielded data (8 * i) (data.size / piece)
      (out.take (passedOn before out.size), .error .corruptDeflate)
    | ⟨out, .ok b⟩ => (out, trailer data out (b.align.position / 8))

def members (data : Array UInt8) : Nat → Nat → Array UInt8 → Array UInt8 × Option ReadFailure
  | 0, _, out => (out, some .unexpectedEnd)
  | fuel + 1, start, out =>
    match member data start with
    | (more, .error e) => (out ++ more, some e)
    | (more, .ok i) =>
      if i < data.size then members data fuel i (out ++ more) else (out ++ more, none)

def stream (bytes : List UInt8) : Stream :=
  let data := bytes.toArray
  let (out, failure) := members data (data.size + 1) 0 #[]
  ⟨out.toList, failure⟩

end IntervalIndex.Gzip
