namespace IntervalIndex.Gzip

inductive Trouble where
  | truncated
  | corrupt
deriving DecidableEq, Repr

/-- Bytes read bit by bit, the lowest bit of each byte first. -/
structure Bits where
  data : Array UInt8
  position : Nat

namespace Bits

def bit (b : Bits) : Except Trouble (Nat × Bits) :=
  match b.data[b.position / 8]? with
  | some byte => .ok (byte.toNat >>> (b.position % 8) % 2, ⟨b.data, b.position + 1⟩)
  | none => .error .truncated

def number : Nat → Bits → Except Trouble (Nat × Bits)
  | 0, b => .ok (0, b)
  | width + 1, b => do
    let (low, b) ← b.bit
    let (high, b) ← number width b
    return (low + 2 * high, b)

def align (b : Bits) : Bits := ⟨b.data, (b.position + 7) / 8 * 8⟩

def remaining (b : Bits) : Nat := 8 * b.data.size - b.position

end Bits

end IntervalIndex.Gzip
