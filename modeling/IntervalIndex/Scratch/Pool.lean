import IntervalIndex.Scratch.Buffer

namespace IntervalIndex.Scratch

structure Limits where
  /-- How many idle buffers are kept. -/
  maxBuffers : Nat := 32
  /-- A buffer that has grown past this is not kept. -/
  maxCapacity : Nat := 4096
deriving DecidableEq, Repr

instance : Inhabited Limits := ⟨{}⟩

structure Pool (ν : Type) where
  idle : List (Buffer ν)
  limits : Limits

namespace Pool

variable {ν β : Type}

def withLimits (limits : Limits) : Pool ν := ⟨[], limits⟩

def new : Pool ν := withLimits default

def retained (p : Pool ν) : Nat := p.idle.length

/-- Idle buffers above the new capacity go, then all but the oldest of the others. -/
def configure (p : Pool ν) (limits : Limits) : Pool ν :=
  let small := p.idle.filter (·.capacity ≤ limits.maxCapacity)
  ⟨small.drop (small.length - limits.maxBuffers), limits⟩

def acquire (p : Pool ν) : Buffer ν × Pool ν :=
  match p.idle with
  | [] => (.fresh, p)
  | b :: rest => (b, ⟨rest, p.limits⟩)

/-- A buffer that comes back is emptied, and kept when the limits of this moment allow. -/
def release (p : Pool ν) (b : Buffer ν) : Pool ν :=
  if b.capacity ≤ p.limits.maxCapacity ∧ p.idle.length < p.limits.maxBuffers then
    ⟨b.clear :: p.idle, p.limits⟩
  else p

/-- A buffer for one use. Whatever the use ends with, its buffer comes back. -/
def lend (p : Pool ν) (use : Buffer ν → β × Buffer ν) : β × Pool ν :=
  let (b, p) := p.acquire
  let (result, b) := use b
  (result, p.release b)

end Pool

/-- A stack in use. Only a pooled one goes back to the pool. -/
structure Stack (ν : Type) where
  buffer : Buffer ν
  pooled : Bool

namespace Stack

variable {ν : Type}

def unpooled : Stack ν := ⟨.fresh, false⟩

def giveBack (s : Stack ν) (p : Pool ν) : Pool ν :=
  if s.pooled then p.release s.buffer else p

end Stack

end IntervalIndex.Scratch
