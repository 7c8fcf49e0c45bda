import IntervalIndex.Span

namespace IntervalIndex

structure Interval (T : PosType) (α : Type) where
  start : Pos T
  stop : Pos T
  val : α
deriving DecidableEq, Repr

namespace Interval

variable {T : PosType} {α : Type}

def span (i : Interval T α) : Span T := ⟨i.start, i.stop⟩

def length (i : Interval T α) : Except Fault (Pos T) := i.span.length

def overlapsRange (i : Interval T α) (start stop : Pos T) : Bool :=
  i.span.overlaps ⟨start, stop⟩

end Interval

end IntervalIndex
