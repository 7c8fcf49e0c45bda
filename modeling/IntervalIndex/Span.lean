import IntervalIndex.Position
import IntervalIndex.Fault

namespace IntervalIndex

/-- The half-open range `[start, stop)`. With `start = stop` it is a point. -/
structure Span (T : PosType) where
  start : Pos T
  stop : Pos T
deriving DecidableEq, Repr

inductive SpanError (T : PosType) where
  | negativeLength (start length : Pos T)
  | inverted (start stop : Pos T)
  | overflow (start length : Pos T)
deriving DecidableEq, Repr

def SpanError.message {T : PosType} : SpanError T → String
  | negativeLength start length => s!"Span starting at {start} has negative length {length}"
  | inverted start stop => s!"Span end {stop} precedes its start {start}"
  | overflow start length =>
    s!"Span starting at {start} with length {length} overflows its position type"

namespace Span

variable {T : PosType}

instance : ToString (Span T) := ⟨fun s => s!"[{s.start}, {s.stop})"⟩

def ofBounds (start stop : Pos T) : Except (SpanError T) (Span T) :=
  if stop < start then .error (.inverted start stop) else .ok ⟨start, stop⟩

def ofLength (start length : Pos T) : Except (SpanError T) (Span T) :=
  if length < Pos.zero then .error (.negativeLength start length)
  else match start.add? length with
    | some stop => .ok ⟨start, stop⟩
    | none => .error (.overflow start length)

def length (s : Span T) : Except Fault (Pos T) :=
  match s.stop.sub? s.start with
  | some l => .ok l
  | none => .error .lengthOverflow

def isPoint (s : Span T) : Bool := decide (s.start = s.stop)

/-- Two spans share a position; a point stands for the position it sits at. -/
def overlaps (s t : Span T) : Bool :=
  match s.isPoint, t.isPoint with
  | true, true => decide (s.start = t.start)
  | true, false => decide (t.start ≤ s.start ∧ s.start < t.stop)
  | false, true => decide (s.start ≤ t.start ∧ t.start < s.stop)
  | false, false => decide (s.start < t.stop ∧ t.start < s.stop)

def intersects (s t : Span T) : Bool :=
  decide (t.start ≤ s.stop ∧ s.start ≤ t.stop)

def contains (s t : Span T) : Bool :=
  decide (s.start ≤ t.start ∧ t.stop ≤ s.stop)

def itself (s : Span T) : Span T := s

theorem ofBounds_eq_ok_iff {a b : Pos T} {s : Span T} :
    ofBounds a b = .ok s ↔ a ≤ b ∧ s = ⟨a, b⟩ := by
  simp only [ofBounds, Pos.lt_iff, Pos.le_iff]
  split
  · simp; omega
  · simp [eq_comm]; omega

theorem ofLength_eq_ok_iff {a l : Pos T} {s : Span T} :
    ofLength a l = .ok s ↔ 0 ≤ l.val ∧ a.add? l = some s.stop ∧ s.start = a := by
  have hz : (Pos.zero : Pos T).val = 0 := rfl
  simp only [ofLength, Pos.lt_iff, hz]
  split
  · simp; omega
  · obtain ⟨b, c⟩ := s
    cases h : a.add? l with
    | none => simp
    | some e => simp [eq_comm, and_comm]; omega

end Span

end IntervalIndex
