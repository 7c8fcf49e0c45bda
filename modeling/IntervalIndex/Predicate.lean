import IntervalIndex.Span

namespace IntervalIndex

inductive Relation where
  | overlaps
  | intersects
  | contains
deriving DecidableEq, Repr, Inhabited

namespace Relation

def name : Relation → String
  | overlaps => "overlaps"
  | intersects => "intersects"
  | contains => "contains"

def all : List Relation := [overlaps, intersects, contains]

def ofName? (s : String) : Option Relation := all.find? (·.name == s)

def asciiLower (c : Char) : Char :=
  if 'A' ≤ c ∧ c ≤ 'Z' then Char.ofNat (c.toNat + 32) else c

/-- Reads a name in any mix of capital and small letters. Folding the ASCII letters is enough,
because no other character has the letters of these names as its small form. -/
def parse? (s : String) : Option Relation :=
  ofName? (String.ofList (s.toList.map asciiLower))

def invalidNameMessage (s : String) : String :=
  s!"Invalid predicate: {s}. Valid options are 'overlaps', 'intersects' or 'contains'"

def holds {T : PosType} : Relation → Span T → Span T → Bool
  | overlaps => Span.overlaps
  | intersects => Span.intersects
  | contains => Span.contains

end Relation

/-- The range a query asks about. Its end stays at the greatest position when it has no room. -/
def queryRange {T : PosType} (start length : Pos T) : Span T := ⟨start, start.reach length⟩

namespace Predicate

variable {T : PosType}

def overlaps (value : Span T) (start length : Pos T) : Bool :=
  value.overlaps (queryRange start length)

def intersects (value : Span T) (start length : Pos T) : Bool :=
  value.intersects (queryRange start length)

def contains (value : Span T) (start length : Pos T) : Bool :=
  value.contains (queryRange start length)

end Predicate

def Relation.matches {T : PosType} : Relation → Span T → Pos T → Pos T → Bool
  | overlaps => Predicate.overlaps
  | intersects => Predicate.intersects
  | contains => Predicate.contains

theorem Relation.matches_eq_holds {T : PosType} (r : Relation) (s : Span T) (start length : Pos T) :
    r.matches s start length = r.holds s (queryRange start length) := by
  cases r <;> rfl

end IntervalIndex
