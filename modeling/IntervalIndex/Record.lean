import IntervalIndex.Span

namespace IntervalIndex

/-- One line of an interval file: a span of a named document, with or without a label. -/
structure Record where
  document : String
  start : Pos .i64
  length : Pos .i64
  label : Option String
deriving DecidableEq, Repr

namespace Record

def stop (r : Record) : Pos .i64 := r.start.reach r.length

def span (r : Record) : Span .i64 := ⟨r.start, r.stop⟩

/-- The columns of the line, joined by tabs; a missing label has no column. -/
def toLine (r : Record) : String :=
  s!"{r.document}\t{r.start}\t{r.length}" ++ (r.label.map ("\t" ++ ·)).getD ""

end Record

end IntervalIndex
