import IntervalIndex.Document.Catalog

namespace IntervalIndex.Catalog

def statsHeader : String := "document\tintervals\tdepth\tmax_end\n"

def decimal (n : Nat) : String := String.ofList (Text.Decimal.ofNat n)

def endColumn : Option (Pos .i64) → String
  | some stop => toString stop
  | none => "."

def statsRow (name : String) (tree : DocumentTree) : Except Fault String :=
  tree.greatestEnd.map fun stop =>
    "\t".intercalate [name, decimal tree.size, decimal tree.depth, endColumn stop] ++ "\n"

def statsRows (catalog : Catalog) : Except Fault (List String) :=
  (catalog.documents.filterMap fun name => (catalog.get? name).map (statsRow name)).mapM id

/-- One row for each document, by name: how many intervals it has, the depth of its tree and the
greatest end. -/
def stats (catalog : Catalog) : Except Fault String :=
  catalog.statsRows.map fun rows => statsHeader ++ String.join rows

end IntervalIndex.Catalog
