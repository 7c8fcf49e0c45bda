import IntervalIndex.Document.NameMap
import IntervalIndex.Packed.Query
import IntervalIndex.Record

namespace IntervalIndex

open Scratch

abbrev DocumentTree := PackedTree .i64 Record

structure Catalog where
  trees : NameMap DocumentTree

namespace Catalog

def empty : Catalog := ⟨.empty⟩

def addRecord (groups : NameMap (Array Record)) (r : Record) :
    Except (SpanError .i64) (NameMap (Array Record)) := do
  let _ ← Span.ofLength r.start r.length
  return groups.alter r.document fun group => (group.getD #[]).push r

def addTree (order : StartSort Record.span) (trees : NameMap DocumentTree)
    (group : String × Array Record) : Except (Stop .i64) (NameMap DocumentTree) := do
  let tree ← PackedTree.ofListBy order group.2.toList
  return trees.insert group.1 tree

/-- What building leaves open: which of two records that start together comes first in their tree, and
in which order a map gives its entries. -/
structure Order where
  records : StartSort Record.span
  groups : List (String × Array Record) → List (String × Array Record)
  perm : ∀ entries, (groups entries).Perm entries

def Order.standard : Order := ⟨PackedTree.mergeByStart Record.span, id, .refl⟩

/-- Groups the records by document and builds a tree for each group. -/
def ofRecordsBy (order : Order) (records : List Record) : Except (Stop .i64) Catalog := do
  let groups ← (records.foldlM addRecord .empty).mapError .rejected
  let trees ← (order.groups groups.entries).foldlM (addTree order.records) .empty
  return ⟨trees⟩

def ofRecords : List Record → Except (Stop .i64) Catalog := ofRecordsBy .standard

def get? (catalog : Catalog) (name : String) : Option DocumentTree := catalog.trees.get? name

def documents (catalog : Catalog) : List String :=
  catalog.trees.names.mergeSort fun a b => !decide (b < a)

def size (catalog : Catalog) : Nat := catalog.trees.entries.length

def isEmpty (catalog : Catalog) : Bool := catalog.trees.entries.isEmpty

def recordCount (catalog : Catalog) : Nat :=
  catalog.trees.entries.foldr (fun (_, t) count => t.size + count) 0

/-- The records of a document that stand in a relation to a range, in order. The range is checked
also for a document without records. -/
def query (catalog : Catalog) (name : String) (start length : Pos .i64) (r : Relation)
    (firstOnly : Bool) (pool : Pool Nat) : Except (Stop .i64) (Array Record) × Pool Nat :=
  match Span.ofLength start length, catalog.get? name with
  | .error why, _ => (.error (.rejected why), pool)
  | .ok _, none => (.ok #[], pool)
  | .ok _, some tree => tree.matching r start length firstOnly pool

def any (catalog : Catalog) (name : String) (start length : Pos .i64) (r : Relation)
    (pool : Pool Nat) : Except (Stop .i64) Bool × Pool Nat :=
  match Span.ofLength start length, catalog.get? name with
  | .error why, _ => (.error (.rejected why), pool)
  | .ok _, none => (.ok false, pool)
  | .ok _, some tree => tree.has r start length pool

end Catalog

end IntervalIndex
