import IntervalIndex.Packed.Tree
import IntervalIndex.Predicate
import IntervalIndex.Tree.Search

namespace IntervalIndex.PackedTree

open Scratch

variable {T : PosType} {α σ : Type}

def toList (t : PackedTree T α) (pool : Pool Nat) : Except Fault (List α) × Pool Nat :=
  let (values, pool?) := t.toLinkTree.toList (some pool)
  (values, pool?.getD pool)

def collect (t : PackedTree T α) (start length : Pos T) (test : Test σ α) (firstOnly : Bool)
    (out : Array α) (s : σ) (pool : Pool Nat) : Collected T σ α × Pool Nat :=
  let (found, pool?) := t.toLinkTree.collect start length test firstOnly out s (some pool)
  (found, pool?.getD pool)

def any (t : PackedTree T α) (start length : Pos T) (test : Test σ α) (s : σ) (pool : Pool Nat) :
    Searched T σ × Pool Nat :=
  let (found, pool?) := t.toLinkTree.any t.span start length test s (some pool)
  (found, pool?.getD pool)

def relationTest (t : PackedTree T α) (r : Relation) (start length : Pos T) : Test Unit α :=
  .ofPure fun v => r.matches (t.span v) start length

def matching (t : PackedTree T α) (r : Relation) (start length : Pos T) (firstOnly : Bool)
    (pool : Pool Nat) : Except (Stop T) (Array α) × Pool Nat :=
  let (found, pool) := t.collect start length (t.relationTest r start length) firstOnly #[] () pool
  (found.count.map fun _ => found.out, pool)

def find (t : PackedTree T α) (r : Relation) (start length : Pos T) (pool : Pool Nat) :
    Except (Stop T) (Array α) × Pool Nat :=
  t.matching r start length false pool

def firstOverlapping (t : PackedTree T α) (start length : Pos T) (pool : Pool Nat) :
    Except (Stop T) (Option α) × Pool Nat :=
  let (found, pool) := t.matching .overlaps start length true pool
  (found.map Array.back?, pool)

def has (t : PackedTree T α) (r : Relation) (start length : Pos T) (pool : Pool Nat) :
    Except (Stop T) Bool × Pool Nat :=
  let (found, pool) := t.any start length (t.relationTest r start length) () pool
  (found.found, pool)

end IntervalIndex.PackedTree
