import IntervalIndex.Tree.Search

namespace IntervalIndex

open Scratch

structure OpenWalk (ν α : Type) where
  tree : LinkTree ν α
  walk : Walk ν

/-- Everything that draws on one pool: trees are asked in any order, and any number of walks over
them are open at a time. The trees may differ in the type of their positions. -/
structure Session (ν α : Type) where
  pool : Pool ν
  walks : List (String × OpenWalk ν α)

inductive Request (ν σ α : Type) where
  | openWalk (name : String) (tree : LinkTree ν α)
  | advance (name : String) (visits : Nat)
  | closeWalk (name : String)
  | collect {T : PosType} (tree : LinkTree ν α) (start length : Pos T) (test : Test σ α)
      (firstOnly : Bool) (out : Array α) (s : σ)
  | any {T : PosType} (tree : LinkTree ν α) (span : α → Span T) (start length : Pos T)
      (test : Test σ α) (s : σ)
  | configure (limits : Limits)

inductive Reply (σ α : Type) where
  /-- Nothing is answered but the count of idle buffers, which any request may change. -/
  | done
  | visited (values : Except Fault (List (Option α)))
  | collected {T : PosType} (result : Collected T σ α)
  | searched {T : PosType} (result : Searched T σ)

namespace Session

variable {ν σ α : Type}

def start (pool : Pool ν) : Session ν α := ⟨pool, []⟩

def walk? (s : Session ν α) (name : String) : Option (OpenWalk ν α) := s.walks.lookup name

def close (s : Session ν α) (name : String) : Session ν α :=
  match s.walk? name with
  | some w => ⟨s.pool.release w.walk.stack, s.walks.filter (·.1 != name)⟩
  | none => s

/-- The new walk has its buffer before one of the same name is closed. -/
def openWalk (s : Session ν α) (name : String) (tree : LinkTree ν α) : Session ν α :=
  let (buffer, pool) := s.pool.acquire
  let s := close { s with pool } name
  { s with walks := (name, ⟨tree, .start tree buffer⟩) :: s.walks }

def visit (tree : LinkTree ν α) : Nat → Walk ν → Except Fault (List (Option α)) × Walk ν
  | 0, w => (.ok [], w)
  | visits + 1, w =>
    match w.nextValue tree with
    | (.error f, w) => (.error f, w)
    | (.ok v, w) =>
      let (rest, w) := visit tree visits w
      (rest.map (v :: ·), w)

def advance (s : Session ν α) (name : String) (visits : Nat) :
    Except Fault (List (Option α)) × Session ν α :=
  match s.walk? name with
  | none => (.ok [], s)
  | some w =>
    let (values, walk) := visit w.tree visits w.walk
    (values, { s with walks := s.walks.map fun (n, v) =>
      if n = name then (n, { v with walk }) else (n, v) })

def step (s : Session ν α) : Request ν σ α → Reply σ α × Session ν α
  | .openWalk name tree => (.done, s.openWalk name tree)
  | .advance name visits =>
    let (values, s) := s.advance name visits
    (.visited values, s)
  | .closeWalk name => (.done, s.close name)
  | .collect tree start length test firstOnly out state =>
    let (result, pool?) := tree.collect start length test firstOnly out state (some s.pool)
    (.collected result, { s with pool := pool?.getD s.pool })
  | .any tree span start length test state =>
    let (result, pool?) := tree.any span start length test state (some s.pool)
    (.searched result, { s with pool := pool?.getD s.pool })
  | .configure limits => (.done, { s with pool := s.pool.configure limits })

def run (s : Session ν α) : List (Request ν σ α) → List (Reply σ α) × Session ν α
  | [] => ([], s)
  | r :: rs =>
    let (reply, s) := s.step r
    let (replies, s) := s.run rs
    (reply :: replies, s)

end Session

end IntervalIndex
