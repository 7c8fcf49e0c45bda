import IntervalIndex.Tree.Walk

namespace IntervalIndex

open Scratch

/-- What a collecting query leaves behind. The values found before a fault stay. -/
structure Collected (T : PosType) (σ α : Type) where
  out : Array α
  state : σ
  /-- How many values were appended. -/
  count : Except (Stop T) Nat

namespace LinkTree

variable {ν α σ β : Type} {T : PosType}

/-- Runs a use of the tree on a buffer of the pool, or on a fresh one where there is no pool. -/
def borrow (pool : Option (Pool ν)) (use : Buffer ν → β × Buffer ν) : β × Option (Pool ν) :=
  match pool with
  | some p =>
    let (result, p) := p.lend use
    (result, some p)
  | none => ((use .fresh).1, none)

def toList (t : LinkTree ν α) (pool : Option (Pool ν)) : Except Fault (List α) × Option (Pool ν) :=
  borrow pool fun buffer =>
    let (nodes, w) := (Walk.start t buffer).drain t #[]
    (nodes.toList.mapM t.value, w.stack)

/-- Asks the test about the values still to come and appends those it accepts. -/
def scan (t : LinkTree ν α) (test : Test σ α) (firstOnly : Bool)
    (w : Walk ν) (out : Array α) (s : σ) (count : Nat) : Collected T σ α × Buffer ν :=
  match _h : w.next t with
  | (none, w') => (⟨out, s, .ok count⟩, w'.stack)
  | (some n, w') =>
    match t.value n with
    | .error f => (⟨out, s, .error (.fault f)⟩, w'.stack)
    | .ok v =>
      match test s v with
      | (.error f, s) => (⟨out, s, .error (.fault f)⟩, w'.stack)
      | (.ok false, s) => t.scan test firstOnly w' out s count
      | (.ok true, s) =>
        if firstOnly then (⟨out.push v, s, .ok (count + 1)⟩, w'.stack)
        else t.scan test firstOnly w' (out.push v) s (count + 1)
termination_by (w.remaining t).length
decreasing_by all_goals exact w.length_remaining_next t _h

/-- Appends the values that the test accepts, in the order of the tree. The whole tree is walked,
so the test may be any. A range that `Span.ofLength` rejects has no other effect. -/
def collect (t : LinkTree ν α) (start length : Pos T) (test : Test σ α) (firstOnly : Bool)
    (out : Array α) (s : σ) (pool : Option (Pool ν)) : Collected T σ α × Option (Pool ν) :=
  match Span.ofLength start length with
  | .error why => (⟨out, s, .error (.rejected why)⟩, pool)
  | .ok _ => borrow pool fun buffer => t.scan test firstOnly (.start t buffer) out s 0

end LinkTree

end IntervalIndex
