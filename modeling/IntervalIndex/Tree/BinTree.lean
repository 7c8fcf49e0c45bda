namespace IntervalIndex

/-- A finite binary tree, the shape that a tree given by links unfolds to. -/
inductive BinTree (ν : Type) where
  | leaf
  | node (left : BinTree ν) (root : ν) (right : BinTree ν)
deriving Repr

namespace BinTree

variable {ν : Type}

def inOrder : BinTree ν → List ν
  | leaf => []
  | node l n r => l.inOrder ++ n :: r.inOrder

def preOrder : BinTree ν → List ν
  | leaf => []
  | node l n r => n :: (l.preOrder ++ r.preOrder)

def size : BinTree ν → Nat
  | leaf => 0
  | node l _ r => l.size + r.size + 1

def height : BinTree ν → Nat
  | leaf => 0
  | node l _ r => max l.height r.height + 1

@[simp] theorem length_inOrder (t : BinTree ν) : t.inOrder.length = t.size := by
  induction t with
  | leaf => rfl
  | node l n r ihl ihr =>
    simp only [inOrder, size, List.length_append, List.length_cons, ihl, ihr]
    omega

@[simp] theorem length_preOrder (t : BinTree ν) : t.preOrder.length = t.size := by
  induction t with
  | leaf => rfl
  | node l n r ihl ihr => simp [preOrder, size, ihl, ihr]

end BinTree

end IntervalIndex
