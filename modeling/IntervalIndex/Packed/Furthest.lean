import IntervalIndex.Span
import IntervalIndex.Packed.Slots

namespace IntervalIndex.Packed

structure Node (α : Type) where
  value : α
  /-- The slot that holds the greatest end below this one, itself included. -/
  furthest : Nat
deriving Repr

variable {α : Type} {T : PosType}

def stopAt (span : α → Span T) (nodes : Array (Node α)) (slot : Nat) : Except Fault (Pos T) := do
  return (span (← Checked.get nodes slot).value).stop

def better (span : α → Span T) (nodes : Array (Node α)) (best child : Nat) : Except Fault Nat := do
  if child < nodes.size then
    let candidate := (← Checked.get nodes child).furthest
    if (← stopAt span nodes best) < (← stopAt span nodes candidate) then return candidate
  return best

/-- Of equal ends the slot prefers its own, and then that of its left child. -/
def markSlot (span : α → Span T) (nodes : Array (Node α)) (slot : Nat) :
    Except Fault (Array (Node α)) := do
  let best ← better span nodes slot (leftSlot slot)
  let best ← better span nodes best (rightSlot slot)
  let value := (← Checked.get nodes slot).value
  Checked.set nodes slot ⟨value, best⟩

/-- Marks the slots below a bound, the last one first, so that children come before their parents. -/
def markBelow (span : α → Span T) : Nat → Array (Node α) → Except Fault (Array (Node α))
  | 0, nodes => .ok nodes
  | slot + 1, nodes => do markBelow span slot (← markSlot span nodes slot)

def unmarked (values : Array α) : Array (Node α) := values.mapIdx fun slot value => ⟨value, slot⟩

def markFurthest (span : α → Span T) (values : Array α) : Except Fault (Array (Node α)) :=
  markBelow span values.size (unmarked values)

end IntervalIndex.Packed
